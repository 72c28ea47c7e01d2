import TreeLint.Script

/-!
# The faults of a concrete tree

The search for faults skips every subtree whose flag is clear.  Where the flags are
right, a skipped subtree holds no fault, so the search lists the error and missing
nodes of the whole tree in pre-order.  A script is loaded exactly when there are none.
-/

namespace TreeLint

namespace Concrete

mutual

def subtrees : Concrete → List Concrete
  | .node h cs => .node h cs :: subtreesOfAll cs

def subtreesOfAll : List Concrete → List Concrete
  | [] => []
  | t :: rest => subtrees t ++ subtreesOfAll rest

end

def faultyHeads (t : Concrete) : List Head :=
  (t.subtrees.map head).filter Head.isFaulty

/-- Each flag tells whether its node or one beneath it is an error or missing. -/
def FlagsFaults (t : Concrete) : Prop :=
  ∀ u ∈ t.subtrees, u.head.hasError = u.subtrees.any (·.head.isFaulty)

variable {source : String} {t : Concrete}

/-! ## Subtrees -/

theorem subtreesOfAll_eq (cs : List Concrete) : subtreesOfAll cs = cs.flatMap subtrees := by
  induction cs with
  | nil => rfl
  | cons c rest ih => rw [subtreesOfAll, ih, List.flatMap_cons]

theorem subtrees_eq (t : Concrete) : t.subtrees = t :: t.children.flatMap subtrees := by
  cases t with
  | node h cs => rw [subtrees, subtreesOfAll_eq, children]

theorem faultyHeads_eq (t : Concrete) :
    t.faultyHeads =
      (if t.head.isFaulty then [t.head] else []) ++ t.children.flatMap faultyHeads := by
  have hbeneath : ((t.children.flatMap subtrees).map head).filter Head.isFaulty =
      t.children.flatMap faultyHeads := by
    simp only [List.map_flatMap, List.filter_flatMap]
    rfl
  rw [faultyHeads, subtrees_eq, List.map_cons, List.filter_cons, hbeneath]
  split <;> rfl

theorem FlagsFaults.child (h : t.FlagsFaults) {c : Concrete} (hc : c ∈ t.children) :
    c.FlagsFaults := by
  intro u hu
  apply h
  rw [subtrees_eq]
  exact List.mem_cons_of_mem t (List.mem_flatMap.2 ⟨c, hc, hu⟩)

/-- The flag of the root tells whether the tree holds a fault at all. -/
theorem FlagsFaults.root (h : t.FlagsFaults) : t.head.hasError = !t.faultyHeads.isEmpty := by
  have hroot : t ∈ t.subtrees := by
    rw [subtrees_eq]
    exact List.mem_cons_self
  rw [h t hroot, faultyHeads, Bool.eq_iff_iff]
  simp [List.isEmpty_eq_false_iff, List.filter_eq_nil_iff]

/-! ## The search -/

/-- What is searched for in the children is what they hold. -/
theorem FlagsFaults.suspects (h : t.FlagsFaults) :
    t.suspects.flatMap faultyHeads = t.children.flatMap faultyHeads := by
  by_cases hflag : t.head.hasError = true
  · rw [Concrete.suspects, if_pos hflag]
  · have hnone : t.faultyHeads = [] := by
      have hroot := h.root
      simpa [hflag] using hroot
    rw [faultyHeads_eq, List.append_eq_nil_iff] at hnone
    rw [Concrete.suspects, if_neg hflag, hnone.2, List.flatMap_nil]

theorem faultsOf_eq {pending : List Concrete} (h : ∀ t ∈ pending, t.FlagsFaults) :
    faultsOf source pending = (pending.flatMap faultyHeads).map (Head.fault source) := by
  -- The induction follows the search: a tree gives way to its suspects, which are flagged too.
  fun_induction faultsOf source pending with
  | case1 => rfl
  | case2 t rest here ih =>
      have ht : t.FlagsFaults := h t List.mem_cons_self
      have hnext : ∀ u ∈ t.suspects ++ rest, u.FlagsFaults := by
        intro u hu
        rcases List.mem_append.1 hu with hu | hu
        · unfold Concrete.suspects at hu
          split at hu
          · exact ht.child hu
          · simp at hu
        · exact h u (List.mem_cons_of_mem t hu)
      have hhere : here = (if t.head.isFaulty then [t.head] else []).map (Head.fault source) := by
        simp only [here]
        split <;> rfl
      rw [ih hnext, hhere, List.flatMap_append, ht.suspects, List.flatMap_cons, faultyHeads_eq t,
        ← List.map_append, List.append_assoc]

theorem faults_eq (h : t.FlagsFaults) :
    t.faults source = t.faultyHeads.map (Head.fault source) := by
  rw [faults, faultsOf_eq (by simpa using h), List.flatMap_singleton]

/-! ## Loading -/

theorem ofConcrete_eq (h : t.FlagsFaults) (path : String) (language : Language) :
    Script.ofConcrete path language source t =
      match t.faultyHeads with
      | [] => .ok ⟨path, language, source, t.toNode source⟩
      | first :: rest =>
          .error (.malformed first.span.start.oneBased.1 first.span.start.oneBased.2
            (if first.isMissing then "missing " ++ first.kind else "syntax error")
            (rest.length + 1)) := by
  rw [Script.ofConcrete, h.root, faults_eq h]
  cases t.faultyHeads with
  | nil => rfl
  | cons first rest => simp [Head.fault]

/--
Where the flags are right, the search lists the faults of all error and missing nodes
in pre-order.  The tree then becomes a script exactly when there is no such node;
otherwise loading fails with the place and the message of the first one and the number
of all.
-/
theorem faults_decide_loading (h : t.FlagsFaults) (parser : SourceParser) (path : String)
    (language : Language) (hparse : parser language source = .ok t) :
    t.faults source = t.faultyHeads.map (Head.fault source) ∧
      ((∃ script, Script.parseAs parser path language source = .ok script) ↔
        ∀ u ∈ t.subtrees, u.head.isError = false ∧ u.head.isMissing = false) ∧
      ∀ first rest, t.faultyHeads = first :: rest →
        Script.parseAs parser path language source =
          .error (.malformed first.span.start.oneBased.1 first.span.start.oneBased.2
            (if first.isMissing then "missing " ++ first.kind else "syntax error")
            t.faultyHeads.length) := by
  have hload : Script.parseAs parser path language source =
      Script.ofConcrete path language source t := by
    rw [Script.parseAs, hparse]
  have hnone : t.faultyHeads = [] ↔
      ∀ u ∈ t.subtrees, u.head.isError = false ∧ u.head.isMissing = false := by
    simp [faultyHeads, List.filter_eq_nil_iff, Head.isFaulty]
  rw [hload, ofConcrete_eq h, ← hnone]
  refine ⟨faults_eq h, ?_, ?_⟩
  · cases t.faultyHeads <;> simp
  · intro first rest hfaulty
    rw [hfaulty]
    rfl

/-- A named node without text at a place, with its marks and its flag. -/
def markedHead (kind : String) (isError isMissing hasError : Bool) (row column : Nat) : Head where
  kind := kind
  isNamed := true
  isError := isError
  isMissing := isMissing
  hasError := hasError
  field := none
  startByte := 0
  endByte := 0
  startRow := row
  startColumn := column
  endRow := row
  endColumn := column

/-- A sound name, a missing token, and an error with a missing token inside it. -/
def brokenTree : Concrete :=
  .node (markedHead "file" false false true 0 0)
    [.node (markedHead "name" false false false 0 0) [],
      .node (markedHead "block" false false true 1 0)
        [.node (markedHead "name" false false false 1 0) [],
          .node (markedHead ";" false true true 1 4) []],
      .node (markedHead "ERROR" true false true 2 0)
        [.node (markedHead ")" false true true 2 3) []]]

theorem parseAs_brokenTree :
    brokenTree.FlagsFaults ∧
      Script.parseAs (fun _ _ => .ok brokenTree) "a.rs" .rust "" =
        .error (.malformed 2 5 "missing ;" 3) := by
  have hflags : brokenTree.FlagsFaults := by
    unfold FlagsFaults
    decide
  have hloading := @faults_decide_loading "" brokenTree hflags (fun _ _ => .ok brokenTree) "a.rs"
    .rust rfl
  exact ⟨hflags, hloading.2.2 (markedHead ";" false true true 1 4) _ rfl⟩

end Concrete

end TreeLint
