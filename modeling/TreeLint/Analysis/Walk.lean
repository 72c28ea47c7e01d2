import TreeLint.Analysis.Event

/-!
# Walking one script

The issues of one script, one at a time.  The walk keeps the nodes that are still
to be visited and, for the node it stands at, the rules that are still to be
tried.
-/

namespace TreeLint

/-- The state of a walk; `focus` is the current node with the rules not yet tried on it. -/
structure Walk where
  script : Script
  admitted : List Rule
  pending : List Node
  focus : Option (Node × List Rule)

namespace Walk

def start (script : Script) (admitted : List Rule) : Walk :=
  ⟨script, admitted, [script.root], none⟩

def tryRules (script : Script) (n : Node) : List Rule → Option (Issue × List Rule)
  | [] => none
  | r :: rest =>
      match r.firstMatch? n with
      | some p => some (⟨script, r, p, n⟩, rest)
      | none => tryRules script n rest

/-- Bound on the number of nodes that the walk still enters or leaves. -/
def weight (w : Walk) : Nat :=
  2 * Node.sizeOfAll w.pending +
    match w.focus with
    | none => 0
    | some (n, _) => 2 * n.size - 1

theorem size_childNodes_lt (n : Node) : Node.sizeOfAll n.childNodes < n.size := by
  have := Node.sizeOfAll_childNodes_le n.children
  simp only [Node.childNodes, Node.size, Node.slot, Slot.size]
  omega

theorem sizeOfAll_append (xs ys : List Node) :
    Node.sizeOfAll (xs ++ ys) = Node.sizeOfAll xs + Node.sizeOfAll ys := by
  simp [Node.sizeOfAll, Slot.sizeOfAll_append]

theorem sizeOfAll_cons (n : Node) (ns : List Node) :
    Node.sizeOfAll (n :: ns) = n.size + Node.sizeOfAll ns := by
  simp [Node.sizeOfAll, Slot.sizeOfAll, Node.size]

theorem node_size_pos (n : Node) : 0 < n.size :=
  Slot.size_pos n.slot

def next? (w : Walk) : Option (Issue × Walk) :=
  match w with
  | ⟨script, admitted, pending, some (n, untried)⟩ =>
      match tryRules script n untried with
      | some (issue, rest) => some (issue, ⟨script, admitted, pending, some (n, rest)⟩)
      | none => next? ⟨script, admitted, n.childNodes ++ pending, none⟩
  | ⟨_, _, [], none⟩ => none
  | ⟨script, admitted, n :: pending, none⟩ =>
      next? ⟨script, admitted, pending, some (n, admitted)⟩
termination_by w.weight
decreasing_by
  · have := size_childNodes_lt n
    simp only [weight, sizeOfAll_append]
    omega
  · have := node_size_pos n
    simp only [weight, sizeOfAll_cons]
    omega

/-- Number of rules not yet tried at the current node. -/
def untried (w : Walk) : Nat :=
  match w.focus with
  | none => 0
  | some (_, rules) => rules.length

theorem tryRules_length {script : Script} {n : Node} {rules rest : List Rule} {issue : Issue}
    (h : tryRules script n rules = some (issue, rest)) : rest.length < rules.length := by
  induction rules with
  | nil =>
      simp [tryRules] at h
  | cons r rules ih =>
      unfold tryRules at h
      split at h
      · simp only [Option.some.injEq, Prod.mk.injEq] at h
        simp [h.2]
      · have := ih h
        simp
        omega

theorem next?_progress {w w' : Walk} {issue : Issue} (h : w.next? = some (issue, w')) :
    w'.weight < w.weight ∨ (w'.weight = w.weight ∧ w'.untried < w.untried) := by
  fun_induction next? w with
  | case1 script admitted pending n rules issue' rest htry =>
      simp only [Option.some.injEq, Prod.mk.injEq] at h
      obtain ⟨_, rfl⟩ := h
      exact Or.inr ⟨rfl, tryRules_length htry⟩
  | case2 script admitted pending n rules htry ih =>
      have hlt := size_childNodes_lt n
      have hstep := ih h
      simp only [weight, sizeOfAll_append] at hstep ⊢
      omega
  | case3 =>
      simp at h
  | case4 script admitted n pending ih =>
      have hpos := node_size_pos n
      have hstep := ih h
      simp only [weight, sizeOfAll_cons] at hstep ⊢
      omega

end Walk

end TreeLint
