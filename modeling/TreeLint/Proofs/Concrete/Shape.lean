import TreeLint.Proofs.Concrete.Conversion
import TreeLint.Proofs.Pattern.Meaning

/-!
# The shape of converted trees

A node that conversion makes is a leaf with one terminal, or it has a node among its slots
and every terminal beside it is the text of a token.  So some patterns never match in a
converted tree: an exact list without children, and a literal that is no string beside
another slot.
-/

namespace TreeLint

namespace Concrete

variable {source : String} {t : Concrete} {n : Node} {slots : List Slot}

/-- The slots that conversion can give a node. -/
inductive Shaped : List Slot → Prop where
  | leaf (v : Value) : Shaped [.terminal v]
  | inner {slots : List Slot} (hnode : ∃ m : Node, m.slot ∈ slots)
      (hslots : ∀ s ∈ slots, (∃ m : Node, s = m.slot) ∨ ∃ text, s = .terminal (.string text)) :
      Shaped slots

theorem toSlot_cases (source : String) (c : Concrete) :
    (∃ m : Node, c.toSlot source = m.slot) ∨
      ∃ text, c.toSlot source = .terminal (.string text) := by
  unfold toSlot
  by_cases hnamed : c.head.isNamed = true
  · rw [if_pos hnamed]
    exact .inl ⟨_, rfl⟩
  · rw [if_neg hnamed]
    exact .inr ⟨_, rfl⟩

theorem shaped_toNode (source : String) (t : Concrete) : Shaped (t.toNode source).children := by
  rw [toNode_eq]
  by_cases hleaf : t.isLeaf = true
  · rw [if_pos hleaf]
    exact .leaf _
  · rw [if_neg hleaf]
    simp only [isLeaf, Bool.not_eq_true', Bool.not_eq_false, List.any_eq_true] at hleaf
    obtain ⟨c, hc, hnamed⟩ := hleaf
    apply Shaped.inner
    · refine ⟨c.toNode source, ?_⟩
      have hslot : c.toSlot source = (c.toNode source).slot := by rw [toSlot, if_pos hnamed]
      exact hslot ▸ List.mem_map_of_mem hc
    · intro s hs
      obtain ⟨d, -, rfl⟩ := List.mem_map.1 hs
      exact toSlot_cases source d

/-- The shape holds at every depth: each node of the result is itself a conversion. -/
theorem shaped_of_mem_nodes (hn : n ∈ (t.toNode source).nodes) : Shaped n.children := by
  rw [nodes_eq_map_toNode] at hn
  obtain ⟨u, -, rfl⟩ := List.mem_map.1 hn
  exact shaped_toNode source u

/-! ## What the shape excludes -/

namespace Shaped

theorem ne_empty (h : Shaped slots) {s : Slot} (hs : s ∈ slots) : s ≠ .empty := by
  rintro rfl
  cases h with
  | leaf v => simp at hs
  | inner _ hslots =>
      obtain ⟨m, hm⟩ | ⟨text, htext⟩ := hslots _ hs
      · cases hm
      · cases htext

theorem ne_nil (h : Shaped slots) : slots ≠ [] := by
  rintro rfl
  cases h with
  | inner hnode _ =>
      obtain ⟨m, hm⟩ := hnode
      cases hm

theorem leaf_or_inner (h : Shaped slots) :
    (∃ v, slots = [.terminal v]) ∨
      (∃ m : Node, m.slot ∈ slots) ∧ ∀ v, .terminal v ∈ slots → ∃ text, v = .string text := by
  cases h with
  | leaf v => exact .inl ⟨v, rfl⟩
  | inner hnode hslots =>
      refine .inr ⟨hnode, fun v hv => ?_⟩
      obtain ⟨m, hm⟩ | ⟨text, htext⟩ := hslots _ hv
      · cases hm
      · cases htext
        exact ⟨text, rfl⟩

/-- A terminal that is no string is the only slot. -/
theorem eq_singleton (h : Shaped slots) {v : Value} (hv : .terminal v ∈ slots)
    (hstring : ∀ text, v ≠ .string text) : slots = [.terminal v] := by
  obtain ⟨w, rfl⟩ | ⟨-, hstrings⟩ := h.leaf_or_inner
  · rw [List.mem_singleton.1 hv]
  · obtain ⟨text, htext⟩ := hstrings v hv
    exact absurd htext (hstring text)

end Shaped

theorem accepts_exact_nil (h : n.children ≠ []) (kind : String) :
    (Pattern.children [] .exact).accepts n.slot = false ∧
      (Pattern.node kind [] .exact).accepts n.slot = false := by
  have hcount : Pattern.admitsCount .exact 0 n.children.length = false := by
    simpa [Pattern.admitsCount] using h
  simp [Node.slot, Pattern.accepts, hcount]

/-- A literal matches a terminal only, and one of its own kind. -/
theorem exists_terminal_of_accepts {v : Value} {s : Slot}
    (h : (Pattern.literal v).accepts s = true) (hstring : ∀ text, v ≠ .string text) :
    ∃ w, s = .terminal w ∧ ∀ text, w ≠ .string text := by
  rw [Pattern.accepts_iff, Pattern.Holds] at h
  obtain ⟨w, rfl, hequals⟩ := h
  refine ⟨w, rfl, ?_⟩
  rintro text rfl
  cases hequals
  exact hstring text rfl

/--
In a converted tree no slot is empty, and every node has one terminal as its only slot or
has a node slot and only strings as terminals.  So no exact list without children matches
a node, and a literal that is no string matches a slot only where it is alone.
-/
theorem converted_nodes_shaped (hn : n ∈ (t.toNode source).nodes) :
    (∀ s ∈ n.children, s ≠ .empty) ∧
      ((∃ v, n.children = [.terminal v]) ∨
        (∃ m : Node, m.slot ∈ n.children) ∧
          ∀ v, .terminal v ∈ n.children → ∃ text, v = .string text) ∧
      (∀ kind, (Pattern.children [] .exact).accepts n.slot = false ∧
        (Pattern.node kind [] .exact).accepts n.slot = false) ∧
      ∀ v, (∀ text, v ≠ .string text) → ∀ s ∈ n.children,
        (Pattern.literal v).accepts s = true → n.children = [s] := by
  have hshape := shaped_of_mem_nodes hn
  refine ⟨fun _ => hshape.ne_empty, hshape.leaf_or_inner, accepts_exact_nil hshape.ne_nil, ?_⟩
  intro v hstring s hs haccepts
  obtain ⟨w, rfl, hstring'⟩ := exists_terminal_of_accepts haccepts hstring
  exact hshape.eq_singleton hs hstring'

def lineHead (kind : String) (isNamed : Bool) (field : Option String) (start stop : Nat) :
    Head where
  kind := kind
  isNamed := isNamed
  isError := false
  isMissing := false
  hasError := false
  field := field
  startByte := .ofNat start
  endByte := .ofNat stop
  startRow := 0
  startColumn := start
  endRow := 0
  endColumn := stop

def oneTree : Concrete :=
  .node (lineHead "integer" true (some "right") 2 3) []

/-- The tree of `x+1;` with a token that fills a field and one that does not. -/
def sumTree : Concrete :=
  .node (lineHead "sum" true none 0 4)
    [.node (lineHead "name" true (some "left") 0 1) [],
      .node (lineHead "+" false (some "operator") 1 2) [], oneTree,
      .node (lineHead ";" false none 3 4) []]

theorem accepts_sumTree :
    let one := oneTree.toNode "x+1;"
    one ∈ (sumTree.toNode "x+1;").nodes ∧ .terminal (.integer 1) ∈ one.children ∧
      (Pattern.literal (.integer 1)).accepts (.terminal (.integer 1)) = true ∧
      one.children = [.terminal (.integer 1)] ∧
      (Pattern.node "integer" [] .exact).accepts one.slot = false := by
  intro one
  have hone : one ∈ (sumTree.toNode "x+1;").nodes := by
    rw [nodes_eq_map_toNode]
    apply List.mem_map_of_mem
    simp [sumTree, oneTree, namedTrees, namedTreesOfAll, head, lineHead]
  have hvalue : classify "integer" ((lineHead "integer" true (some "right") 2 3).span.text "x+1;") =
      .integer 1 := by decide +kernel
  have hslot : .terminal (.integer 1) ∈ one.children := by
    have hleaf : one = leafNode "x+1;" (lineHead "integer" true (some "right") 2 3) :=
      toNode_eq "x+1;" oneTree
    rw [hleaf, leafNode, Node.leaf, lineHead, ← hvalue]
    exact List.mem_singleton_self _
  have hliteral : (Pattern.literal (.integer 1)).accepts (.terminal (.integer 1)) = true := by
    decide
  obtain ⟨-, -, hexact, hsole⟩ := converted_nodes_shaped hone
  exact ⟨hone, hslot, hliteral, hsole (.integer 1) (by simp) _ hslot hliteral,
    (hexact "integer").2⟩

end Concrete

end TreeLint
