import TreeLint.Syntax.Tree

/-!
# Concrete trees

What a source parser builds: every token of the source is a node.  Nodes are
named or anonymous, may fill a field of their parent, and may mark an error in
the source or a token that is missing from it.
-/

namespace TreeLint

namespace Concrete

/-- What a concrete node is, apart from its children. -/
structure Head where
  kind : String
  isNamed : Bool
  isError : Bool
  isMissing : Bool
  /-- Set when the node or one beneath it is an error or missing. -/
  hasError : Bool
  field : Option String
  startByte : UInt64
  endByte : UInt64
  startRow : Nat
  startColumn : Nat
  endRow : Nat
  endColumn : Nat
deriving DecidableEq, Repr, Inhabited

def Head.span (h : Head) : Span :=
  ⟨h.startByte, h.endByte, .ofPoint h.startRow h.startColumn, .ofPoint h.endRow h.endColumn⟩

def Head.isKept (h : Head) : Bool :=
  h.isNamed || h.field.isSome

end Concrete

inductive Concrete where
  | node (head : Concrete.Head) (children : List Concrete)
deriving Repr, Inhabited

namespace Concrete

def head : Concrete → Head
  | .node h _ => h

def children : Concrete → List Concrete
  | .node _ cs => cs

mutual

def size : Concrete → Nat
  | .node _ cs => 1 + sizeOfAll cs

def sizeOfAll : List Concrete → Nat
  | [] => 0
  | t :: rest => size t + sizeOfAll rest

end

theorem size_eq (t : Concrete) : t.size = 1 + sizeOfAll t.children := by
  cases t with
  | node h cs => simp [size, children]

theorem sizeOfAll_append (xs ys : List Concrete) :
    sizeOfAll (xs ++ ys) = sizeOfAll xs + sizeOfAll ys := by
  induction xs with
  | nil =>
      simp [sizeOfAll]
  | cons t rest ih =>
      simp [sizeOfAll, ih, Nat.add_assoc]

theorem sizeOfAll_filter_le (p : Concrete → Bool) (xs : List Concrete) :
    sizeOfAll (xs.filter p) ≤ sizeOfAll xs := by
  induction xs with
  | nil =>
      simp [sizeOfAll]
  | cons t rest ih =>
      cases h : p t <;> simp [sizeOfAll, h] <;> omega

/-- The children that conversion keeps: named ones and those that fill a field. -/
def kept (t : Concrete) : List Concrete :=
  t.children.filter (·.head.isKept)

theorem sizeOfAll_kept_lt (t : Concrete) : sizeOfAll t.kept < t.size := by
  have := sizeOfAll_filter_le (·.head.isKept) t.children
  rw [size_eq]
  unfold kept
  omega

end Concrete

end TreeLint
