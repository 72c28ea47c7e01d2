import TreeLint.Concrete.Basic
import TreeLint.Concrete.Terminal

/-!
# Conversion to syntax trees

Named nodes survive, and so do anonymous tokens that fill a field; those become
string terminals of their parent.  A node without named children becomes a leaf
that holds its source text as a value.

The conversion keeps a stack of nodes whose children are still being converted.
-/

namespace TreeLint

namespace Concrete

/-- The value of an anonymous token: its source text, or its kind where that does not exist. -/
def tokenValue (source : String) (h : Head) : Value :=
  .string (((h.span.text? source.toList).map String.ofList).getD h.kind)

def isLeaf (t : Concrete) : Bool :=
  !t.kept.any (·.head.isNamed)

/-- The leaf that a tree without named children becomes. -/
def leafNode (source : String) (h : Head) : Node :=
  .leaf h.kind (classify h.kind (h.span.text source)) h.span

/-- A node whose children are being converted; the slots made so far come last one first. -/
structure Frame where
  head : Head
  slots : List Slot
  pending : List Concrete

namespace Frame

def start (t : Concrete) : Frame :=
  ⟨t.head, [], t.kept⟩

def add (f : Frame) (s : Slot) : Frame :=
  { f with slots := s :: f.slots }

def finish (f : Frame) : Node :=
  ⟨f.head.kind, f.slots.reverse, f.head.span⟩

/-- Bound on the number of steps that the frame still takes. -/
def weight (f : Frame) : Nat :=
  2 * sizeOfAll f.pending + 1

end Frame

def stackWeight : List Frame → Nat
  | [] => 0
  | frame :: outer => frame.weight + stackWeight outer

theorem size_pos (t : Concrete) : 0 < t.size := by
  rw [size_eq]
  omega

def convertFrames (source : String) (current : Frame) (outer : List Frame) : Node :=
  match current, outer with
  | ⟨h, slots, []⟩, [] => Frame.finish ⟨h, slots, []⟩
  | ⟨h, slots, []⟩, parent :: outer =>
      convertFrames source (parent.add (Frame.finish ⟨h, slots, []⟩).slot) outer
  | ⟨h, slots, t :: pending⟩, outer =>
      let current : Frame := ⟨h, slots, pending⟩
      if t.head.isNamed then
        if t.isLeaf then convertFrames source (current.add (leafNode source t.head).slot) outer
        else convertFrames source (Frame.start t) (current :: outer)
      else convertFrames source (current.add (.terminal (tokenValue source t.head))) outer
termination_by current.weight + stackWeight outer
decreasing_by
  · simp [stackWeight, Frame.weight, Frame.add, sizeOfAll]
  · have := size_pos t
    simp [Frame.weight, Frame.add, sizeOfAll]
    omega
  · have := sizeOfAll_kept_lt t
    simp [stackWeight, Frame.weight, Frame.start, sizeOfAll]
    omega
  · have := size_pos t
    simp [Frame.weight, Frame.add, sizeOfAll]
    omega

def toNode (source : String) (t : Concrete) : Node :=
  if t.isLeaf then leafNode source t.head else convertFrames source (Frame.start t) []

end Concrete

end TreeLint
