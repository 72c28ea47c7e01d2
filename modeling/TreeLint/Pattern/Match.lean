import TreeLint.Pattern.Basic

/-!
# Matching

Whether a slot matches a pattern.
-/

namespace TreeLint

namespace Slot

def filledChildren : Slot → List Slot
  | .node _ children _ => children.filter (!·.isEmpty)
  | _ => []

theorem sizeOfAll_filledChildren (s : Slot) : sizeOfAll s.filledChildren < s.size := by
  cases s with
  | node _ children _ =>
      have := sizeOfAll_filter_le (!·.isEmpty) children
      simp only [filledChildren, size]
      omega
  | _ => simp [filledChildren, sizeOfAll, size]

def anyWithin (test : Slot → Bool) (pending : List Slot) : Bool :=
  match pending with
  | [] => false
  | s :: rest => test s || anyWithin test (s.filledChildren ++ rest)
termination_by sizeOfAll pending
decreasing_by
  have := sizeOfAll_filledChildren s
  simp only [sizeOfAll_append, sizeOfAll]
  omega

end Slot

namespace Pattern

def admitsCount : Arity → Nat → Nat → Bool
  | .exact, items, slots => slots == items
  | .atLeast, items, slots => items ≤ slots

mutual

def accepts : Pattern → Slot → Bool
  | .kind name, .node k _ _ => k == name
  | .kind _, _ => false
  | .any, _ => true
  | .literal v, .terminal w => v.same w
  | .literal _, _ => false
  | .children items arity, .node _ slots _ =>
      admitsCount arity items.length slots.length && acceptsEach items slots
  | .children _ _, _ => false
  | .node name items arity, .node k slots _ =>
      k == name && admitsCount arity items.length slots.length && acceptsEach items slots
  | .node _ _ _, _ => false
  | .oneOf members, s => someAccepts members s
  | .not inner, s => !accepts inner s
  | .anywhere inner, s => Slot.anyWithin (fun t => accepts inner t) [s]

def acceptsEach : List Pattern → List Slot → Bool
  | [], _ => true
  | _ :: _, [] => false
  | p :: ps, s :: ss => accepts p s && acceptsEach ps ss

def someAccepts : List Pattern → Slot → Bool
  | [], _ => false
  | p :: ps, s => accepts p s || someAccepts ps s

end

end Pattern

end TreeLint
