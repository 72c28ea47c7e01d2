import TreeLint.Proofs.Concrete.Conversion

/-!
# The recursive conversion

Conversion written as a recursion over the concrete tree, with no stack.  The loop over
frames computes the same tree: from any stack of half-built nodes it gives every node the
slots that are still missing and puts it behind the slots its parent already has.
-/

namespace TreeLint

namespace Concrete

/-- The source text of an anonymous token; its kind where its bytes are none of the source. -/
def tokenText (source : String) (h : Head) : String :=
  match h.span.text? source.toList with
  | some text => String.ofList text
  | none => h.kind

mutual

def converted (source : String) : Concrete → Node
  | .node h cs =>
      if cs.any (·.head.isNamed) then ⟨h.kind, convertedSlots source cs, h.span⟩
      else .leaf h.kind (classify h.kind (h.span.text source)) h.span

/-- The slots of the children: named ones and those that fill a field, in order. -/
def convertedSlots (source : String) : List Concrete → List Slot
  | [] => []
  | c :: rest =>
      if c.head.isNamed then (converted source c).slot :: convertedSlots source rest
      else if c.head.field.isSome then
        .terminal (.string (tokenText source c.head)) :: convertedSlots source rest
      else convertedSlots source rest

end

theorem tokenValue_eq (source : String) (h : Head) :
    tokenValue source h = .string (tokenText source h) := by
  rw [tokenValue, tokenText]
  cases h.span.text? source.toList <;> rfl

theorem isLeaf_eq (t : Concrete) : t.isLeaf = !t.children.any (·.head.isNamed) := by
  rw [isLeaf, kept, List.any_filter]
  congr 2
  funext c
  cases hnamed : c.head.isNamed <;> simp [Head.isKept, hnamed]

mutual

theorem toNode_eq_converted (source : String) (t : Concrete) :
    t.toNode source = t.converted source := by
  match t with
  | .node h cs =>
      rw [toNode_eq, converted, isLeaf_eq, kept, children, map_toSlot_kept source cs]
      cases cs.any (·.head.isNamed) <;> rfl

theorem map_toSlot_kept (source : String) (cs : List Concrete) :
    (cs.filter (·.head.isKept)).map (toSlot source) = convertedSlots source cs := by
  match cs with
  | [] => rfl
  | c :: rest =>
      rw [convertedSlots, List.filter_cons, Head.isKept]
      by_cases hnamed : c.head.isNamed = true
      · rw [if_pos hnamed, hnamed, Bool.true_or, if_pos rfl, List.map_cons, toSlot,
          if_pos hnamed, toNode_eq_converted source c, map_toSlot_kept source rest]
      · by_cases hfield : c.head.field.isSome = true
        · rw [if_neg hnamed, if_pos hfield, hfield, Bool.or_true, if_pos rfl, List.map_cons,
            toSlot, if_neg hnamed, tokenValue_eq, map_toSlot_kept source rest]
        · rw [if_neg hnamed, if_neg hfield, if_neg (by simp [hnamed, hfield]),
            map_toSlot_kept source rest]

end

/-! ## Half-built nodes -/

def convertedSlot (source : String) (c : Concrete) : Slot :=
  if c.head.isNamed then (c.converted source).slot
  else .terminal (.string (tokenText source c.head))

def Frame.completed (source : String) (f : Frame) : Node :=
  ⟨f.head.kind, f.slots.reverse ++ f.pending.map (convertedSlot source), f.head.span⟩

/-- The root that a stack of frames ends with: each node becomes the next slot of its parent. -/
def unwound (source : String) : Frame → List Frame → Node
  | f, [] => f.completed source
  | f, parent :: outer => unwound source (parent.add (f.completed source).slot) outer

theorem toSlot_eq_convertedSlot (source : String) : toSlot source = convertedSlot source := by
  funext c
  rw [toSlot, convertedSlot, toNode_eq_converted, tokenValue_eq]

theorem convertFrames_eq_unwound (source : String) (current : Frame) (outer : List Frame) :
    convertFrames source current outer = unwound source current outer := by
  induction outer generalizing current with
  | nil =>
      rw [convertFrames_pending, convertFrames_finish, List.reverse_append, List.reverse_reverse,
        toSlot_eq_convertedSlot]
      rfl
  | cons parent outer ih =>
      rw [convertFrames_pending, convertFrames_close, ih, List.reverse_append,
        List.reverse_reverse, toSlot_eq_convertedSlot]
      rfl

/--
The loop over frames is the recursion.  It is so for whole trees and from every stack of
half-built nodes, and the text of a token is what stands in the source between its bytes.
-/
theorem conversion_is_recursive (source : String) :
    (∀ t : Concrete, t.toNode source = t.converted source) ∧
      (∀ (current : Frame) (outer : List Frame),
        convertFrames source current outer = unwound source current outer) ∧
      ∀ (h : Head) (text : List Char), h.span.text? source.toList = some text ↔
        ∃ before after, source.toList = before ++ text ++ after ∧
          Text.byteLength before = h.startByte.toNat ∧
          Text.byteLength (before ++ text) = h.endByte.toNat :=
  ⟨toNode_eq_converted source, convertFrames_eq_unwound source,
    fun _ _ => Text.slice?_eq_some_iff⟩

end Concrete

end TreeLint
