import TreeLint.Concrete.Conversion
import TreeLint.Proofs.Syntax.Preorder

/-!
# Conversion as a recursion

Conversion works on a stack of nodes whose children are still being converted.
Whatever lies beneath a frame, the frame ends with one slot for every child that was
pending in it, so conversion satisfies the equation of a plain recursion over the
tree.  The nodes of the result are then the nodes that are reached from the root
through named children, in the same order.
-/

namespace TreeLint

namespace Concrete

/-- The slot that a kept child becomes: a node if it is named, otherwise a terminal. -/
def toSlot (source : String) (t : Concrete) : Slot :=
  if t.head.isNamed then (t.toNode source).slot else .terminal (tokenValue source t.head)

variable {source : String} {h : Head} {slots : List Slot} {t : Concrete}
  {rest : List Concrete} {outer : List Frame}

/-! ## Steps of the stack -/

theorem convertFrames_finish :
    convertFrames source ⟨h, slots, []⟩ [] = ⟨h.kind, slots.reverse, h.span⟩ := by
  rw [convertFrames, Frame.finish]

theorem convertFrames_close (parent : Frame) :
    convertFrames source ⟨h, slots, []⟩ (parent :: outer) =
      convertFrames source (parent.add (.node h.kind slots.reverse h.span)) outer := by
  rw [convertFrames]
  rfl

theorem convertFrames_token (hnamed : t.head.isNamed = false) :
    convertFrames source ⟨h, slots, t :: rest⟩ outer =
      convertFrames source ⟨h, t.toSlot source :: slots, rest⟩ outer := by
  rw [convertFrames, hnamed, toSlot, hnamed]
  rfl

theorem convertFrames_leaf (hnamed : t.head.isNamed = true) (hleaf : t.isLeaf = true) :
    convertFrames source ⟨h, slots, t :: rest⟩ outer =
      convertFrames source ⟨h, t.toSlot source :: slots, rest⟩ outer := by
  rw [convertFrames, toSlot, toNode, if_pos hnamed, if_pos hleaf, if_pos hnamed, if_pos hleaf]
  rfl

theorem convertFrames_open (hnamed : t.head.isNamed = true) (hleaf : ¬ t.isLeaf = true) :
    convertFrames source ⟨h, slots, t :: rest⟩ outer =
      convertFrames source (Frame.start t) (⟨h, slots, rest⟩ :: outer) := by
  rw [convertFrames, if_pos hnamed, if_neg hleaf]

/-- The pending trees of a frame become its next slots, and the frames around it wait. -/
theorem convertFrames_pending (source : String) (pending : List Concrete) (h : Head)
    (slots : List Slot) (outer : List Frame) :
    convertFrames source ⟨h, slots, pending⟩ outer =
      convertFrames source ⟨h, (pending.map (toSlot source)).reverse ++ slots, []⟩ outer := by
  -- Induction on the nodes still pending: the kept children of the first tree and the trees
  -- behind it both hold fewer.
  induction hn : sizeOfAll pending using Nat.strongRecOn generalizing pending h slots outer with
  | ind n ih =>
      cases pending with
      | nil => rfl
      | cons t rest =>
          have hpos := size_pos t
          have hkept := sizeOfAll_kept_lt t
          simp only [sizeOfAll] at hn
          have hfirst : convertFrames source ⟨h, slots, t :: rest⟩ outer =
              convertFrames source ⟨h, t.toSlot source :: slots, rest⟩ outer := by
            by_cases hnamed : t.head.isNamed = true
            · by_cases hleaf : t.isLeaf = true
              · exact convertFrames_leaf hnamed hleaf
              · have hinner := ih (sizeOfAll t.kept) (by omega) t.kept t.head []
                have hslot : t.toSlot source =
                    .node t.head.kind (t.kept.map (toSlot source)) t.head.span := by
                  rw [toSlot, if_pos hnamed, toNode, if_neg hleaf, Frame.start, hinner [] rfl,
                    convertFrames_finish, List.append_nil, List.reverse_reverse]
                  rfl
                rw [convertFrames_open hnamed hleaf, Frame.start, hinner _ rfl,
                  convertFrames_close, hslot, List.append_nil, List.reverse_reverse]
                rfl
            · exact convertFrames_token (by simpa using hnamed)
          rw [hfirst, ih (sizeOfAll rest) (by omega) rest h _ outer rfl, List.map_cons,
            List.reverse_cons, List.append_assoc, List.singleton_append]

/-- The recursive equation of conversion. -/
theorem toNode_eq (source : String) (t : Concrete) :
    t.toNode source =
      if t.isLeaf then leafNode source t.head
      else ⟨t.head.kind, t.kept.map (toSlot source), t.head.span⟩ := by
  rw [toNode, Frame.start, convertFrames_pending, convertFrames_finish, List.append_nil,
    List.reverse_reverse]

theorem kind_toNode (source : String) (t : Concrete) : (t.toNode source).kind = t.head.kind := by
  rw [toNode_eq]
  split <;> rfl

theorem span_toNode (source : String) (t : Concrete) : (t.toNode source).span = t.head.span := by
  rw [toNode_eq]
  split <;> rfl

/-! ## Named nodes -/

theorem node?_toSlot (source : String) (t : Concrete) :
    (t.toSlot source).node? = if t.head.isNamed then some (t.toNode source) else none := by
  unfold toSlot
  split <;> rfl

theorem isLeaf_iff : t.isLeaf = true ↔ t.children.filter (·.head.isNamed) = [] := by
  simp only [isLeaf, kept, Head.isKept, Bool.not_eq_true', List.any_eq_false, List.mem_filter,
    List.filter_eq_nil_iff]
  constructor
  · intro hleaf c hc hnamed
    exact hleaf c ⟨hc, by simp [hnamed]⟩ hnamed
  · rintro hnone c ⟨hc, -⟩
    exact hnone c hc

/-- The child nodes of the result are the results of the named children. -/
theorem childNodes_toNode (source : String) (t : Concrete) :
    (t.toNode source).childNodes =
      (t.children.filter (·.head.isNamed)).map (toNode source) := by
  rw [toNode_eq]
  by_cases hleaf : t.isLeaf = true
  · rw [if_pos hleaf, isLeaf_iff.1 hleaf]
    rfl
  · have hnode : (fun c => (toSlot source c).node?) =
        fun c => if c.head.isNamed then some (c.toNode source) else none :=
      funext fun c => node?_toSlot source c
    rw [if_neg hleaf, Node.childNodes, List.filterMap_map, Function.comp_def, hnode, kept,
      List.filterMap_filter, ← List.filterMap_eq_map, List.filterMap_filter]
    congr 1
    funext c
    by_cases hnamed : c.head.isNamed = true
    · simp [Head.isKept, hnamed]
    · simp [hnamed]

mutual

/-- The subtrees that are reached from the root through named children, in pre-order. -/
def namedTrees : Concrete → List Concrete
  | .node h cs => .node h cs :: namedTreesOfAll cs

def namedTreesOfAll : List Concrete → List Concrete
  | [] => []
  | t :: rest => (if t.head.isNamed then namedTrees t else []) ++ namedTreesOfAll rest

end

/-- A subtree lies at the root, or beneath a named child of the root that reaches it. -/
inductive ReachesNamed : Concrete → Concrete → Prop where
  | root (t : Concrete) : ReachesNamed t t
  | child {t c u : Concrete} (hc : c ∈ t.children) (hnamed : c.head.isNamed = true)
      (hu : ReachesNamed c u) : ReachesNamed t u

theorem namedTreesOfAll_eq (cs : List Concrete) :
    namedTreesOfAll cs = (cs.filter (·.head.isNamed)).flatMap namedTrees := by
  induction cs with
  | nil => rfl
  | cons c rest ih =>
      rw [namedTreesOfAll, ih, List.filter_cons]
      by_cases hnamed : c.head.isNamed = true
      · rw [if_pos hnamed, if_pos hnamed, List.flatMap_cons]
      · rw [if_neg hnamed, if_neg hnamed, List.nil_append]

theorem namedTrees_eq (t : Concrete) :
    t.namedTrees = t :: (t.children.filter (·.head.isNamed)).flatMap namedTrees := by
  cases t with
  | node h cs => rw [namedTrees, namedTreesOfAll_eq, children]

mutual

theorem ReachesNamed.of_mem {t u : Concrete} (hu : u ∈ t.namedTrees) : t.ReachesNamed u := by
  match t with
  | .node h cs =>
      rw [namedTrees, List.mem_cons] at hu
      rcases hu with rfl | hu
      · exact .root _
      · obtain ⟨c, hc, hnamed, hreach⟩ := ReachesNamed.of_mem_all hu
        exact .child hc hnamed hreach

theorem ReachesNamed.of_mem_all {cs : List Concrete} {u : Concrete}
    (hu : u ∈ namedTreesOfAll cs) :
    ∃ c ∈ cs, c.head.isNamed = true ∧ c.ReachesNamed u := by
  match cs with
  | [] => simp [namedTreesOfAll] at hu
  | c :: rest =>
      rw [namedTreesOfAll, List.mem_append] at hu
      rcases hu with hu | hu
      · by_cases hnamed : c.head.isNamed = true
        · rw [if_pos hnamed] at hu
          exact ⟨c, List.mem_cons_self, hnamed, ReachesNamed.of_mem hu⟩
        · simp [hnamed] at hu
      · obtain ⟨d, hd, hnamed, hreach⟩ := ReachesNamed.of_mem_all hu
        exact ⟨d, List.mem_cons_of_mem c hd, hnamed, hreach⟩

end

theorem mem_namedTrees {t u : Concrete} : u ∈ t.namedTrees ↔ t.ReachesNamed u := by
  refine ⟨ReachesNamed.of_mem, fun hreach => ?_⟩
  induction hreach with
  | root t =>
      rw [namedTrees_eq]
      exact List.mem_cons_self
  | child hc hnamed _ ih =>
      rw [namedTrees_eq]
      exact List.mem_cons_of_mem _
        (List.mem_flatMap.2 ⟨_, List.mem_filter.2 ⟨hc, hnamed⟩, ih⟩)

mutual

/-- The nodes of the result are the results of the trees reached through named children. -/
theorem nodes_eq_map_toNode (source : String) (t : Concrete) :
    (t.toNode source).nodes = t.namedTrees.map (toNode source) := by
  match t with
  | .node h cs =>
      rw [Node.nodes_eq, childNodes_toNode, namedTrees, List.map_cons, children,
        flatMap_nodes_toNode source cs]

theorem flatMap_nodes_toNode (source : String) (cs : List Concrete) :
    ((cs.filter (·.head.isNamed)).map (toNode source)).flatMap Node.nodes =
      (namedTreesOfAll cs).map (toNode source) := by
  match cs with
  | [] => rfl
  | c :: rest =>
      rw [namedTreesOfAll, List.filter_cons]
      by_cases hnamed : c.head.isNamed = true
      · rw [if_pos hnamed, if_pos hnamed, List.map_cons, List.flatMap_cons, List.map_append,
          nodes_eq_map_toNode source c, flatMap_nodes_toNode source rest]
      · rw [if_neg hnamed, if_neg hnamed, List.nil_append, flatMap_nodes_toNode source rest]

end

theorem nodes_toNode (source : String) (t : Concrete) :
    (t.toNode source).nodes.map (fun n => (n.kind, n.span)) =
      t.namedTrees.map fun u => (u.head.kind, u.head.span) := by
  rw [nodes_eq_map_toNode, List.map_map]
  congr 1
  funext u
  rw [Function.comp_apply, kind_toNode, span_toNode]

/--
Conversion loses no named node and makes none up: walking the result visits, with
kind and span, the nodes that are reached from the root through named children.
-/
theorem toNode_keeps_named_nodes (source : String) (t : Concrete) :
    (Descendants.start (t.toNode source)).toList.map (fun n => (n.kind, n.span)) =
        t.namedTrees.map (fun u => (u.head.kind, u.head.span)) ∧
      (t.toNode source).count = t.namedTrees.length ∧
      ∀ u, u ∈ t.namedTrees ↔ t.ReachesNamed u := by
  have hvisits : (Descendants.start (t.toNode source)).toList = (t.toNode source).nodes := by
    rw [Descendants.toList_eq, Descendants.start, List.flatMap_singleton]
  have hlabels := nodes_toNode source t
  refine ⟨by rw [hvisits, hlabels], ?_, fun u => mem_namedTrees⟩
  have hlength := congrArg List.length hlabels
  rwa [List.length_map, List.length_map, ← hvisits] at hlength

end Concrete

end TreeLint
