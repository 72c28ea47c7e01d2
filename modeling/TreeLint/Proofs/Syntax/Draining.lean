import Mathlib.Algebra.GroupWithZero.Nat
import Mathlib.Data.List.Lex
import Mathlib.Data.List.Sort
import TreeLint.Proofs.Syntax.Preorder

/-!
# Draining a walk

A walk over a tree is asked for the next node until there is none.  Whatever is
pending, it comes to an end, and has then yielded the recursive pre-order of the
pending trees: every place of a node once, ancestors before what is beneath them and
earlier slots before later ones.
-/

namespace TreeLint

/-! ## Asking for the next node -/

namespace Descendants

def stack (d : Descendants) : List Node :=
  d.pending.reverse

/-- A step takes the last node off the stack and puts its child nodes there in reverse. -/
theorem next?_eq_some_iff {d d' : Descendants} {n : Node} :
    d.next? = some (n, d') ↔
      ∃ front, d.stack = front ++ [n] ∧ d'.stack = front ++ n.childNodes.reverse := by
  obtain ⟨pending⟩ := d
  obtain ⟨pending'⟩ := d'
  cases pending with
  | nil => simp [next?, stack]
  | cons m rest =>
      simp only [next?, stack, List.reverse_cons, Option.some.injEq, Prod.mk.injEq, mk.injEq]
      constructor
      · rintro ⟨rfl, rfl⟩
        exact ⟨rest.reverse, rfl, List.reverse_append⟩
      · rintro ⟨front, hstack, hpending⟩
        obtain ⟨rfl, hlast⟩ := List.append_inj' hstack rfl
        obtain rfl := List.singleton_inj.1 hlast
        rw [← List.reverse_append] at hpending
        exact ⟨rfl, (List.reverse_inj.1 hpending).symm⟩

/-- Asked again and again, the walk yields these nodes and then no more. -/
inductive Drains : Descendants → List Node → Prop where
  | done {d : Descendants} (h : d.next? = none) : Drains d []
  | step {d d' : Descendants} {n : Node} {ns : List Node} (h : d.next? = some (n, d'))
      (hrest : Drains d' ns) : Drains d (n :: ns)

theorem drains_toList (d : Descendants) : Drains d d.toList := by
  fun_induction Descendants.toList d with
  | case1 d hnext => exact .done hnext
  | case2 d n rest hnext _ ih => exact .step hnext ih

theorem Drains.eq_toList {d : Descendants} {ns : List Node} (h : Drains d ns) : ns = d.toList := by
  induction h with
  | done hnext =>
      rw [toList]
      split
      · rfl
      · rename_i hsome
        rw [hnext] at hsome
        cases hsome
  | step hnext _ ih =>
      rw [toList]
      split
      · rename_i hnone
        rw [hnext] at hnone
        cases hnone
      · rename_i hsome
        rw [hnext] at hsome
        cases hsome
        rw [ih]

/-- A walk comes to an end and yields the pre-orders of its pending trees. -/
theorem drains_iff {d : Descendants} {ns : List Node} :
    Drains d ns ↔ ns = d.pending.flatMap Node.nodes := by
  rw [← toList_eq]
  constructor
  · exact Drains.eq_toList
  · rintro rfl
    exact d.drains_toList

theorem drains_start_iff {n : Node} {ns : List Node} : Drains (start n) ns ↔ ns = n.nodes := by
  rw [drains_iff, start, List.flatMap_singleton]

end Descendants

theorem Node.count_eq_length (n : Node) : n.count = n.nodes.length := by
  rw [Node.count, Descendants.toList_eq, Descendants.start, List.flatMap_singleton]

/-- A node counts for one, beside what its children count. -/
theorem Node.count_eq (n : Node) : n.count = 1 + (n.childNodes.map Node.count).sum := by
  have hchildren : n.childNodes.map Node.count = n.childNodes.map fun c => c.nodes.length :=
    List.map_congr_left fun c _ => c.count_eq_length
  rw [count_eq_length, nodes_eq, List.length_cons, List.length_flatMap, hchildren, Nat.add_comm]

/-! ## The order of places -/

/--
The first path leads to an ancestor of where the second one leads, or the two part and
the first goes on into an earlier slot.
-/
def Precedes (path path' : List Nat) : Prop :=
  (path <+: path' ∧ path ≠ path') ∨
    ∃ stem i j below below', i < j ∧ path = stem ++ i :: below ∧ path' = stem ++ j :: below'

theorem lt_of_precedes {path path' : List Nat} (h : Precedes path path') : path < path' := by
  rcases h with ⟨⟨below, rfl⟩, hne⟩ | ⟨stem, i, j, below, below', hlt, rfl, rfl⟩
  · induction path with
    | nil =>
        cases below with
        | nil => exact absurd rfl hne
        | cons i below => exact List.nil_lt_cons i below
    | cons i path ih =>
        have hrest : path ≠ path ++ below := fun heq => hne (congrArg (i :: ·) heq)
        exact List.cons_lt_cons_iff.2 (.inr ⟨rfl, ih hrest⟩)
  · induction stem with
    | nil => exact List.cons_lt_cons_iff.2 (.inl hlt)
    | cons k stem ih => exact List.cons_lt_cons_iff.2 (.inr ⟨rfl, ih⟩)

theorem precedes_of_lt {path path' : List Nat} (h : path < path') : Precedes path path' := by
  induction path generalizing path' with
  | nil =>
      have hempty : [] <+: path' := List.nil_prefix
      refine .inl ⟨hempty, ?_⟩
      rintro rfl
      exact absurd h (List.lt_irrefl _)
  | cons i path ih =>
      cases path' with
      | nil => exact absurd h (List.not_lt_nil _)
      | cons j path' =>
          rcases List.cons_lt_cons_iff.1 h with hlt | ⟨rfl, hlt⟩
          · exact .inr ⟨[], i, j, path, path', hlt, rfl, rfl⟩
          · rcases ih hlt with ⟨hpath, hne⟩ | ⟨stem, a, b, below, below', hab, rfl, rfl⟩
            · have hne' : i :: path ≠ i :: path' := fun heq => hne (List.cons.inj heq).2
              exact .inl ⟨List.cons_prefix_cons.2 ⟨rfl, hpath⟩, hne'⟩
            · exact .inr ⟨i :: stem, a, b, below, below', hab, rfl, rfl⟩

theorem precedes_iff_lt {path path' : List Nat} : Precedes path path' ↔ path < path' :=
  ⟨lt_of_precedes, precedes_of_lt⟩

namespace Node

def places (n : Node) : List (List Nat) :=
  n.slot.placed.map Prod.fst

theorem mem_places {n : Node} {path : List Nat} :
    path ∈ n.places ↔ ∃ m : Node, n.slot.at? path = some m.slot := by
  rw [places, List.mem_map]
  constructor
  · rintro ⟨⟨path, m⟩, hmem, rfl⟩
    exact ⟨m, Slot.mem_placed.1 hmem⟩
  · rintro ⟨m, hm⟩
    exact ⟨(path, m), Slot.mem_placed.2 hm, rfl⟩

/-- The places are those of the nodes in pre-order. -/
theorem map_at?_places (n : Node) :
    n.places.map n.slot.at? = n.nodes.map fun m => some m.slot := by
  rw [nodes, ← Slot.placed_map_snd, places, List.map_map, List.map_map]
  apply List.map_congr_left
  rintro ⟨path, m⟩ hmem
  exact Slot.mem_placed.1 hmem

/-- One place is listed before another exactly if it precedes it in the tree. -/
theorem places_lt_iff {n : Node} {i j : Nat} {path path' : List Nat}
    (hi : n.places[i]? = some path) (hj : n.places[j]? = some path') :
    i < j ↔ Precedes path path' := by
  obtain ⟨hilt, rfl⟩ := List.getElem?_eq_some_iff.1 hi
  obtain ⟨hjlt, rfl⟩ := List.getElem?_eq_some_iff.1 hj
  have hsorted : n.places.SortedLT := List.sortedLT_iff_pairwise.2 n.slot.placed_sorted
  have hmono : (⟨i, hilt⟩ : Fin n.places.length) < ⟨j, hjlt⟩ ↔ n.places[i] < n.places[j] :=
    hsorted.strictMono_get.lt_iff_lt.symm
  rw [precedes_iff_lt, ← hmono]
  rfl

/--
A walk keeps a stack, off which it takes the last node and on which it puts the child nodes
in reverse.  Asking it for its nodes comes to an end with the recursive pre-order: the node, and
behind it the pre-orders of its child nodes in the order of their slots.  Every place of
a node in the tree is visited exactly once, and visits are in the order of the tree: an
ancestor before what is beneath it, and an earlier slot before a later one.  The number of
nodes is one more than the children have together.
-/
theorem descendants_in_preorder (n : Node) :
    (∀ (d d' : Descendants) (m : Node), d.next? = some (m, d') ↔
        ∃ front, d.stack = front ++ [m] ∧ d'.stack = front ++ m.childNodes.reverse) ∧
      (∀ ns, (Descendants.start n).Drains ns ↔ ns = n.nodes) ∧
      n.nodes = n :: n.childNodes.flatMap Node.nodes ∧
      (∃ places : List (List Nat),
        places.map n.slot.at? = n.nodes.map (fun m => some m.slot) ∧
        places.Nodup ∧ (∀ path, path ∈ places ↔ ∃ m : Node, n.slot.at? path = some m.slot) ∧
        ∀ (i j : Nat) (path path' : List Nat), places[i]? = some path → places[j]? = some path' →
          (i < j ↔ Precedes path path')) ∧
      n.count = 1 + (n.childNodes.map Node.count).sum := by
  refine ⟨fun d d' m => Descendants.next?_eq_some_iff, fun ns => Descendants.drains_start_iff,
    n.nodes_eq, ?_, n.count_eq⟩
  exact ⟨n.places, n.map_at?_places, n.slot.placed_nodup, fun path => mem_places,
    fun i j path path' => places_lt_iff⟩

def mixedSlots : Node :=
  ⟨"call", [.node "name" [.terminal .nil] default, .empty,
    .node "list" [.node "name" [] default] default], default⟩

theorem drains_mixedSlots :
    (∃ ns, (Descendants.start mixedSlots).Drains ns ∧
      ns.map Node.kind = ["call", "name", "list", "name"]) ∧ mixedSlots.count = 4 := by
  obtain ⟨-, hdrains, -, -, hcount⟩ := descendants_in_preorder mixedSlots
  refine ⟨⟨mixedSlots.nodes, (hdrains _).2 rfl, rfl⟩, ?_⟩
  rw [hcount]
  simp [mixedSlots, childNodes, List.filterMap_cons, Slot.node?, count_eq]

end Node

end TreeLint
