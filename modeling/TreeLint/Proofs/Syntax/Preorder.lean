import Mathlib.Data.List.Nodup
import TreeLint.Syntax.Tree

/-!
# Nodes in pre-order

The pre-order of a tree as a recursion over nodes, and the places of the nodes: a
place is the path of slot numbers that leads to a node from the root.
-/

namespace TreeLint

theorem Slot.nodesOfAll_eq (slots : List Slot) :
    Slot.nodesOfAll slots = (slots.filterMap Slot.node?).flatMap Node.nodes := by
  induction slots with
  | nil => rfl
  | cons s rest ih =>
      cases s with
      | node kind children span =>
          simp [Slot.nodesOfAll, Slot.node?, Node.nodes, Node.slot, ih]
      | terminal v => simpa [Slot.nodesOfAll, Slot.nodes, List.filterMap_cons, Slot.node?] using ih
      | empty => simpa [Slot.nodesOfAll, Slot.nodes, List.filterMap_cons, Slot.node?] using ih

/-- A node comes before the nodes of its children. -/
theorem Node.nodes_eq (n : Node) : n.nodes = n :: n.childNodes.flatMap Node.nodes := by
  rw [Node.nodes, Node.slot, Slot.nodes, Slot.nodesOfAll_eq, Node.childNodes]

/-- A walk visits the trees of its pending nodes, one after another. -/
theorem Descendants.toList_eq (d : Descendants) : d.toList = d.pending.flatMap Node.nodes := by
  fun_induction Descendants.toList d with
  | case1 d hnext =>
      obtain ⟨pending⟩ := d
      cases pending with
      | nil => rfl
      | cons n rest => simp [Descendants.next?] at hnext
  | case2 d n rest hnext _ ih =>
      obtain ⟨pending⟩ := d
      cases pending with
      | nil => simp [Descendants.next?] at hnext
      | cons m pending =>
          simp only [Descendants.next?, Option.some.injEq, Prod.mk.injEq] at hnext
          obtain ⟨rfl, rfl⟩ := hnext
          rw [ih, List.flatMap_append, List.flatMap_cons, m.nodes_eq, List.cons_append]

/-! ## Positions of nodes -/

namespace Slot

def at? : Slot → List Nat → Option Slot
  | s, [] => some s
  | .node _ children _, i :: path => children[i]?.bind fun s => s.at? path
  | _, _ :: _ => none

mutual

def placed : Slot → List (List Nat × Node)
  | .node kind children span => ([], ⟨kind, children, span⟩) :: placedFrom 0 children
  | .terminal _ => []
  | .empty => []

def placedFrom : Nat → List Slot → List (List Nat × Node)
  | _, [] => []
  | i, s :: rest => (placed s).map (fun p => (i :: p.1, p.2)) ++ placedFrom (i + 1) rest

end

mutual

theorem placed_map_snd (s : Slot) : s.placed.map Prod.snd = s.nodes := by
  cases s with
  | node kind children span => simp [placed, nodes, placedFrom_map_snd 0 children]
  | terminal v => rfl
  | empty => rfl

theorem placedFrom_map_snd (i : Nat) (slots : List Slot) :
    (placedFrom i slots).map Prod.snd = nodesOfAll slots := by
  cases slots with
  | nil => rfl
  | cons s rest =>
      simp [placedFrom, nodesOfAll, Function.comp_def, placed_map_snd s,
        placedFrom_map_snd (i + 1) rest]

end

mutual

/-- The places of a tree are the paths that lead to its nodes. -/
theorem mem_placed {s : Slot} {path : List Nat} {n : Node} :
    (path, n) ∈ s.placed ↔ s.at? path = some n.slot := by
  match s with
  | .node kind children span =>
      rw [placed, List.mem_cons, mem_placedFrom]
      cases path with
      | nil =>
          simp only [at?, Prod.mk.injEq, true_and, List.nil_eq, reduceCtorEq, false_and,
            exists_false, or_false, Option.some.injEq]
          exact ⟨by rintro rfl; rfl, by intro h; cases n; cases h; rfl⟩
      | cons i path =>
          simp only [at?, Prod.mk.injEq, reduceCtorEq, false_and, false_or, Nat.zero_add,
            List.cons.injEq]
          constructor
          · rintro ⟨j, rest, ⟨rfl, rfl⟩, h⟩
            exact h
          · intro h
            exact ⟨i, path, ⟨rfl, rfl⟩, h⟩
  | .terminal v => cases path <;> simp [placed, at?, Node.slot]
  | .empty => cases path <;> simp [placed, at?, Node.slot]

theorem mem_placedFrom {i : Nat} {slots : List Slot} {path : List Nat} {n : Node} :
    (path, n) ∈ placedFrom i slots ↔
      ∃ j rest, path = (i + j) :: rest ∧ (slots[j]?.bind fun s => s.at? rest) = some n.slot := by
  match slots with
  | [] => simp [placedFrom]
  | s :: slots =>
      rw [placedFrom, List.mem_append, mem_placedFrom]
      constructor
      · rintro (h | ⟨j, rest, rfl, h⟩)
        · obtain ⟨⟨rest, m⟩, hmem, heq⟩ := List.mem_map.1 h
          cases heq
          exact ⟨0, rest, rfl, mem_placed.1 hmem⟩
        · exact ⟨j + 1, rest, by rw [Nat.add_right_comm, Nat.add_assoc], h⟩
      · rintro ⟨j, rest, rfl, h⟩
        cases j with
        | zero => exact .inl (List.mem_map.2 ⟨(rest, n), mem_placed.2 h, rfl⟩)
        | succ j => exact .inr ⟨j, rest, by rw [Nat.add_right_comm, Nat.add_assoc], h⟩

end

mutual

/-- The places are listed in lexicographic order. -/
theorem placed_sorted (s : Slot) : (s.placed.map Prod.fst).Pairwise (· < ·) := by
  match s with
  | .node kind children span =>
      rw [placed, List.map_cons, List.pairwise_cons]
      refine ⟨fun path hpath => ?_, placedFrom_sorted 0 children⟩
      obtain ⟨⟨path, n⟩, hmem, rfl⟩ := List.mem_map.1 hpath
      obtain ⟨j, rest, rfl, -⟩ := mem_placedFrom.1 hmem
      exact List.nil_lt_cons _ _
  | .terminal v => exact .nil
  | .empty => exact .nil

theorem placedFrom_sorted (i : Nat) (slots : List Slot) :
    ((placedFrom i slots).map Prod.fst).Pairwise (· < ·) := by
  match slots with
  | [] => exact .nil
  | s :: slots =>
      rw [placedFrom, List.map_append, List.map_map, List.pairwise_append]
      refine ⟨?_, placedFrom_sorted (i + 1) slots, ?_⟩
      · rw [show (Prod.fst ∘ fun p : List Nat × Node => (i :: p.1, p.2)) = (i :: ·) ∘ Prod.fst
          from rfl, ← List.map_map, List.pairwise_map]
        exact (placed_sorted s).imp fun hlt => List.cons_lt_cons_iff.2 (.inr ⟨rfl, hlt⟩)
      · -- Paths into the first slot begin with its number, all others with a larger one.
        intro path hpath path' hpath'
        obtain ⟨⟨front, n⟩, -, rfl⟩ := List.mem_map.1 hpath
        obtain ⟨⟨front', n'⟩, hmem, rfl⟩ := List.mem_map.1 hpath'
        obtain ⟨j, rest, rfl, -⟩ := mem_placedFrom.1 hmem
        exact List.cons_lt_cons_iff.2 (.inl (by omega))

end

/-- No place is listed twice. -/
theorem placed_nodup (s : Slot) : (s.placed.map Prod.fst).Nodup :=
  s.placed_sorted.nodup

end Slot

end TreeLint
