import TreeLint.Syntax.Span
import TreeLint.Syntax.Value

/-!
# Syntax trees

A node has a kind, a span and ordered slots.  A slot holds a node or a terminal
value, or is empty.

`Slot.nodes` lists the nodes of a tree by recursion; `Descendants` walks the same
nodes one at a time with a stack of pending nodes.
-/

namespace TreeLint

/-- One child position of a node. -/
inductive Slot where
  | node (kind : String) (children : List Slot) (span : Span)
  | terminal (value : Value)
  | empty
deriving Repr, Inhabited

structure Node where
  kind : String
  children : List Slot
  span : Span
deriving Repr, Inhabited

def Node.slot (n : Node) : Slot :=
  .node n.kind n.children n.span

/-- A node whose only slot is a terminal. -/
def Node.leaf (kind : String) (value : Value) (span : Span) : Node :=
  ⟨kind, [.terminal value], span⟩

namespace Slot

def node? : Slot → Option Node
  | .node kind children span => some ⟨kind, children, span⟩
  | _ => none

def terminal? : Slot → Option Value
  | .terminal v => some v
  | _ => none

def isEmpty : Slot → Bool
  | .empty => true
  | _ => false

mutual

def nodes : Slot → List Node
  | .node kind children span => ⟨kind, children, span⟩ :: nodesOfAll children
  | .terminal _ => []
  | .empty => []

def nodesOfAll : List Slot → List Node
  | [] => []
  | s :: rest => nodes s ++ nodesOfAll rest

end

mutual

def size : Slot → Nat
  | .node _ children _ => 1 + sizeOfAll children
  | .terminal _ => 1
  | .empty => 1

def sizeOfAll : List Slot → Nat
  | [] => 0
  | s :: rest => size s + sizeOfAll rest

end

mutual

/-- Equality of trees, where terminals are compared by value. -/
def same : Slot → Slot → Bool
  | .node k cs s, .node k' cs' s' => k == k' && s == s' && sameAll cs cs'
  | .terminal v, .terminal w => v.same w
  | .empty, .empty => true
  | _, _ => false

def sameAll : List Slot → List Slot → Bool
  | [], [] => true
  | s :: ss, t :: ts => same s t && sameAll ss ts
  | _, _ => false

end

theorem size_pos (s : Slot) : 0 < s.size := by
  cases s <;> rw [size] <;> omega

theorem sizeOfAll_append (xs ys : List Slot) :
    sizeOfAll (xs ++ ys) = sizeOfAll xs + sizeOfAll ys := by
  induction xs with
  | nil =>
      simp [sizeOfAll]
  | cons s rest ih =>
      simp [sizeOfAll, ih, Nat.add_assoc]

theorem sizeOfAll_filter_le (p : Slot → Bool) (xs : List Slot) :
    sizeOfAll (xs.filter p) ≤ sizeOfAll xs := by
  induction xs with
  | nil =>
      simp [sizeOfAll]
  | cons s rest ih =>
      cases h : p s <;> simp [sizeOfAll, h] <;> omega

end Slot

namespace Node

def childNodes (n : Node) : List Node :=
  n.children.filterMap Slot.node?

/-- The node and the nodes beneath it, each before its children, children in order. -/
def nodes (n : Node) : List Node :=
  n.slot.nodes

def size (n : Node) : Nat :=
  n.slot.size

def sizeOfAll (ns : List Node) : Nat :=
  Slot.sizeOfAll (ns.map slot)

theorem sizeOfAll_childNodes_le (cs : List Slot) :
    sizeOfAll (cs.filterMap Slot.node?) ≤ Slot.sizeOfAll cs := by
  induction cs with
  | nil =>
      simp [sizeOfAll, Slot.sizeOfAll]
  | cons s rest ih =>
      simp only [sizeOfAll] at ih
      cases s <;>
        simp [sizeOfAll, List.filterMap_cons, Slot.sizeOfAll, Slot.node?, Node.slot] <;> omega

end Node

/-- The nodes of a tree that are still to be visited, the next one first. -/
structure Descendants where
  pending : List Node

namespace Descendants

def start (n : Node) : Descendants :=
  ⟨[n]⟩

/-- Visit the next node; its child nodes come next. -/
def next? (d : Descendants) : Option (Node × Descendants) :=
  match d.pending with
  | [] => none
  | n :: rest => some (n, ⟨n.childNodes ++ rest⟩)

def size (d : Descendants) : Nat :=
  Node.sizeOfAll d.pending

theorem size_next {d d' : Descendants} {n : Node} (h : d.next? = some (n, d')) :
    d'.size < d.size := by
  obtain ⟨pending⟩ := d
  cases pending with
  | nil =>
      simp [next?] at h
  | cons m rest =>
      simp only [next?, Option.some.injEq, Prod.mk.injEq] at h
      obtain ⟨rfl, rfl⟩ := h
      have hchildren := Node.sizeOfAll_childNodes_le m.children
      simp only [size, Node.sizeOfAll, List.map_append, List.map_cons,
        Slot.sizeOfAll_append, Slot.sizeOfAll, Node.childNodes, Node.slot,
        Slot.size] at hchildren ⊢
      omega

def toList (d : Descendants) : List Node :=
  match h : d.next? with
  | none => []
  | some (n, rest) =>
      have := size_next h
      n :: rest.toList
termination_by d.size

end Descendants

def Node.count (n : Node) : Nat :=
  (Descendants.start n).toList.length

end TreeLint
