import TreeLint.Proofs.Number.Digits
import TreeLint.Syntax.TreeJson

/-!
# Decoding the JSON form of a tree

The JSON form of a node decodes to the node, unless a float in it is not finite: such
a float has no JSON number, and the decoder refuses what stands in its place.
-/

namespace TreeLint

/-! ## Numbers -/

theorem Json.natBelow?_integer {bound n : Nat} (h : n < bound) :
    (Json.integer n).natBelow? bound = some n := by
  simp [Json.natBelow?, Json.integer?, Option.filter, h]

theorem Position.ofJson?_toJson (p : Position) : Position.ofJson? p.toJson = some p := by
  have hline : p.line.toNat < 0x100000000 := p.line.toNat_lt
  have hcolumn : p.column.toNat < 0x100000000 := p.column.toNat_lt
  simp [Position.ofJson?, Position.toJson, Json.record?, List.lookup_cons,
    Json.natBelow?_integer hline, Json.natBelow?_integer hcolumn]

theorem Span.ofJson?_toJson (s : Span) : Span.ofJson? s.toJson = some s := by
  have hstart : s.startByte.toNat < 0x10000000000000000 := s.startByte.toNat_lt
  have hend : s.endByte.toNat < 0x10000000000000000 := s.endByte.toNat_lt
  simp [Span.ofJson?, Span.toJson, Json.record?, List.lookup_cons, Json.natBelow?_integer hstart,
    Json.natBelow?_integer hend, Position.ofJson?_toJson]

/-! ## Values -/

namespace Value

def hasJson : Value → Bool
  | .integer _ => true
  | .float x => x.isFinite
  | .boolean _ => true
  | .string _ => true
  | .nil => true

theorem ofJson?_typed (type : String) (content : Json) :
    ofJson? (.object [("type", .string type), ("value", content)]) =
      ofContent? type content := by
  simp [ofJson?, Json.name?, List.lookup_cons]

theorem ofJson?_toJson (v : Value) :
    ofJson? v.toJson = if v.hasJson then some v else none := by
  cases v with
  | integer n =>
      rw [toJson, ofJson?_typed]
      simp [ofContent?, Json.integer?, Integer.toWord?_toInt, hasJson]
  | float x =>
      rw [toJson, ofJson?_typed]
      cases hfinite : x.isFinite <;> simp [ofContent?, Json.float?, hasJson, hfinite]
  | boolean b =>
      rw [toJson, ofJson?_typed]
      simp [ofContent?, Json.bool?, hasJson]
  | string s =>
      rw [toJson, ofJson?_typed]
      simp [ofContent?, Json.string?, hasJson]
  | nil => simp [toJson, ofJson?, Json.name?, List.lookup_cons, hasJson]

end Value

/-! ## Trees -/

namespace Slot

mutual

def terminals : Slot → List Value
  | .node _ children _ => terminalsOfAll children
  | .terminal v => [v]
  | .empty => []

def terminalsOfAll : List Slot → List Value
  | [] => []
  | s :: rest => terminals s ++ terminalsOfAll rest

end

theorem nodeOfJson?_nodeJson (fuel : Nat) (kind : String) (children : List Json) (span : Span) :
    nodeOfJson? (fuel + 1) (nodeJson kind children span) =
      (children.mapM (slotOfJson? fuel)).map fun slots => ⟨kind, slots, span⟩ := by
  have hrecord : (nodeJson kind children span).record? ["kind", "children", "span"] =
      some [.string kind, .array children, span.toJson] := by
    simp [nodeJson, Json.record?, List.lookup_cons]
  simp only [nodeOfJson?, hrecord, Json.string?, Json.array?, Span.ofJson?_toJson,
    Option.bind_eq_bind, Option.bind_some]
  cases children.mapM (slotOfJson? fuel) <;> rfl

theorem slotOfJson?_node (fuel : Nat) (j : Json) :
    slotOfJson? (fuel + 1) (.object [("node", j)]) = (nodeOfJson? fuel j).map Node.slot := by
  simp [slotOfJson?]

theorem slotOfJson?_terminal (fuel : Nat) (j : Json) :
    slotOfJson? (fuel + 1) (.object [("terminal", j)]) = (Value.ofJson? j).map .terminal := by
  simp [slotOfJson?]

theorem slotOfJson?_empty (fuel : Nat) :
    slotOfJson? (fuel + 1) (.string "empty") = some .empty := by
  simp [slotOfJson?]

/-- The encoded children of a node lie at least two levels beneath it. -/
theorem depth_nodeJson_le (kind : String) (children : List Json) (span : Span) :
    Json.depthOfItems children + 2 ≤ (nodeJson kind children span).depth := by
  simp only [nodeJson, Json.depth, Json.depthOfFields]
  omega

mutual

theorem slotOfJson?_toJson (s : Slot) (fuel : Nat) (hfuel : s.toJson.depth ≤ fuel) :
    slotOfJson? fuel s.toJson = if s.terminals.all Value.hasJson then some s else none := by
  match s with
  | .node kind children span =>
      have hdepth := depth_nodeJson_le kind (toJsonAll children) span
      simp only [toJson, Json.depth, Json.depthOfFields] at hfuel
      obtain ⟨fuel, rfl⟩ : ∃ k, fuel = k + 2 := ⟨fuel - 2, by omega⟩
      rw [toJson, slotOfJson?_node, nodeOfJson?_nodeJson,
        mapM_slotOfJson?_toJsonAll children fuel (by omega), terminals]
      split <;> rfl
  | .terminal v =>
      obtain ⟨fuel, rfl⟩ : ∃ k, fuel = k + 1 := ⟨fuel - 1, by
        simp only [toJson, Json.depth] at hfuel
        omega⟩
      rw [toJson, slotOfJson?_terminal, Value.ofJson?_toJson]
      cases hv : v.hasJson <;> simp [terminals, hv]
  | .empty =>
      obtain ⟨fuel, rfl⟩ : ∃ k, fuel = k + 1 := ⟨fuel - 1, by
        simp only [toJson, Json.depth] at hfuel
        omega⟩
      rw [toJson, slotOfJson?_empty]
      rfl

theorem mapM_slotOfJson?_toJsonAll (slots : List Slot) (fuel : Nat)
    (hfuel : Json.depthOfItems (toJsonAll slots) ≤ fuel) :
    (toJsonAll slots).mapM (slotOfJson? fuel) =
      if (terminalsOfAll slots).all Value.hasJson then some slots else none := by
  match slots with
  | [] => rfl
  | s :: rest =>
      simp only [toJsonAll, Json.depthOfItems] at hfuel
      rw [toJsonAll, List.mapM_cons, slotOfJson?_toJson s fuel (by omega),
        mapM_slotOfJson?_toJsonAll rest fuel (by omega), terminalsOfAll, List.all_append]
      cases s.terminals.all Value.hasJson <;>
        cases (terminalsOfAll rest).all Value.hasJson <;> rfl

end

end Slot

namespace Node

def terminals (n : Node) : List Value :=
  n.slot.terminals

theorem ofJson?_toJson (n : Node) :
    ofJson? n.toJson = if n.terminals.all Value.hasJson then some n else none := by
  have hdepth := Slot.depth_nodeJson_le n.kind (Slot.toJsonAll n.children) n.span
  obtain ⟨fuel, hfuel⟩ := Nat.exists_eq_add_of_le hdepth
  rw [ofJson?, toJson, hfuel, Nat.add_right_comm, Slot.nodeOfJson?_nodeJson,
    Slot.mapM_slotOfJson?_toJsonAll n.children _ (by omega), terminals, slot, Slot.terminals]
  split <;> rfl

theorem all_hasJson_iff (n : Node) :
    n.terminals.all Value.hasJson = true ↔
      ∀ x, Value.float x ∈ n.terminals → x.isFinite = true := by
  rw [List.all_eq_true]
  constructor
  · intro hall x hx
    exact hall (.float x) hx
  · intro hfinite v hv
    cases v with
    | float x => exact hfinite x hv
    | integer m => rfl
    | boolean b => rfl
    | string s => rfl
    | nil => rfl

/--
A node is decoded from its JSON form exactly when all its floats are finite, and
otherwise nothing is.  A float that is not finite is encoded as `null`, which is no float.
-/
theorem decoded_iff_floats_finite (n : Node) :
    (ofJson? n.toJson = some n ↔ ∀ x, Value.float x ∈ n.terminals → x.isFinite = true) ∧
      (ofJson? n.toJson = none ↔ ∃ x, Value.float x ∈ n.terminals ∧ x.isFinite = false) ∧
      ∀ x : Binary64, x.isFinite = false →
        (Value.float x).toJson.get? "value" = some .null ∧
          Value.ofJson? (Value.float x).toJson = none := by
  have hfloats := n.all_hasJson_iff
  refine ⟨?_, ?_, ?_⟩
  · rw [ofJson?_toJson, ← hfloats]
    split <;> simp [*]
  · have hexists : (∃ x, Value.float x ∈ n.terminals ∧ x.isFinite = false) ↔
        ¬ n.terminals.all Value.hasJson = true := by
      rw [hfloats]
      simp
    rw [ofJson?_toJson, hexists]
    split <;> simp [*]
  · intro x hx
    refine ⟨by simp [Value.toJson, hx, Json.get?, List.lookup_cons], ?_⟩
    rw [Value.ofJson?_toJson, Value.hasJson, hx]
    rfl

end Node

end TreeLint
