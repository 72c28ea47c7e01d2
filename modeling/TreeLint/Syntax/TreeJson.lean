import TreeLint.Json.Basic
import TreeLint.Syntax.Tree

/-!
# The JSON form of syntax trees

Encoding and decoding of nodes.  A float that is not finite is encoded as
`null`, which no float accepts when it is read back.
-/

namespace TreeLint

namespace Value

/-- The JSON form of a value: its type and, unless it is nil, its content. -/
def toJson : Value → Json
  | .integer n => .object [("type", .string "integer"), ("value", .integer n.toInt)]
  | .float x =>
      .object [("type", .string "float"), ("value", if x.isFinite then .float x else .null)]
  | .boolean b => .object [("type", .string "boolean"), ("value", .bool b)]
  | .string s => .object [("type", .string "string"), ("value", .string s)]
  | .nil => .object [("type", .string "nil")]

def ofContent? (type : String) (content : Json) : Option Value :=
  if type = "integer" then (content.integer?.bind Integer.toWord?).map .integer
  else if type = "float" then content.float?.map .float
  else if type = "boolean" then content.bool?.map .boolean
  else if type = "string" then content.string?.map .string
  else if type = "nil" then
    match content with
    | .null => some .nil
    | _ => none
  else none

/-- Decode a value; only nil may lack its content. -/
def ofJson? : Json → Option Value
  | .object fields =>
      match (fields.lookup "type").bind Json.name?, fields.lookup "value" with
      | some type, some content => ofContent? type content
      | some type, none => if type = "nil" then some .nil else none
      | none, _ => none
  | .array [type, content] => type.name?.bind (ofContent? · content)
  | _ => none

end Value

namespace Position

def toJson (p : Position) : Json :=
  .object [("line", .integer p.line.toNat), ("column", .integer p.column.toNat)]

/-- Decode a position; both numbers have to fit a word of 32 bits. -/
def ofJson? (j : Json) : Option Position :=
  match j.record? ["line", "column"] with
  | some [line, column] => do
      let line ← line.natBelow? 0x100000000
      let column ← column.natBelow? 0x100000000
      return ⟨UInt32.ofNat line, UInt32.ofNat column⟩
  | _ => none

end Position

namespace Span

def toJson (s : Span) : Json :=
  .object
    [("start_byte", .integer s.startByte.toNat), ("end_byte", .integer s.endByte.toNat),
      ("start", s.start.toJson), ("end", s.stop.toJson)]

/-- Decode a span; the byte offsets have to fit a word of 64 bits. -/
def ofJson? (j : Json) : Option Span :=
  match j.record? ["start_byte", "end_byte", "start", "end"] with
  | some [startByte, endByte, start, stop] => do
      let startByte ← startByte.natBelow? 0x10000000000000000
      let endByte ← endByte.natBelow? 0x10000000000000000
      let start ← Position.ofJson? start
      let stop ← Position.ofJson? stop
      return ⟨UInt64.ofNat startByte, UInt64.ofNat endByte, start, stop⟩
  | _ => none

end Span

namespace Slot

def nodeJson (kind : String) (children : List Json) (span : Span) : Json :=
  .object [("kind", .string kind), ("children", .array children), ("span", span.toJson)]

mutual

def toJson : Slot → Json
  | .node kind children span => .object [("node", nodeJson kind (toJsonAll children) span)]
  | .terminal v => .object [("terminal", v.toJson)]
  | .empty => .string "empty"

def toJsonAll : List Slot → List Json
  | [] => []
  | s :: rest => toJson s :: toJsonAll rest

end

mutual

def nodeOfJson? : Nat → Json → Option Node
  | 0, _ => none
  | fuel + 1, j =>
      match j.record? ["kind", "children", "span"] with
      | some [kind, children, span] => do
          let kind ← kind.string?
          let children ← children.array?
          let children ← children.mapM (slotOfJson? fuel)
          let span ← Span.ofJson? span
          return ⟨kind, children, span⟩
      | _ => none

def slotOfJson? : Nat → Json → Option Slot
  | 0, _ => none
  | fuel + 1, j =>
      match j with
      | .string "empty" => some .empty
      | .object [("empty", .null)] => some .empty
      | .object [("terminal", v)] => (Value.ofJson? v).map .terminal
      | .object [("node", n)] => (nodeOfJson? fuel n).map Node.slot
      | _ => none

end

end Slot

namespace Node

def toJson (n : Node) : Json :=
  Slot.nodeJson n.kind (Slot.toJsonAll n.children) n.span

def ofJson? (j : Json) : Option Node :=
  Slot.nodeOfJson? j.depth j

end Node

end TreeLint
