import TreeLint.Number.Integer
import TreeLint.Text.Alphanumeric
import TreeLint.Text.Pieces
import TreeLint.Text.Whitespace

/-!
# Log filters

A log filter is a list of directives between commas.  A directive is a level, a
target, or a target with a span and a level.  Only whether a filter is well
formed matters here.
-/

namespace TreeLint

namespace LogFilter

inductive Fault where
  | directive
  | level
deriving DecidableEq, Repr

def Fault.message : Fault → String
  | .directive => "invalid filter directive"
  | .level =>
      "error parsing level filter: expected one of \"off\", \"error\", \"warn\", \"info\", " ++
        "\"debug\", \"trace\", or a number 0-5"

def levels : List String :=
  ["off", "error", "warn", "info", "debug", "trace"]

/-- Is the text a level: nothing, a name in any letter case, or a number up to five? -/
def isLevel (text : List Char) : Bool :=
  let digits := if text.head? == some '+' then text.drop 1 else text
  text.isEmpty || levels.contains (Text.asciiLower (String.ofList text)) ||
    (Integer.readNat? 10 digits).any (· ≤ 5)

def startsTarget (c : Char) : Bool :=
  c == '-' || c == ':' || c == '_' || Text.isAlphanumeric c

/-- The part of a directive that is being read. -/
inductive State where
  | start
  | target
  | span
  | field (isEmpty : Bool)
  | fields
  | behindSpan
  /-- The level begins behind the given number of characters. -/
  | level (start : Nat)

def step (index : Nat) (c : Char) : State → Except Fault State
  | .start =>
      if c = '[' then .ok .span else if startsTarget c then .ok .target else .error .directive
  | .target =>
      if c = '=' then .ok (.level (index + 1)) else if c = '[' then .ok .span else .ok .target
  | .span =>
      if c = ']' then .ok .behindSpan
      else if c = '\x7b' then .ok (.field true)
      else .ok .span
  | .field isEmpty =>
      if c = '\x7d' then (if isEmpty then .error .directive else .ok .fields)
      else .ok (.field false)
  | .fields => if c = ']' then .ok .behindSpan else .error .directive
  | .behindSpan => if c = '=' then .ok (.level (index + 1)) else .error .directive
  | .level start => .ok (.level start)

def steps (index : Nat) (s : State) : List Char → Except Fault State
  | [] => .ok s
  | c :: rest =>
      match step index c s with
      | .error e => .error e
      | .ok s => steps (index + 1) s rest

/-- The fault of one directive, unless it is well formed. -/
def directiveFault? (text : List Char) : Option Fault :=
  let trimmed := (Text.trim (String.ofList text)).toList
  match steps 0 .start trimmed with
  | .error e => some e
  | .ok (.level start) => if isLevel (text.drop start) then none else some .level
  | .ok .target => none
  | .ok .behindSpan => none
  | .ok _ => some .directive

/-- The directives of a filter; empty ones do not count. -/
def directives (filter : String) : List (List Char) :=
  (Text.pieces ',' filter.toList).filter fun d => !d.isEmpty

/-- The first fault of a filter, unless it is well formed. -/
def fault? (filter : String) : Option Fault :=
  (directives filter).findSome? directiveFault?

end LogFilter

end TreeLint
