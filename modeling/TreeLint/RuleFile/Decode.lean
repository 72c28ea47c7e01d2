import TreeLint.Number.Decimal
import TreeLint.Rule.Definition
import TreeLint.Text.Whitespace
import TreeLint.Yaml.Reader

/-!
# Rule files in YAML

How a YAML document is read as a rule file.  Unknown keys are ignored, and lists
that are left out or null are empty.  The program runs with this decoder, which knows no
anchors, aliases, tags or directives; what is proved of the commands holds with any other.
-/

namespace TreeLint

namespace Yaml

/-- A string: the text of any scalar but a plain null. -/
def string? (y : Yaml) : Option String :=
  match y with
  | .scalar _ text => if y.isNull then none else some text
  | _ => none

/-- A list of strings; a plain null is the empty list. -/
def strings? (y : Yaml) : Option (List String) :=
  match y with
  | .sequence items => items.mapM string?
  | .scalar _ _ => if y.isNull then some [] else none
  | .mapping _ => none

/-- The words that a plain scalar may not spell where a text is meant. -/
def booleanWords : List String :=
  ["true", "false", "yes", "no", "on", "off", "y", "n"]

/-- The digits of an integer without its sign, and their radix. -/
def splitIntegerRadix : List Char → Nat × List Char
  | '0' :: 'x' :: cs => (16, cs)
  | '0' :: 'X' :: cs => (16, cs)
  | '0' :: 'o' :: cs => (8, cs)
  | '0' :: 'O' :: cs => (8, cs)
  | '0' :: 'b' :: cs => (2, cs)
  | '0' :: 'B' :: cs => (2, cs)
  | cs => (10, cs)

/-- Does a plain text spell an integer?  One that no word of 128 bits can hold is none. -/
def isIntegerText (text : String) : Bool :=
  let (negative, digits) := Integer.splitSign text.toList
  let (radix, digits) := splitIntegerRadix digits
  let limit := if negative then 1 <<< 127 else 1 <<< 128
  (Integer.readNat? radix (digits.filter (· != '_'))).any (· < limit)

def float? (text : String) : Option Binary64 :=
  let lower := Text.asciiLower text
  if [".nan", "+.nan", "-.nan"].contains lower then some (.nan false)
  else if [".inf", "+.inf"].contains lower then some (.infinity false)
  else if lower == "-.inf" then some (.infinity true)
  else Binary64.read? text.toList

def limitText (x : Binary64) : String :=
  if x.isNaN then ".nan" else if x.negative then "-.inf" else ".inf"

/--
The text of a plain scalar, if it stands for no null, truth value or number;
white space around these does not count.  A number that is not finite is a text:
its own name.
-/
def plainText? (text : String) : Option String :=
  let word := Text.trim text
  if isNullText text || booleanWords.contains (Text.asciiLower word) || isIntegerText word then none
  else
    match float? word with
    | some x => if x.isFinite then none else some (limitText x)
    | none => some text

def text? : Yaml → Option String
  | .scalar isPlain text => if isPlain then plainText? text else some text
  | _ => none

def patternTexts? : Yaml → Option PatternTexts
  | .sequence items => (items.mapM text?).map .many
  | y => y.text?.map .one

def severity? : Yaml → Option Severity
  | .mapping [(key, value)] => if value.isNull then key.string?.bind Severity.ofName? else none
  | y => y.string?.bind Severity.ofName?

def fields? : Yaml → Option (List (String × Yaml))
  | .mapping entries => entries.mapM fun (key, value) => key.string?.map (·, value)
  | _ => none

def optional {α : Type} (fields : List (String × Yaml)) (key : String)
    (read : Yaml → Option α) (default : α) : Option α :=
  match fields.lookup key with
  | some y => read y
  | none => some default

def ruleDefinition? (y : Yaml) : Option RuleDefinition := do
  let fields ← y.fields?
  let id ← (← fields.lookup "id").string?
  let pattern ← (← fields.lookup "pattern").patternTexts?
  let message ← (← fields.lookup "message").string?
  let severity ← optional fields "severity" severity? .warning
  let tags ← optional fields "tags" strings? []
  let justification ← optional fields "justification" strings? []
  let includes ← optional fields "include" strings? []
  let excludes ← optional fields "exclude" strings? []
  return ⟨id, pattern, message, severity, tags, justification, includes, excludes⟩

/-- A list of rule definitions; a plain null is the empty list. -/
def ruleDefinitions? (y : Yaml) : Option (List RuleDefinition) :=
  match y with
  | .sequence items => items.mapM ruleDefinition?
  | .scalar _ _ => if y.isNull then some [] else none
  | .mapping _ => none

/-- A rule file; a plain null is the empty one. -/
def ruleFile? (y : Yaml) : Option RuleFile :=
  if y.isNull then some ⟨[], []⟩
  else do
    let fields ← y.fields?
    let rules ← optional fields "rules" ruleDefinitions? []
    let excludes ← optional fields "exclude" strings? []
    return ⟨rules, excludes⟩

end Yaml

abbrev RuleFile.Decoder := String → Option RuleFile

def Yaml.decoder : RuleFile.Decoder := fun text =>
  (read? text).bind ruleFile?

end TreeLint
