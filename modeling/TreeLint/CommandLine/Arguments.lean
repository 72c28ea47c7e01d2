import TreeLint.CommandLine.Setting

/-!
# Reading the arguments

Options may stand before the command and behind it.  The value of an option is
checked when the next option or operand begins, so a fault in between is
reported first.
-/

namespace TreeLint

namespace CommandLine

/-- Why no command is run: help is shown, because it was asked for or not, or an error is. -/
inductive Stop where
  | help (isAsked : Bool)
  | usage (error : UsageError)
deriving DecidableEq, Repr

/-- An option whose value is still to come, or to be checked. -/
structure Pending where
  setting : Setting
  value : Option String
deriving DecidableEq, Repr

/-- What was read so far of the arguments before or behind the command. -/
structure Progress where
  values : Values := {}
  pending : Option Pending := none
  /-- Set behind `--`, where every argument is an operand. -/
  isLiteral : Bool := false
deriving DecidableEq, Repr

inductive Shape where
  | divider
  | long (name : String) (value : Option String)
  | short (letter : Char)
  | plain
deriving DecidableEq, Repr

def Shape.ofText (text : String) : Shape :=
  match text.toList with
  | ['-', '-'] => .divider
  | '-' :: '-' :: rest =>
      let name := String.ofList (rest.takeWhile (· != '='))
      match rest.dropWhile (· != '=') with
      | [] => .long name none
      | _ :: value => .long name (some (String.ofList value))
  | '-' :: c :: _ => .short c
  | _ => .plain

namespace Progress

def settle (p : Progress) : Except UsageError Progress :=
  match p.pending with
  | none => .ok p
  | some ⟨setting, none⟩ => .error (.missingValue setting)
  | some ⟨setting, some value⟩ =>
      (p.values.set setting value).map fun vs => { p with values := vs, pending := none }

def waiting? (p : Progress) : Option Setting :=
  match p.pending with
  | some ⟨setting, none⟩ => some setting
  | _ => none

def addSetting (p : Progress) (setting : Setting) (value : Option String) :
    Except UsageError Progress :=
  match p.settle with
  | .error e => .error e
  | .ok p =>
      match value with
      | some v => (p.values.set setting v).map fun vs => { p with values := vs }
      | none => .ok { p with pending := some ⟨setting, none⟩ }

def addOperand (p : Progress) (text : String) : Except UsageError Progress :=
  p.settle.map fun p =>
    { p with values := { p.values with operands := p.values.operands ++ [text] } }

end Progress

/-- Is the option known in front of all commands (`none`) or behind the given one? -/
def isKnown (verb : Option Verb) (setting : Setting) : Bool :=
  setting.isGlobal || verb = some .check

/-- The outcome of help asked for; an option that lacks its value comes first. -/
def helpStop (p : Progress) : Stop :=
  match p.settle with
  | .error e => .usage e
  | .ok _ => .help true

def readLong (verb : Option Verb) (p : Progress) (name : String) (value : Option String) :
    Except Stop Progress :=
  if name = "help" then
    match value with
    | some v => .error (.usage (.unexpectedValue "--help" v))
    | none => .error (helpStop p)
  else
    match Setting.all.find? fun s => s.name == name && isKnown verb s with
    | some s => (p.addSetting s value).mapError .usage
    | none => .error (.usage (.unexpectedArgument ("--" ++ name)))

def readShort (p : Progress) (letter : Char) : Except Stop Progress :=
  if letter = 'h' then .error (helpStop p)
  else .error (.usage (.unexpectedArgument (String.ofList ['-', letter])))

/-- Read an argument that is neither option nor flag, unless it is the value of an option. -/
def readOperand (verb : Option Verb) (p : Progress) (text : String) : Except Stop Progress :=
  match verb with
  | some v =>
      if v.takesOperands then (p.addOperand text).mapError .usage
      else .error (.usage (.unexpectedArgument text))
  | none =>
      if p.isLiteral && (Verb.ofName? text).isSome then
        .error (.usage (.unexpectedArgument text))
      else .error (.usage (.unknownCommand text))

def readArgument (verb : Option Verb) (p : Progress) (text : String) : Except Stop Progress :=
  if p.isLiteral then readOperand verb p text
  else
    match Shape.ofText text with
    | .divider => .ok { p with isLiteral := true }
    | .long name value => readLong verb p name value
    | .short letter => readShort p letter
    | .plain =>
        match p.waiting? with
        | some setting => .ok { p with pending := some ⟨setting, some text⟩ }
        | none => readOperand verb p text

def readInner (verb : Verb) (p : Progress) : List String → Except Stop Values
  | [] => (p.settle.map Progress.values).mapError .usage
  | text :: rest =>
      match readArgument (some verb) p text with
      | .error stop => .error stop
      | .ok p => readInner verb p rest

def verbAt? (p : Progress) (text : String) : Option Verb :=
  if p.isLiteral || p.waiting?.isSome then none else Verb.ofName? text

/--
Read all arguments: the command, and its values.  Without a command the user is
shown help, or told that it is missing if `isGiven` or an option was used.
-/
def readOuter (isGiven : Bool) (p : Progress) : List String → Except Stop (Verb × Values)
  | [] =>
      match p.settle with
      | .error e => .error (.usage e)
      | .ok p =>
          if isGiven || !p.values.isEmpty then .error (.usage .missingCommand)
          else .error (.help false)
  | text :: rest =>
      match verbAt? p text with
      | some verb =>
          match readInner verb {} rest with
          | .error stop => .error stop
          | .ok inner =>
              match p.settle with
              | .error e => .error (.usage e)
              | .ok p => .ok (verb, inner.withOuter p.values)
      | none =>
          match readArgument none p text with
          | .error stop => .error stop
          | .ok p => readOuter isGiven p rest

end CommandLine

end TreeLint
