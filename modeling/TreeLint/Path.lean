import TreeLint.Text.Pieces

/-!
# Paths

A path is a text, and is shown as it was given.  What it denotes is its list of
components: repeated slashes and inner `.` parts do not count.
-/

namespace TreeLint

namespace Path

/-- A component of a path; `root` and `here` occur only in first place. -/
inductive Component where
  | root
  | here
  | up
  | name (text : String)
deriving DecidableEq, Repr

def parts (path : List Char) : List (List Char) :=
  Text.pieces '/' path

/-- The component of a part between slashes, unless it does not count. -/
def component? (part : List Char) : Option Component :=
  if part = [] || part = ['.'] then none
  else if part = ['.', '.'] then some .up
  else some (.name (String.ofList part))

def components (path : String) : List Component :=
  let ps := parts path.toList
  let body := ps.filterMap component?
  match ps with
  | [] :: _ :: _ => .root :: body
  | ['.'] :: _ => .here :: body
  | _ => body

def isAbsolute (path : String) : Bool :=
  path.toList.head? == some '/'

/-- The path of `child` seen from `base`; an absolute one stands for itself. -/
def join (base child : String) : String :=
  if isAbsolute child then child
  else if base.isEmpty || base.toList.getLast? == some '/' then base ++ child
  else base ++ "/" ++ child

def Component.text : Component → String
  | .root => "/"
  | .here => "."
  | .up => ".."
  | .name s => s

def ofComponents (cs : List Component) : String :=
  cs.foldl (fun path c => join path c.text) ""

def fileName? (path : String) : Option String :=
  match (components path).getLast? with
  | some (.name s) => some s
  | _ => none

/-- What stands behind the last point of a name, unless that point comes first. -/
def behindLast? {α : Type} [DecidableEq α] (point : α) (name : List α) : Option (List α) :=
  let reversed := name.reverse
  match reversed.dropWhile (· ≠ point) with
  | [] => none
  | [_] => none
  | _ => some (reversed.takeWhile (· ≠ point)).reverse

def nameExtension? (name : String) : Option String :=
  (behindLast? '.' name.toList).map String.ofList

def extension? (path : String) : Option String :=
  (fileName? path).bind nameExtension?

def foldStep (folded : List Component) : Component → List Component
  | .here => folded
  | .up =>
      match folded with
      | .name _ :: rest => rest
      | .root :: _ => folded
      | _ => .up :: folded
  | c => c :: folded

/-- The components without `.`, and without `..` where it cancels a name or stands at the root. -/
def fold (cs : List Component) : List Component :=
  (cs.foldl foldStep []).reverse

/-- The path to the same place without any `.` or `..` that can be left out. -/
def normalize (path : String) : String :=
  ofComponents (fold (components path))

def stripBase? : List Component → List Component → Option (List Component)
  | [], cs => some cs
  | _ :: _, [] => none
  | b :: bs, c :: cs => if b = c then stripBase? bs cs else none

/-- The path without its last component, unless there is none to remove. -/
def parent? (path : String) : Option String :=
  let cs := components path
  match cs.getLast? with
  | none => none
  | some .root => none
  | some _ => some (ofComponents cs.dropLast)

end Path

end TreeLint
