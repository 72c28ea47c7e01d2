import TreeLint.ProjectRoot
import TreeLint.Rule.Filter
import TreeLint.Script

/-!
# Discovery of scripts

Input paths are turned into the files to scan: a file stands for itself, a
directory for the files beneath it, in order and without hidden ones.  What cannot
be listed is reported at its place among them.
-/

namespace TreeLint

def FileName.under (path : Option String) (name : FileName) : Option String :=
  path.bind fun path => name.text?.map (Path.join path)

/-- What a walk through a directory comes upon, with the path where that is text. -/
inductive Met where
  | file (path : Option String)
  | fault (path : Option String) (reason : String)
deriving DecidableEq, Repr

def ListingFault.met (path : Option String) (fault : ListingFault) : Met :=
  .fault (fault.name.bind (FileName.under path)) fault.reason

namespace FileEntry

mutual

/--
What a walk meets in an entry at a path.  A directory gives its faults before its entries,
hidden entries are passed over, and links are not followed.
-/
def meets (path : Option String) : FileEntry → List Met
  | .file _ => [.file path]
  | .link _ => []
  | .directory (.refused reason) _ => [.fault path reason]
  | .directory (.given faults) entries =>
      faults.map (ListingFault.met path) ++ meetsIn path entries

def meetsIn (path : Option String) : List (FileName × FileEntry) → List Met
  | [] => []
  | (name, e) :: rest =>
      (if name.isHidden then [] else meets (name.under path) e) ++ meetsIn path rest

end

end FileEntry

/-- A file to scan, or what could not be searched. -/
inductive Found where
  | file (path : String)
  | failed (path : String) (error : ScriptError)
deriving DecidableEq, Repr

def Found.file? : Found → Option String
  | .file path => some path
  | .failed _ _ => none

/-- Where to search and what to take; no languages means all of them. -/
structure Discovery where
  files : FileSystem
  root : ProjectRoot
  filter : PathFilter
  languages : List Language

namespace Discovery

def wants (d : Discovery) (language : Language) : Bool :=
  d.languages.isEmpty || d.languages.contains language

def admits (d : Discovery) (path : String) : Bool :=
  d.filter.admits (d.root.relative path)

/-- Is a file that was named as an input taken?  One of no language always is. -/
def takesNamed (d : Discovery) (path : String) : Bool :=
  (Language.ofPath? path).all d.wants && d.admits path

def takesMet (d : Discovery) (path : String) : Bool :=
  (Language.ofPath? path).any d.wants && d.admits path

/--
What is found where a walk from an input meets something.  A file whose path is no text is
left out, and a fault without a path that is text is reported for the input.
-/
def ofMet? (d : Discovery) (input : String) : Met → Option Found
  | .file (some path) => if d.takesMet path then some (.file path) else none
  | .file none => none
  | .fault path reason => some (.failed (path.getD input) (.unreadable reason))

/-- What is found at one input. -/
def findAt (d : Discovery) (input : String) : List Found :=
  match d.files.entry? input with
  | some (.file _) => if d.takesNamed input then [.file input] else []
  | some (.directory listing entries) =>
      ((FileEntry.directory listing entries).meets (some input)).filterMap (d.ofMet? input)
  | _ => [.failed input (.unreadable "no such file or directory")]

def find (d : Discovery) (inputs : List String) : List Found :=
  inputs.flatMap d.findAt

def paths (d : Discovery) (inputs : List String) : List String :=
  (d.find inputs).filterMap Found.file?

end Discovery

namespace Script

def load (files : FileSystem) (parser : SourceParser) (path : String) :
    Except ScriptError Script :=
  match languageOf path with
  | .error e => .error e
  | .ok language =>
      match files.readText path with
      | .error e => .error (.unreadable e.message)
      | .ok source => parseAs parser path language source

end Script

namespace Discovery

def outcome (d : Discovery) (parser : SourceParser) : Found → String × Except ScriptError Script
  | .file path => (path, Script.load d.files parser path)
  | .failed path e => (path, .error e)

def scripts (d : Discovery) (parser : SourceParser) (inputs : List String) :
    List (String × Except ScriptError Script) :=
  (d.find inputs).map (d.outcome parser)

end Discovery

end TreeLint
