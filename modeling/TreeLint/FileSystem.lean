import TreeLint.FileName
import TreeLint.Path

/-!
# File systems

A file system is a value: a tree of files, directories and symbolic links, and
a working directory.  Looking a path up follows the links on it.  Files and directories
may refuse to be read.
-/

namespace TreeLint

/-- What could not be listed: the name, where the system gives one, and its reason. -/
structure ListingFault where
  name : Option FileName
  reason : String
deriving DecidableEq, Repr

/-- How a directory answers when it is listed. -/
inductive Listing where
  | refused (reason : String)
  /-- The faults come before the entries. -/
  | given (faults : List ListingFault)
deriving DecidableEq, Repr

def Listing.whole : Listing :=
  .given []

/--
What a name in a directory stands for.  A file has a content or a reason why it cannot be
read, and a directory has its names in increasing order.
-/
inductive FileEntry where
  | file (content : Except String ByteArray)
  | directory (listing : Listing) (entries : List (FileName × FileEntry))
  | link (target : List UInt8)
deriving Inhabited

namespace FileEntry

def entries : FileEntry → List (FileName × FileEntry)
  | .directory _ es => es
  | _ => []

def listing : FileEntry → Listing
  | .directory listing _ => listing
  | _ => .whole

def isDirectory : FileEntry → Bool
  | .directory _ _ => true
  | _ => false

def isFile : FileEntry → Bool
  | .file _ => true
  | _ => false

/-- What stands at the end of a chain of names; links are not followed. -/
def at? (e : FileEntry) : List FileName → Option FileEntry
  | [] => some e
  | name :: rest =>
      match e.entries.lookup name with
      | some child => child.at? rest
      | none => none

def insertOrdered (name : FileName) (e : FileEntry) :
    List (FileName × FileEntry) → List (FileName × FileEntry)
  | [] => [(name, e)]
  | (n, x) :: rest =>
      if n = name then (name, e) :: rest
      else if name.before n then (name, e) :: (n, x) :: rest
      else (n, x) :: insertOrdered name e rest

/-- Put an entry at the end of a chain of names, making directories on the way. -/
def insert (e : FileEntry) (new : FileEntry) : List FileName → FileEntry
  | [] => new
  | name :: rest =>
      let child := (e.entries.lookup name).getD (.directory .whole [])
      .directory e.listing (insertOrdered name (child.insert new rest) e.entries)

end FileEntry

/-- A tree of files and the working directory, given by the names on its way from the top. -/
structure FileSystem where
  top : FileEntry
  workingDirectory : List FileName
  /-- Can the system tell where the working directory is?  It cannot once that is removed. -/
  placeKnown : Bool := true

inductive ReadError where
  | missing
  | refused (reason : String)
  | notText
deriving DecidableEq, Repr

def ReadError.message : ReadError → String
  | .missing => "No such file or directory (os error 2)"
  | .refused reason => reason
  | .notText => "stream did not contain valid UTF-8"

namespace FileSystem

def linkLimit : Nat :=
  40

/--
Follow the parts of a path from the directory `here`.  Every part, an empty one
included, needs a directory to be looked up in.
-/
def follow (top : FileEntry) (links : Nat) (here parts : List FileName) :
    Option (List FileName) :=
  match parts with
  | [] => some here
  | part :: rest =>
      match top.at? here with
      | some (.directory _ entries) =>
          if part.stays then follow top links here rest
          else if part.goesUp then follow top links here.dropLast rest
          else
            match entries.lookup part, links with
            | none, _ => none
            | some (.link _), 0 => none
            | some (.link target), links + 1 =>
                if target.isEmpty then none
                else
                  let start := if target.head? = some FileName.slash then [] else here
                  follow top links start (FileName.parts target ++ rest)
            | some _, links => follow top links (here ++ [part]) rest
      | _ => none
termination_by (links, parts.length)

def start (fs : FileSystem) (path : String) : List FileName :=
  if Path.isAbsolute path then [] else fs.workingDirectory

def locate? (fs : FileSystem) (path : String) : Option (List FileName) :=
  if path.isEmpty then none
  else follow fs.top linkLimit (fs.start path) (FileName.parts (Text.utf8 path))

def entry? (fs : FileSystem) (path : String) : Option FileEntry :=
  (fs.locate? path).bind fs.top.at?

def isFile (fs : FileSystem) (path : String) : Bool :=
  (fs.entry? path).any FileEntry.isFile

def isDirectory (fs : FileSystem) (path : String) : Bool :=
  (fs.entry? path).any FileEntry.isDirectory

def readText (fs : FileSystem) (path : String) : Except ReadError String :=
  match fs.entry? path with
  | some (.file (.error reason)) => .error (.refused reason)
  | some (.file (.ok content)) =>
      match String.fromUTF8? content with
      | some text => .ok text
      | none => .error .notText
  | _ => .error .missing

def workingPath? (fs : FileSystem) : Option String :=
  if fs.placeKnown then
    (fs.workingDirectory.mapM FileName.text?).map fun names =>
      Path.ofComponents (.root :: names.map .name)
  else none

/--
Follow the parts of a path from the directory `here` to where something would be
written.  Links are followed; a name that is not there yet stands for itself.
-/
def followNew (top : FileEntry) (links : Nat) (here parts : List FileName) : List FileName :=
  match parts with
  | [] => here
  | part :: rest =>
      if part.stays then followNew top links here rest
      else if part.goesUp then followNew top links here.dropLast rest
      else
        let there := here ++ [part]
        match top.at? there, links with
        | some (.link target), links + 1 =>
            let start := if target.head? = some FileName.slash then [] else here
            followNew top links start (FileName.parts target ++ rest)
        | _, links => followNew top links there rest
termination_by (links, parts.length)

/-- The names on the way to where the first parts of a path would be written. -/
def destination (fs : FileSystem) (path : String) (count : Nat) : List FileName :=
  followNew fs.top linkLimit (fs.start path) ((FileName.parts (Text.utf8 path)).take count)

/-- Put a file, directory or link where the first parts of a path lead. -/
def put (fs : FileSystem) (path : String) (count : Nat) (e : FileEntry) : FileSystem :=
  { fs with top := fs.top.insert e (fs.destination path count) }

def makeParents (fs : FileSystem) (path : String) : FileSystem :=
  let count := (FileName.parts (Text.utf8 path)).length
  (List.range count).foldl (fun fs n =>
    if (fs.top.at? (fs.destination path n)).isSome then fs
    else fs.put path n (.directory .whole [])) fs

/-- Put a file, directory or link at a path, making directories on the way. -/
def write (fs : FileSystem) (path : String) (e : FileEntry) : FileSystem :=
  if e.isDirectory && fs.isDirectory path then fs
  else (fs.makeParents path).put path (FileName.parts (Text.utf8 path)).length e

end FileSystem

end TreeLint
