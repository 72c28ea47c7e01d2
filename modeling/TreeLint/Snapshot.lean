import TreeLint.Concrete.Rows
import TreeLint.FileSystem
import TreeLint.Script

/-!
# Snapshots

A project as one JSON document: its files, and the concrete trees that a source
parser has built for them.  A snapshot stands in for the disk and the parser.
-/

namespace TreeLint

structure Snapshot where
  files : FileSystem
  trees : List ((Language × String) × Concrete)

namespace Snapshot

def empty (workingDirectory : List String) : Snapshot :=
  let place := workingDirectory.map FileName.ofText
  let top := (FileEntry.directory .whole []).insert (.directory .whole []) place
  ⟨{ top := top, workingDirectory := place }, []⟩

/-- Decode what is at a path: a text, raw bytes, a link or else a directory. -/
def entryOfJson? (j : Json) : Option FileEntry :=
  match j.get? "text", j.get? "bytes", j.get? "symlink" with
  | some text, _, _ => text.string?.map fun s => .file (.ok s.toUTF8)
  | none, some bytes, _ => do
      let bytes ← (← bytes.array?).mapM (Json.natBelow? 256)
      return .file (.ok ⟨(bytes.map UInt8.ofNat).toArray⟩)
  | none, none, some target => target.string?.map fun s => .link (Text.utf8 s)
  | none, none, none => some (.directory .whole [])

def treesOfJson? (path : String) (j : Json) : Option (List ((Language × String) × Concrete)) :=
  match j.get? "cst", (j.get? "text").bind Json.string?, Language.ofPath? path with
  | some tree, some text, some language => do
      return [((language, text), ← Concrete.ofJson? tree)]
  | _, _, _ => some []

def add? (s : Snapshot) (j : Json) : Option Snapshot := do
  let path ← (← j.get? "path").string?
  let entry ← entryOfJson? j
  let trees ← treesOfJson? path j
  return ⟨s.files.write path entry, trees ++ s.trees⟩

def ofJson? (workingDirectory : List String) (j : Json) : Option Snapshot := do
  (← j.array?).foldlM add? (empty workingDirectory)

def parser (s : Snapshot) : SourceParser := fun language source =>
  match s.trees.find? fun t => decide (t.1 = (language, source)) with
  | some t => .ok t.2
  | none => .error (.parse language "no concrete tree in the snapshot")

end Snapshot

end TreeLint
