import TreeLint.FileSystem

/-!
# Project roots

Globs are written against paths relative to a project root.  Root and paths are
resolved before they are compared, so that every spelling of a place gives the
same relative path.  A path that cannot be resolved stays as it is.
-/

namespace TreeLint

namespace FileSystem

/--
The names of the place that a path denotes, with all links followed.  They have to be text,
and a path from the working directory needs the system to know that.
-/
def canonical? (fs : FileSystem) (path : String) : Option (List String) :=
  if Path.isAbsolute path || fs.placeKnown then
    (fs.locate? path).bind (·.mapM FileName.text?)
  else none

/-- The components of the place that a path spells from the root or the working directory. -/
def normalized? (fs : FileSystem) (path : String) : Option (List Path.Component) :=
  if Path.isAbsolute path then some (Path.components (Path.normalize path))
  else
    fs.workingPath?.map fun working => Path.components (Path.normalize (Path.join working path))

/-- The components of the place that a path denotes, or else of the place that it spells. -/
def resolve (fs : FileSystem) (path : String) : Option (List Path.Component) :=
  match fs.canonical? path with
  | some names => some (.root :: names.map .name)
  | none => fs.normalized? path

end FileSystem

/-- The directory that globs are written against. -/
structure ProjectRoot where
  files : FileSystem
  base : Option (List Path.Component)

namespace ProjectRoot

def ofPath (fs : FileSystem) (path : String) : ProjectRoot :=
  ⟨fs, fs.resolve path⟩

/-- The path relative to the root, or as it was given if it lies elsewhere or cannot be told. -/
def relative (root : ProjectRoot) (path : String) : String :=
  match root.base, root.files.resolve path with
  | some base, some place =>
      match Path.stripBase? base place with
      | some rest => Path.ofComponents rest
      | none => path
  | _, _ => path

end ProjectRoot

end TreeLint
