import TreeLint.Discovery

/-!
# Filtered discovery

Languages and path filters only leave files out: a discovery finds what it would find
without them, less the files that they refuse, in the same order.
-/

namespace TreeLint

namespace Discovery

def unrestricted (d : Discovery) : Discovery :=
  { d with filter := .all, languages := [] }

/-- Is something that was found kept?  Failures always are, and so are files of no language. -/
def keeps (d : Discovery) : Found → Bool
  | .file path => (Language.ofPath? path).all d.wants && d.admits path
  | .failed _ _ => true

variable (d : Discovery) (path : String)

theorem wants_unrestricted (language : Language) : d.unrestricted.wants language = true :=
  rfl

theorem admits_unrestricted : d.unrestricted.admits path = true :=
  rfl

theorem takesNamed_unrestricted : d.unrestricted.takesNamed path = true := by
  rw [takesNamed, admits_unrestricted, Bool.and_true]
  cases Language.ofPath? path with
  | none => rfl
  | some language => exact d.wants_unrestricted language

/-- A file of no language is met in vain, with restrictions and without. -/
theorem takesMet_eq : d.takesMet path = (d.unrestricted.takesMet path && d.keeps (.file path)) := by
  rw [takesMet, takesMet, admits_unrestricted, Bool.and_true, keeps]
  cases Language.ofPath? path with
  | none => rfl
  | some language =>
      simp only [Option.any_some, Option.all_some, wants_unrestricted, Bool.true_and]

/-- Only files that were met are left out; a fault is found in any case. -/
theorem ofMet?_eq_filter (input : String) (m : Met) :
    d.ofMet? input m = (d.unrestricted.ofMet? input m).filter d.keeps := by
  cases m with
  | fault path reason => rfl
  | file path =>
      cases path with
      | none => rfl
      | some path =>
          rw [ofMet?, ofMet?, takesMet_eq]
          cases d.unrestricted.takesMet path <;> cases hkeeps : d.keeps (.file path) <;>
            simp [Option.filter, hkeeps]

theorem findAt_eq_filter (input : String) :
    d.findAt input = (d.unrestricted.findAt input).filter d.keeps := by
  have hfiles : d.unrestricted.files = d.files := rfl
  simp only [findAt, hfiles]
  cases d.files.entry? input with
  | none => rfl
  | some e =>
      cases e with
      | file content =>
          have hkeeps : d.takesNamed input = d.keeps (.file input) := rfl
          simp only [takesNamed_unrestricted, if_true, hkeeps, List.filter_cons, List.filter_nil]
      | directory listing entries =>
          simp only [List.filter_filterMap]
          congr 1
          funext m
          exact d.ofMet?_eq_filter input m
      | link target => rfl

/-- Languages and filter leave files out, and nothing else changes. -/
theorem find_eq_filter (inputs : List String) :
    d.find inputs = (d.unrestricted.find inputs).filter d.keeps := by
  rw [find, find, List.filter_flatMap]
  congr 1
  funext input
  exact d.findAt_eq_filter input

end Discovery

theorem Script.path_of_ofConcrete {path source : String} {language : Language} {tree : Concrete}
    {script : Script} (h : Script.ofConcrete path language source tree = .ok script) :
    script.path = path := by
  unfold Script.ofConcrete at h
  split at h
  · split at h
    · cases h
      rfl
    · cases h
  · cases h
    rfl

/-- A script is loaded under the path that was asked for. -/
theorem Script.path_of_load {files : FileSystem} {parser : SourceParser} {path : String}
    {script : Script} (h : Script.load files parser path = .ok script) : script.path = path := by
  unfold Script.load at h
  split at h
  · cases h
  · split at h
    · cases h
    · unfold Script.parseAs at h
      split at h
      · cases h
      · exact Script.path_of_ofConcrete h

namespace Discovery

def allPaths (d : Discovery) : Discovery :=
  { d with filter := .all }

theorem keeps_file (d : Discovery) (path : String) :
    d.keeps (.file path) = (d.allPaths.keeps (.file path) && d.admits path) := by
  have hall : d.allPaths.admits path = true := rfl
  rw [keeps, keeps, hall, Bool.and_true]
  rfl

/-- The path filter refuses a file exactly when it does not admit the script in it. -/
theorem keeps_loaded (d : Discovery) (parser : SourceParser) (found : Found) :
    (if d.keeps found then (d.outcome parser found).2.toOption else none) =
      if d.allPaths.keeps found then
        (d.allPaths.outcome parser found).2.toOption.filter fun script => d.admits script.path
      else none := by
  cases found with
  | failed path e => rfl
  | file path =>
      have hfiles : d.allPaths.files = d.files := rfl
      rw [keeps_file, outcome, outcome, hfiles]
      cases hload : Script.load d.files parser path with
      | error e => simp [Except.toOption]
      | ok script =>
          have hpath := Script.path_of_load hload
          cases hkeeps : d.allPaths.keeps (.file path) <;> cases hadmits : d.admits path <;>
            simp [Except.toOption, Option.filter, hpath, hadmits]

/-- The scripts that are loaded are those that the path filter admits, of all that could be. -/
theorem scripts_eq_filter (d : Discovery) (parser : SourceParser) (inputs : List String) :
    (d.scripts parser inputs).filterMap (·.2.toOption) =
      ((d.allPaths.scripts parser inputs).filterMap (·.2.toOption)).filter
        fun script => d.admits script.path := by
  have hbase : d.allPaths.unrestricted = d.unrestricted := rfl
  rw [scripts, scripts, d.find_eq_filter, d.allPaths.find_eq_filter, hbase,
    List.filterMap_map, List.filterMap_map, List.filterMap_filter, List.filterMap_filter,
    List.filter_filterMap]
  congr 1
  funext found
  rw [Function.comp_apply, keeps_loaded]
  split <;> rfl

end Discovery

end TreeLint
