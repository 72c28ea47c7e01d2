import Mathlib.Data.List.Induction
import TreeLint.Path

/-!
# Where a path leads

A path is a walk through names: an empty part and `.` stay, `..` goes up, and any
other part goes down to a name.  Folding the components of an absolute path gives
the names to which the walk from the root leads, and a path made of names has
these names as its components.
-/

namespace TreeLint

namespace Path

/-! ## Parts -/

theorem parts_append_slash (cs ds : List Char) :
    parts (cs ++ '/' :: ds) = parts cs ++ parts ds := by
  simp only [parts, Text.pieces_eq_splitOn, List.splitOn_append_cons_self]

theorem parts_of_not_mem {cs : List Char} (h : '/' ∉ cs) : parts cs = [cs] := by
  rw [parts, Text.pieces_eq_splitOn, List.splitOn_eq_singleton h]

theorem parts_ne_nil (cs : List Char) : parts cs ≠ [] :=
  Text.pieces_ne_nil '/' cs

theorem parts_of_isAbsolute {path : String} (h : isAbsolute path = true) :
    ∃ p ps, parts path.toList = [] :: p :: ps := by
  rw [isAbsolute, beq_iff_eq] at h
  obtain ⟨cs, hcs⟩ := List.head?_eq_some_iff.1 h
  obtain ⟨p, ps, hps⟩ := List.exists_cons_of_ne_nil (parts_ne_nil cs)
  refine ⟨p, ps, ?_⟩
  rw [hcs, ← hps]
  exact parts_append_slash [] cs

/-! ## Walks -/

def advance (here : List String) (part : List Char) : List String :=
  if part = [] ∨ part = ['.'] then here
  else if part = ['.', '.'] then here.dropLast
  else here ++ [String.ofList part]

def walk (here : List String) (parts : List (List Char)) : List String :=
  parts.foldl advance here

def stack (here : List String) : List Component :=
  (Component.root :: here.map .name).reverse

theorem foldStep_up (here : List String) : foldStep (stack here) .up = stack here.dropLast := by
  rcases List.eq_nil_or_concat here with rfl | ⟨front, name, rfl⟩
  · rfl
  · simp [stack, foldStep]

theorem foldStep_name (here : List String) (name : String) :
    foldStep (stack here) (.name name) = stack (here ++ [name]) := by
  simp [stack, foldStep]

/-- One part moves the stack as it moves the walk. -/
theorem foldl_component? (here : List String) (part : List Char) :
    (component? part).toList.foldl foldStep (stack here) = stack (advance here part) := by
  unfold component? advance
  by_cases hstay : part = [] ∨ part = ['.']
  · simp [hstay]
  · by_cases hup : part = ['.', '.']
    · simp [hup, foldStep_up]
    · simp [hstay, hup, foldStep_name]

theorem foldl_filterMap_component? (here : List String) (ps : List (List Char)) :
    (ps.filterMap component?).foldl foldStep (stack here) = stack (walk here ps) := by
  induction ps generalizing here with
  | nil => rfl
  | cons part ps ih =>
      have hstep := foldl_component? here part
      have hsplit : (part :: ps).filterMap component? =
          (component? part).toList ++ ps.filterMap component? := by
        cases hpart : component? part <;> simp [hpart]
      rw [hsplit, List.foldl_append, hstep, ih]
      rfl

theorem stack_injective {here there : List String} (h : stack here = stack there) :
    here = there := by
  have hnames := (List.cons.inj (List.reverse_inj.1 h)).2
  exact (List.map_inj_right fun _ _ hname => Component.name.inj hname).1 hnames

/-- The components of a path less its root and a `.` in first place. -/
def body (path : String) : List Component :=
  (parts path.toList).filterMap component?

theorem foldl_body (here : List String) (path : String) :
    (body path).foldl foldStep (stack here) = stack (walk here (parts path.toList)) :=
  foldl_filterMap_component? here (parts path.toList)

theorem components_of_isAbsolute {path : String} (h : isAbsolute path = true) :
    components path = .root :: body path := by
  obtain ⟨p, ps, hparts⟩ := parts_of_isAbsolute h
  simp only [components, hparts, body]

/-- An absolute path folds to the names of its walk. -/
theorem fold_components {path : String} (h : isAbsolute path = true) :
    fold (components path) = .root :: (walk [] (parts path.toList)).map .name := by
  rw [fold, components_of_isAbsolute h, List.foldl_cons]
  show ((body path).foldl foldStep (stack [])).reverse = _
  rw [foldl_body, stack, List.reverse_reverse]

/-! ## Joined paths -/

theorem isAbsolute_join_of_relative {child : String} (hchild : isAbsolute child = false)
    (base : String) : isAbsolute (join base child) = isAbsolute base := by
  simp only [join, hchild, Bool.false_eq_true, if_false]
  cases hbase : base.toList with
  | nil =>
      have hempty : base = "" := String.toList_eq_nil_iff.1 hbase
      subst hempty
      have hnil : isAbsolute "" = false := rfl
      simpa [hnil] using hchild
  | cons c cs => split <;> simp [isAbsolute, hbase]

theorem isAbsolute_join {base : String} (h : isAbsolute base = true) (child : String) :
    isAbsolute (join base child) = true := by
  by_cases hchild : isAbsolute child = true
  · rw [join, if_pos hchild, hchild]
  · rw [isAbsolute_join_of_relative (by simpa using hchild), h]

theorem isAbsolute_ofComponents (cs : List Component) :
    isAbsolute (ofComponents (.root :: cs)) = true := by
  have hfold : ∀ (cs : List Component) (path : String), isAbsolute path = true →
      isAbsolute (cs.foldl (fun path c => join path c.text) path) = true := by
    intro cs
    induction cs with
    | nil => exact fun _ h => h
    | cons c cs ih => exact fun path h => ih _ (isAbsolute_join h c.text)
  exact hfold cs "/" (by decide +kernel)

/-- A base that does not end with a slash is divided from the child by one. -/
theorem parts_join {base child : String} (hchild : isAbsolute child = false)
    (hempty : base.isEmpty = false) (hslash : ¬ base.toList.getLast? = some '/') :
    parts (join base child).toList = parts base.toList ++ parts child.toList := by
  simp only [join, hchild, hempty, Bool.false_eq_true, if_false, Bool.false_or, beq_iff_eq,
    if_neg hslash]
  rw [String.toList_append, String.toList_append, List.append_assoc]
  exact parts_append_slash _ _

/-- The components of a relative child come behind those of the base. -/
theorem body_join {child : String} (hchild : isAbsolute child = false) (base : String) :
    body (join base child) = body base ++ body child := by
  by_cases hempty : base.isEmpty = true
  · have hjoin : join base child = child := by
      rw [String.isEmpty_iff.1 hempty]
      simp [join, hchild]
    rw [hjoin, String.isEmpty_iff.1 hempty]
    rfl
  · by_cases hslash : base.toList.getLast? = some '/'
    · -- The last part of the base is empty and does not count.
      obtain ⟨front, hfront⟩ := List.getLast?_eq_some_iff.1 hslash
      have hbase : parts base.toList = parts front ++ [[]] := by
        rw [hfront, parts_append_slash]
        rfl
      have hjoin : (join base child).toList = front ++ '/' :: child.toList := by
        simp [join, hchild, hfront]
      simp only [body, hbase, hjoin, parts_append_slash, List.filterMap_append]
      rw [List.append_assoc]
      rfl
    · rw [body, parts_join hchild (by simpa using hempty) hslash, List.filterMap_append]
      rfl

/-- A joined path leads where the child leads from the base. -/
theorem walk_parts_join (base child : String) :
    walk [] (parts (join base child).toList) =
      walk (if isAbsolute child then [] else walk [] (parts base.toList)) (parts child.toList) := by
  by_cases hchild : isAbsolute child = true
  · rw [join, if_pos hchild, if_pos hchild]
  · rw [if_neg hchild]
    apply stack_injective
    rw [← foldl_body, ← foldl_body, ← foldl_body, body_join (by simpa using hchild),
      List.foldl_append]

/-! ## Names -/

/-- A part of a path that goes down. -/
structure IsName (name : String) : Prop where
  ne_nil : name.toList ≠ []
  ne_here : name.toList ≠ ['.']
  ne_up : name.toList ≠ ['.', '.']
  no_slash : '/' ∉ name.toList

namespace IsName

variable {name : String}

instance (name : String) : Decidable (IsName name) :=
  decidable_of_iff
    (name.toList ≠ [] ∧ name.toList ≠ ['.'] ∧ name.toList ≠ ['.', '.'] ∧ '/' ∉ name.toList)
    ⟨fun h => ⟨h.1, h.2.1, h.2.2.1, h.2.2.2⟩, fun h => ⟨h.ne_nil, h.ne_here, h.ne_up, h.no_slash⟩⟩

theorem isAbsolute (h : IsName name) : Path.isAbsolute name = false := by
  rw [Path.isAbsolute, beq_eq_false_iff_ne]
  intro hslash
  exact h.no_slash (List.mem_of_mem_head? hslash)

theorem parts (h : IsName name) : Path.parts name.toList = [name.toList] :=
  parts_of_not_mem h.no_slash

theorem advance (h : IsName name) (here : List String) :
    Path.advance here name.toList = here ++ [name] := by
  simp [Path.advance, h.ne_nil, h.ne_here, h.ne_up]

theorem component? (h : IsName name) : Path.component? name.toList = some (.name name) := by
  simp [Path.component?, h.ne_nil, h.ne_here, h.ne_up]

end IsName

theorem isName_advance {here : List String} (hhere : ∀ name ∈ here, IsName name)
    {part : List Char} (hpart : '/' ∉ part) : ∀ name ∈ advance here part, IsName name := by
  unfold advance
  intro name hname
  split at hname
  · exact hhere name hname
  · rename_i hstay
    rw [not_or] at hstay
    split at hname
    · exact hhere name ((List.dropLast_sublist here).subset hname)
    · rename_i hup
      rcases List.mem_append.1 hname with hmem | hmem
      · exact hhere name hmem
      · rw [List.mem_singleton] at hmem
        subst hmem
        refine ⟨?_, ?_, ?_, ?_⟩
        · simpa using hstay.1
        · simpa using hstay.2
        · simpa using hup
        · simpa using hpart

theorem isName_walk (ps : List (List Char)) (hps : ∀ part ∈ ps, '/' ∉ part) {here : List String}
    (hhere : ∀ name ∈ here, IsName name) : ∀ name ∈ walk here ps, IsName name := by
  induction ps generalizing here with
  | nil => exact hhere
  | cons part ps ih =>
      apply ih fun q hq => hps q (List.mem_cons_of_mem part hq)
      exact isName_advance hhere (hps part List.mem_cons_self)

theorem ofComponents_concat (cs : List Component) (c : Component) :
    ofComponents (cs ++ [c]) = join (ofComponents cs) c.text := by
  simp only [ofComponents, List.foldl_append, List.foldl_cons, List.foldl_nil]

/-- The path of names from the root leads to them. -/
theorem walk_parts_ofComponents {names : List String} (h : ∀ name ∈ names, IsName name) :
    walk [] (parts (ofComponents (.root :: names.map .name)).toList) = names := by
  induction names using List.reverseRecOn with
  | nil => rfl
  | append_singleton names name ih =>
      have hname := h name (by simp)
      have hnames := ih fun n hn => h n (List.mem_append_left [name] hn)
      have htext : ofComponents (.root :: (names ++ [name]).map .name) =
          join (ofComponents (.root :: names.map .name)) name := by
        rw [List.map_append, ← List.cons_append]
        exact ofComponents_concat _ _
      rw [htext, walk_parts_join, if_neg (by simp [hname.isAbsolute]), hnames, hname.parts]
      exact hname.advance names

/-! ## Printed components -/

inductive Component.IsPart : Component → Prop where
  | up : IsPart .up
  | name {text : String} (h : IsName text) : IsPart (.name text)

namespace Component.IsPart

variable {c : Component}

theorem no_slash (h : c.IsPart) : '/' ∉ c.text.toList := by
  cases h with
  | up => simp [Component.text]
  | name h => exact h.no_slash

theorem component? (h : c.IsPart) : Path.component? c.text.toList = some c := by
  cases h with
  | up => simp [Component.text, Path.component?]
  | name h => exact h.component?

theorem text_ne (h : c.IsPart) : c.text.toList ≠ [] ∧ c.text.toList ≠ ['.'] := by
  have hread := h.component?
  constructor
  all_goals
    intro htext
    rw [htext] at hread
    cases hread

theorem isAbsolute (h : c.IsPart) : Path.isAbsolute c.text = false := by
  rw [Path.isAbsolute, beq_eq_false_iff_ne]
  intro hslash
  exact h.no_slash (List.mem_of_mem_head? hslash)

end Component.IsPart

theorem isPart_of_mem_names {names : List String} (h : ∀ name ∈ names, IsName name) :
    ∀ c ∈ names.map Component.name, c.IsPart := by
  intro c hc
  obtain ⟨name, hname, rfl⟩ := List.mem_map.1 hc
  exact .name (h name hname)

section Printed

variable {cs : List Component}

/-- The parts of a printed path are the texts of its components. -/
theorem parts_of_isPart (hne : cs ≠ []) (h : ∀ c ∈ cs, c.IsPart) :
    parts (ofComponents cs).toList = cs.map fun c => c.text.toList := by
  induction cs using List.reverseRecOn with
  | nil => exact absurd rfl hne
  | append_singleton cs c ih =>
      have hc := h c (by simp)
      have hparts := parts_of_not_mem hc.no_slash
      rw [ofComponents_concat]
      by_cases hnil : cs = []
      · subst hnil
        have hjoin : join (ofComponents []) c.text = c.text := by
          simp [join, hc.isAbsolute, ofComponents]
        rw [hjoin, hparts]
        rfl
      · have hcs : ∀ d ∈ cs, d.IsPart := fun d hd => h d (List.mem_append_left [c] hd)
        have hfront := ih hnil hcs
        have hfull : [] ∉ parts (ofComponents cs).toList := by
          rw [hfront, List.mem_map]
          rintro ⟨d, hd, hempty⟩
          exact (hcs d hd).text_ne.1 hempty
        have hempty : (ofComponents cs).isEmpty = false := by
          rw [Bool.eq_false_iff]
          intro hempty
          rw [String.isEmpty_iff.1 hempty] at hfull
          exact hfull List.mem_cons_self
        have hslash : ¬ (ofComponents cs).toList.getLast? = some '/' := by
          intro hslash
          obtain ⟨front, hsplit⟩ := List.getLast?_eq_some_iff.1 hslash
          rw [hsplit, parts_append_slash] at hfull
          exact hfull (List.mem_append_right _ List.mem_cons_self)
        rw [parts_join hc.isAbsolute hempty hslash, hfront, hparts, List.map_append]
        rfl

theorem filterMap_component? (h : ∀ c ∈ cs, c.IsPart) :
    (cs.map fun c => c.text.toList).filterMap component? = cs := by
  induction cs with
  | nil => rfl
  | cons c cs ih =>
      have hc := (h c List.mem_cons_self).component?
      rw [List.map_cons, List.filterMap_cons_some hc,
        ih fun d hd => h d (List.mem_cons_of_mem c hd)]

/-- Components that stand between slashes are read back from the path that they make. -/
theorem components_of_isPart (h : ∀ c ∈ cs, c.IsPart) : components (ofComponents cs) = cs := by
  cases cs with
  | nil => rfl
  | cons c cs =>
      have hc := (h c List.mem_cons_self).text_ne
      have hparts := parts_of_isPart (List.cons_ne_nil c cs) h
      have hbody := filterMap_component? h
      simp only [components, hparts, hbody]
      split
      · rename_i hfirst
        exact absurd (List.cons.inj hfirst).1 hc.1
      · rename_i hfirst
        exact absurd (List.cons.inj hfirst).1 hc.2
      · rfl

/-- Printed components stand between single slashes. -/
theorem toList_of_isPart (h : ∀ c ∈ cs, c.IsPart) :
    (ofComponents cs).toList = ['/'].intercalate (cs.map fun c => c.text.toList) := by
  by_cases hne : cs = []
  · subst hne
    rfl
  · have hparts := parts_of_isPart hne h
    rw [parts, Text.pieces_eq_splitOn] at hparts
    rw [← hparts, List.intercalate_splitOn]

end Printed

section PrintedNames

variable {names : List String}

theorem map_text_names (names : List String) :
    ((names.map Component.name).map fun c => c.text.toList) = names.map String.toList := by
  rw [List.map_map]
  rfl

/-- The parts of a path made of names are the names. -/
theorem parts_ofComponents (hne : names ≠ []) (h : ∀ name ∈ names, IsName name) :
    parts (ofComponents (names.map .name)).toList = names.map String.toList := by
  rw [parts_of_isPart (by simpa using hne) (isPart_of_mem_names h), map_text_names]

/-- Names are read back from the path that they make. -/
theorem components_ofComponents (h : ∀ name ∈ names, IsName name) :
    components (ofComponents (names.map .name)) = names.map .name :=
  components_of_isPart (isPart_of_mem_names h)

/-- Names in a path stand between single slashes. -/
theorem toList_ofComponents (h : ∀ name ∈ names, IsName name) :
    (ofComponents (names.map .name)).toList = ['/'].intercalate (names.map String.toList) := by
  rw [toList_of_isPart (isPart_of_mem_names h), map_text_names]

end PrintedNames

end Path

end TreeLint
