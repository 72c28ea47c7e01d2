import TreeLint.Proofs.Path.Folding

/-!
# Normalized paths

Folding keeps a stack of components: a name is pushed and `..` takes it away again,
the root stays, and `..` is pushed where there is no name to take.  So the stack is
the root or a run of `..`, with names on it, and it is read back from the text that
it is printed to.
-/

namespace TreeLint

namespace Path

/-! ## Folding what was folded -/

theorem foldl_foldStep_concat (st cs : List Component) (c : Component) :
    (cs ++ [c]).foldl foldStep st = foldStep (cs.foldl foldStep st) c := by
  rw [List.foldl_append, List.foldl_cons, List.foldl_nil]

/-- On every stack, one more component after a folded list does what it does to the list. -/
theorem foldl_reverse_foldStep (st folded : List Component) (c : Component) :
    (foldStep folded c).reverse.foldl foldStep st =
      foldStep (folded.reverse.foldl foldStep st) c := by
  have hpush (last : Component) : (last :: folded).reverse.foldl foldStep st =
      foldStep (folded.reverse.foldl foldStep st) last := by
    rw [List.reverse_cons, foldl_foldStep_concat]
  cases c with
  | root => exact hpush .root
  | here => rfl
  | name text => exact hpush (.name text)
  | up =>
      cases folded with
      | nil => rfl
      | cons last folded =>
          cases last with
          | name text =>
              -- The name that `..` takes away is the one that was pushed last.
              rw [List.reverse_cons, foldl_foldStep_concat]
              rfl
          | root =>
              rw [foldStep, List.reverse_cons, foldl_foldStep_concat]
              rfl
          | here => exact hpush .up
          | up => exact hpush .up

/-- A list and its folding do the same to every stack. -/
theorem foldl_fold (st cs : List Component) :
    (fold cs).foldl foldStep st = cs.foldl foldStep st := by
  induction cs using List.reverseRecOn with
  | nil => rfl
  | append_singleton cs c ih =>
      rw [fold] at ih ⊢
      rw [foldl_foldStep_concat, foldl_foldStep_concat, foldl_reverse_foldStep, ih]

theorem fold_fold (cs : List Component) : fold (fold cs) = fold cs := by
  rw [fold, foldl_fold, fold]

/-! ## The shape of a folded list -/

def lead (absolute : Bool) (ups : Nat) : List Component :=
  if absolute then [.root] else List.replicate ups .up

/-- The root or a run of `..`, and names behind it. -/
def Folded (absolute : Bool) (cs : List Component) : Prop :=
  ∃ (ups : Nat) (names : List String),
    (∀ name ∈ names, IsName name) ∧ cs = lead absolute ups ++ names.map .name

namespace Folded

variable {absolute : Bool} {folded : List Component}

theorem push (h : Folded absolute folded.reverse) {text : String} (htext : IsName text) :
    Folded absolute (foldStep folded (.name text)).reverse := by
  obtain ⟨ups, names, hnames, hfolded⟩ := h
  have hstep : (foldStep folded (.name text)).reverse = folded.reverse ++ [.name text] :=
    List.reverse_cons
  refine ⟨ups, names ++ [text], ?_, ?_⟩
  · intro name hname
    rcases List.mem_append.1 hname with hmem | hmem
    · exact hnames name hmem
    · rw [List.mem_singleton.1 hmem]
      exact htext
  · rw [hstep, hfolded, List.map_append, List.append_assoc]
    rfl

theorem pop (h : Folded absolute folded.reverse) :
    Folded absolute (foldStep folded .up).reverse := by
  obtain ⟨ups, names, hnames, hfolded⟩ := h
  have hstack : folded = (names.map Component.name).reverse ++ (lead absolute ups).reverse := by
    rw [← List.reverse_append, ← hfolded, List.reverse_reverse]
  rcases List.eq_nil_or_concat names with rfl | ⟨front, last, rfl⟩
  · -- There is no name to take away: the root stays, and a run of `..` grows.
    cases absolute with
    | true =>
        have hroot : folded = [.root] := hstack
        exact ⟨ups, [], by simp, by rw [hroot]; rfl⟩
    | false =>
        have hups : folded = List.replicate ups .up := by
          simpa [lead] using hstack
        refine ⟨ups + 1, [], by simp, ?_⟩
        rw [hups]
        cases ups with
        | zero => rfl
        | succ n =>
            show (Component.up :: List.replicate (n + 1) .up).reverse = _
            rw [← List.replicate_succ, List.reverse_replicate]
            simp [lead]
  · rw [List.concat_eq_append] at hnames hstack
    refine ⟨ups, front, fun name hname => hnames name (List.mem_append_left [last] hname), ?_⟩
    rw [hstack]
    simp [foldStep]

theorem foldl (cs : List Component) (hcs : ∀ c ∈ cs, c.IsPart)
    (h : Folded absolute folded.reverse) :
    Folded absolute (cs.foldl foldStep folded).reverse := by
  induction cs generalizing folded with
  | nil => exact h
  | cons c cs ih =>
      have hstep : Folded absolute (foldStep folded c).reverse := by
        cases hcs c List.mem_cons_self with
        | up => exact h.pop
        | name htext => exact h.push htext
      exact ih (fun d hd => hcs d (List.mem_cons_of_mem c hd)) hstep

end Folded

/-! ## The components of a path -/

theorem isPart_of_component? {part : List Char} {c : Component} (hpart : '/' ∉ part)
    (h : component? part = some c) : c.IsPart := by
  unfold component? at h
  split at h
  · cases h
  · rename_i hstay
    simp only [Bool.or_eq_true, decide_eq_true_eq, not_or] at hstay
    split at h
    · cases h
      exact .up
    · rename_i hup
      cases h
      apply Component.IsPart.name
      refine ⟨?_, ?_, ?_, ?_⟩
      · simpa using hstay.1
      · simpa using hstay.2
      · simpa using hup
      · simpa using hpart

theorem isPart_of_mem_body {path : String} : ∀ c ∈ body path, c.IsPart := by
  intro c hc
  obtain ⟨part, hpart, hread⟩ := List.mem_filterMap.1 hc
  exact isPart_of_component? (Text.not_mem_of_mem_pieces hpart) hread

theorem isAbsolute_of_parts {path : String} {p : List Char} {ps : List (List Char)}
    (h : parts path.toList = [] :: p :: ps) : isAbsolute path = true := by
  have htext : path.toList = ['/'].intercalate ([] :: p :: ps) := by
    rw [← h, parts, Text.pieces_eq_splitOn, List.intercalate_splitOn]
  rw [isAbsolute, htext, List.intercalate_cons_cons]
  rfl

/-- Folding a path is folding its body from the root or from nothing. -/
theorem foldl_components (path : String) :
    (components path).foldl foldStep [] =
      (body path).foldl foldStep (lead (isAbsolute path) 0) := by
  by_cases habsolute : isAbsolute path = true
  · rw [components_of_isAbsolute habsolute, habsolute]
    rfl
  · rw [Bool.not_eq_true] at habsolute
    rw [habsolute]
    simp only [components]
    split
    · rename_i p ps hparts
      rw [isAbsolute_of_parts hparts] at habsolute
      cases habsolute
    · rfl
    · rfl

/-! ## Printed paths -/

theorem join_slash {child : String} (hchild : isAbsolute child = false) (base : String) :
    join ("/" ++ base) child = "/" ++ join base child := by
  by_cases hempty : base.isEmpty = true
  · rw [String.isEmpty_iff.1 hempty]
    simp [join, hchild]
  · have hne : base.toList ≠ [] := by
      intro hnil
      exact hempty (String.isEmpty_iff.2 (String.toList_eq_nil_iff.1 hnil))
    have hlast : ("/" ++ base).toList.getLast? = base.toList.getLast? := by
      rw [String.toList_append, List.getLast?_append, List.getLast?_eq_some_getLast hne]
      rfl
    have hfull : ("/" ++ base).isEmpty = false := by
      rw [Bool.eq_false_iff]
      intro hnil
      have htext := congrArg String.toList (String.isEmpty_iff.1 hnil)
      simp at htext
    simp only [join, hchild, hlast, hfull, hempty, Bool.false_eq_true, if_false, Bool.false_or]
    split
    · rw [String.append_assoc]
    · rw [String.append_assoc, String.append_assoc, String.append_assoc]

/-- The root is printed in front of the other components. -/
theorem ofComponents_root {cs : List Component} (h : ∀ c ∈ cs, c.IsPart) :
    ofComponents (.root :: cs) = "/" ++ ofComponents cs := by
  induction cs using List.reverseRecOn with
  | nil => rfl
  | append_singleton cs c ih =>
      have hcs := ih fun d hd => h d (List.mem_append_left [c] hd)
      have hc := (h c (by simp)).isAbsolute
      rw [← List.cons_append, ofComponents_concat, ofComponents_concat, hcs, join_slash hc]

theorem body_ofComponents {cs : List Component} (h : ∀ c ∈ cs, c.IsPart) :
    body (ofComponents cs) = cs := by
  by_cases hne : cs = []
  · subst hne
    rfl
  · rw [body, parts_of_isPart hne h, filterMap_component? h]

theorem parts_slash (path : String) : parts ("/" ++ path).toList = [] :: parts path.toList := by
  rw [String.toList_append]
  exact parts_append_slash [] path.toList

theorem components_slash (path : String) : components ("/" ++ path) = .root :: body path := by
  obtain ⟨p, ps, hparts⟩ := List.exists_cons_of_ne_nil (parts_ne_nil path.toList)
  have hbody : body ("/" ++ path) = body path := by
    rw [body, parts_slash]
    rfl
  rw [← hbody]
  simp only [components, body, parts_slash, hparts]

theorem isPart_of_mem_relative {ups : Nat} {names : List String}
    (h : ∀ name ∈ names, IsName name) :
    ∀ c ∈ lead false ups ++ names.map Component.name, c.IsPart := by
  intro c hc
  rcases List.mem_append.1 hc with hlead | hname
  · rw [List.eq_of_mem_replicate hlead]
    exact .up
  · exact isPart_of_mem_names h c hname

/-- A folded list is read back from the path that it makes. -/
theorem Folded.components_ofComponents {absolute : Bool} {cs : List Component}
    (h : Folded absolute cs) : components (ofComponents cs) = cs := by
  obtain ⟨ups, names, hnames, rfl⟩ := h
  cases absolute with
  | true =>
      have hparts := isPart_of_mem_names hnames
      show components (ofComponents (.root :: names.map .name)) = _
      rw [ofComponents_root hparts, components_slash, body_ofComponents hparts]
      rfl
  | false => exact components_of_isPart (isPart_of_mem_relative hnames)

theorem Folded.isAbsolute_ofComponents {absolute : Bool} {cs : List Component}
    (h : Folded absolute cs) : isAbsolute (ofComponents cs) = absolute := by
  obtain ⟨ups, names, hnames, rfl⟩ := h
  cases absolute with
  | true => exact Path.isAbsolute_ofComponents _
  | false =>
      have hparts : ∀ c ∈ lead false ups ++ names.map Component.name, c.IsPart :=
        isPart_of_mem_relative hnames
      rw [Bool.eq_false_iff]
      intro habsolute
      have hcomponents := components_of_isAbsolute habsolute
      rw [components_of_isPart hparts] at hcomponents
      have hroot := hparts .root (by rw [hcomponents]; exact List.mem_cons_self)
      cases hroot

/-- What a folded list looks like when it is printed. -/
theorem toList_lead {absolute : Bool} {ups : Nat} {names : List String}
    (h : ∀ name ∈ names, IsName name) :
    (ofComponents (lead absolute ups ++ names.map .name)).toList =
      if absolute then '/' :: ['/'].intercalate (names.map String.toList)
      else ['/'].intercalate (List.replicate ups ['.', '.'] ++ names.map String.toList) := by
  cases absolute with
  | true =>
      show (ofComponents (.root :: names.map .name)).toList = _
      rw [ofComponents_root (isPart_of_mem_names h), String.toList_append, toList_ofComponents h]
      rfl
  | false =>
      rw [toList_of_isPart (isPart_of_mem_relative h), List.map_append, map_text_names, lead,
        if_neg (by simp), List.map_replicate]
      rfl

/-! ## Normalizing -/

theorem folded_components (path : String) : Folded (isAbsolute path) (fold (components path)) := by
  have hstart : Folded (isAbsolute path) (lead (isAbsolute path) 0).reverse := by
    refine ⟨0, [], by simp, ?_⟩
    cases isAbsolute path <;> rfl
  rw [fold, foldl_components]
  exact hstart.foldl _ isPart_of_mem_body

theorem components_normalize (path : String) :
    components (normalize path) = fold (components path) :=
  (folded_components path).components_ofComponents

theorem isAbsolute_normalize (path : String) : isAbsolute (normalize path) = isAbsolute path :=
  (folded_components path).isAbsolute_ofComponents

theorem normalize_normalize (path : String) : normalize (normalize path) = normalize path := by
  rw [normalize, components_normalize, fold_fold, normalize]

theorem foldl_components_join {child : String} (hchild : isAbsolute child = false)
    (base : String) : (components (join base child)).foldl foldStep [] =
      (body child).foldl foldStep ((components base).foldl foldStep []) := by
  rw [foldl_components, foldl_components, isAbsolute_join_of_relative hchild, body_join hchild,
    List.foldl_append]

theorem foldl_components_normalize (path : String) :
    (components (normalize path)).foldl foldStep [] = (components path).foldl foldStep [] := by
  rw [components_normalize, foldl_fold]

theorem normalize_join {child : String} (hchild : isAbsolute child = false) (base : String) :
    normalize (join base child) = normalize (join (normalize base) child) := by
  rw [normalize, normalize, fold, fold, foldl_components_join hchild,
    foldl_components_join hchild, foldl_components_normalize]

theorem body_normalize {path : String} (h : isAbsolute path = false) :
    body (normalize path) = fold (body path) := by
  have hfold : fold (components path) = fold (body path) := by
    rw [fold, foldl_components, h]
    rfl
  obtain ⟨ups, names, hnames, hfolded⟩ := folded_components path
  rw [h] at hfolded
  rw [normalize, ← hfold, hfolded]
  exact body_ofComponents (isPart_of_mem_relative hnames)

/-- A normalized path leads where the path leads, from every directory. -/
theorem walk_normalize (path : String) (here : List String) :
    walk (if isAbsolute path then [] else here) (parts (normalize path).toList) =
      walk (if isAbsolute path then [] else here) (parts path.toList) := by
  apply stack_injective
  rw [← foldl_body, ← foldl_body]
  by_cases h : isAbsolute path = true
  · have hfold := foldl_components_normalize path
    rw [foldl_components, foldl_components, isAbsolute_normalize, h] at hfold
    rw [if_pos h]
    exact hfold
  · rw [body_normalize (by simpa using h), foldl_fold]

/--
A normalized path is the root or a run of `..` with names behind it, and single slashes
between them; it starts at the root exactly if the path does, and leads to the same place.
Normalizing again changes nothing, and of a joined path the base can be normalized first.
-/
theorem normalize_is_normal_form (path : String) :
    (∃ (ups : Nat) (names : List String), (∀ name ∈ names, IsName name) ∧
      components (normalize path) = lead (isAbsolute path) ups ++ names.map .name ∧
      (normalize path).toList =
        if isAbsolute path then '/' :: ['/'].intercalate (names.map String.toList)
        else ['/'].intercalate (List.replicate ups ['.', '.'] ++ names.map String.toList)) ∧
      isAbsolute (normalize path) = isAbsolute path ∧
      normalize (normalize path) = normalize path ∧
      (∀ child, isAbsolute child = false →
        normalize (join path child) = normalize (join (normalize path) child)) ∧
      ∀ here, walk (if isAbsolute path then [] else here) (parts (normalize path).toList) =
        walk (if isAbsolute path then [] else here) (parts path.toList) := by
  refine ⟨?_, isAbsolute_normalize path, normalize_normalize path,
    fun child hchild => normalize_join hchild path, walk_normalize path⟩
  obtain ⟨ups, names, hnames, hfolded⟩ := folded_components path
  refine ⟨ups, names, hnames, by rw [components_normalize, hfolded], ?_⟩
  rw [normalize, hfolded, toList_lead hnames]

/-- A relative path that climbs, and what a child that climbs further makes of it. -/
theorem normalize_climbing :
    normalize "a/../../b//./c/" = "../b/c" ∧ isAbsolute "../../../d" = false ∧
      normalize (join "a/../../b//./c/" "../../../d") = "../../d" ∧
      normalize (join "/../b/c" "../../../d") = "/d" := by
  have hnormal : normalize "a/../../b//./c/" = "../b/c" := by decide +kernel
  have hroot : normalize "/../b/c" = "/b/c" := by decide +kernel
  have hchild : isAbsolute "../../../d" = false := by decide +kernel
  obtain ⟨-, -, -, hjoin, -⟩ := normalize_is_normal_form "a/../../b//./c/"
  obtain ⟨-, -, -, hbelow, -⟩ := normalize_is_normal_form "/../b/c"
  refine ⟨hnormal, hchild, ?_, ?_⟩
  · rw [hjoin _ hchild, hnormal]
    decide +kernel
  · rw [hbelow _ hchild, hroot]
    decide +kernel

end Path

end TreeLint
