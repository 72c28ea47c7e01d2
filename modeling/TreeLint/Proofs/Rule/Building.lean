import TreeLint.Proofs.Data.Except
import TreeLint.Proofs.Rule.Validation

/-!
# What a successful build holds

A rule has the patterns of its texts and the filter of its globs.  A rule set has
the rules of its definitions, one by one and in order, and no id twice.
-/

namespace TreeLint

theorem SourcePattern.compile_eq_ok {text : String} {p : SourcePattern} :
    SourcePattern.compile text = .ok p ↔
      p.source = text ∧ Pattern.compile text = .ok p.pattern := by
  obtain ⟨source, pattern⟩ := p
  unfold SourcePattern.compile
  cases Pattern.compile text <;> simp [Except.map, eq_comm]

theorem Rule.compileTexts_eq_ok {owner : String} {texts : List String}
    {ps : List SourcePattern} :
    compileTexts owner texts = .ok ps ↔
      List.Forall₂ (fun text p => SourcePattern.compile text = .ok p) texts ps := by
  rw [compileTexts_eq_mapM, mapM_eq_ok]
  have hmapError : ∀ (x : Except Pattern.Error SourcePattern) p,
      x.mapError (RuleError.pattern owner) = .ok p ↔ x = .ok p := by
    intro x p
    cases x <;> simp [Except.mapError]
  simp only [hmapError]

theorem Rule.build_eq_ok {d : RuleDefinition} {r : Rule} :
    Rule.build d = .ok r ↔
      d.pattern.toList ≠ [] ∧ r.definition = d ∧
        List.Forall₂ (fun text p => SourcePattern.compile text = .ok p)
          d.pattern.toList r.patterns ∧
        PathFilter.build d.id d.includes d.excludes = .ok r.filter := by
  rw [build_eq_bind]
  by_cases hempty : d.pattern.toList = []
  · simp [hempty]
  · have hcond : ¬ d.pattern.toList.isEmpty = true := by simpa using hempty
    rw [if_neg hcond, bind_eq_ok]
    constructor
    · rintro ⟨patterns, hpatterns, h⟩
      obtain ⟨filter, hfilter, heq⟩ := bind_eq_ok.1 h
      cases heq
      exact ⟨hempty, rfl, compileTexts_eq_ok.1 hpatterns, hfilter⟩
    · rintro ⟨-, rfl, hpatterns, hfilter⟩
      exact ⟨r.patterns, compileTexts_eq_ok.2 hpatterns,
        bind_eq_ok.2 ⟨r.filter, hfilter, rfl⟩⟩

theorem Rule.id_of_build {d : RuleDefinition} {r : Rule} (h : Rule.build d = .ok r) :
    r.id = d.id := by
  rw [Rule.id, (build_eq_ok.1 h).2.1]

/-- The patterns of a rule are those of its definition's texts, and there is one at least. -/
theorem Rule.sources_of_build {d : RuleDefinition} {r : Rule}
    (h : Rule.build d = .ok r) :
    r.patterns ≠ [] ∧ r.patterns.map (·.source) = d.pattern.toList := by
  obtain ⟨htexts, -, hpatterns, -⟩ := build_eq_ok.1 h
  have hsources : r.patterns.map (·.source) = d.pattern.toList := by
    have hsame : List.Forall₂ (· = ·) d.pattern.toList (r.patterns.map (·.source)) :=
      List.forall₂_map_right_iff.2
        (hpatterns.imp fun _ _ hp => (SourcePattern.compile_eq_ok.1 hp).1.symm)
    rw [List.forall₂_eq_eq_eq] at hsame
    exact hsame.symm
  refine ⟨fun hnone => htexts ?_, hsources⟩
  rw [← hsources, hnone, List.map_nil]

/-- A build behind some used ids succeeds if every rule can be built and all ids are new. -/
theorem RuleSet.buildAfter_eq_ok {seen : List String} {ds : List RuleDefinition}
    {rs : List Rule} :
    buildAfter seen ds = .ok rs ↔
      (∀ d ∈ ds, d.id ∉ seen) ∧ (ds.map (·.id)).Nodup ∧
        List.Forall₂ (fun d r => Rule.build d = .ok r) ds rs := by
  induction ds generalizing seen rs with
  | nil => simp [buildAfter, eq_comm]
  | cons d ds ih =>
      rw [buildAfter_cons, List.forall₂_cons_left_iff, List.map_cons, List.nodup_cons]
      by_cases hseen : d.id ∈ seen
      · rw [if_pos (by simpa using hseen)]
        simp [hseen]
      · rw [if_neg (by simpa using hseen), bind_eq_ok]
        constructor
        · rintro ⟨r, hr, hrest⟩
          obtain ⟨tail, htail, heq⟩ := bind_eq_ok.1 hrest
          cases heq
          obtain ⟨hnew, hnodup, hbuilt⟩ := ih.1 htail
          have hfresh : d.id ∉ ds.map (·.id) := by
            intro hmem
            obtain ⟨d', hd', hid⟩ := List.mem_map.1 hmem
            exact hnew d' hd' (by rw [hid]; exact List.mem_cons_self)
          refine ⟨fun d' hd' => ?_, ⟨hfresh, hnodup⟩, r, tail, hr, hbuilt, rfl⟩
          rcases List.mem_cons.1 hd' with rfl | hd'
          · exact hseen
          · exact fun hmem => hnew d' hd' (List.mem_cons_of_mem d.id hmem)
        · rintro ⟨hnew, ⟨hfresh, hnodup⟩, r, tail, hr, hbuilt, rfl⟩
          have hbehind : ∀ d' ∈ ds, d'.id ∉ d.id :: seen := by
            intro d' hd' hmem
            rcases List.mem_cons.1 hmem with heq | hmem
            · exact hfresh (List.mem_map.2 ⟨d', hd', heq⟩)
            · exact hnew d' (List.mem_cons_of_mem d hd') hmem
          exact ⟨r, hr, bind_eq_ok.2 ⟨tail, ih.2 ⟨hbehind, hnodup, hbuilt⟩, rfl⟩⟩

theorem RuleSet.build_eq_ok {ds : List RuleDefinition} {rules : RuleSet} :
    RuleSet.build ds = .ok rules ↔
      (ds.map (·.id)).Nodup ∧
        List.Forall₂ (fun d r => Rule.build d = .ok r) ds rules.rules := by
  have hmap : RuleSet.build ds = .ok rules ↔ buildAfter [] ds = .ok rules.rules := by
    obtain ⟨rs⟩ := rules
    unfold RuleSet.build
    cases buildAfter [] ds <;> simp [Except.map]
  rw [hmap, buildAfter_eq_ok]
  simp

/-- Rules show the ids of their definitions. -/
theorem Rule.ids_of_build {ds : List RuleDefinition} {rs : List Rule}
    (h : List.Forall₂ (fun d r => Rule.build d = .ok r) ds rs) :
    rs.map Rule.id = ds.map (·.id) := by
  have hids : List.Forall₂ (· = ·) (ds.map (·.id)) (rs.map Rule.id) :=
    List.forall₂_map_left_iff.2 (List.forall₂_map_right_iff.2
      (h.imp fun _ _ hr => (Rule.id_of_build hr).symm))
  rw [List.forall₂_eq_eq_eq] at hids
  exact hids.symm

theorem Rule.definitions_of_build {ds : List RuleDefinition} {rs : List Rule}
    (h : List.Forall₂ (fun d r => Rule.build d = .ok r) ds rs) : rs.map Rule.definition = ds := by
  induction h with
  | nil => rfl
  | cons hr _ ih => rw [List.map_cons, ih, (Rule.build_eq_ok.1 hr).2.1]

/-- Every rule is that of its own definition. -/
theorem Rule.build_of_mem {ds : List RuleDefinition} {rs : List Rule}
    (h : List.Forall₂ (fun d r => Rule.build d = .ok r) ds rs) {r : Rule} (hr : r ∈ rs) :
    r.definition ∈ ds ∧ Rule.build r.definition = .ok r := by
  refine ⟨?_, ?_⟩
  · rw [← definitions_of_build h]
    exact List.mem_map_of_mem hr
  · induction h with
    | nil => cases hr
    | cons hfirst _ ih =>
        rcases List.mem_cons.1 hr with rfl | hr
        · rwa [(Rule.build_eq_ok.1 hfirst).2.1]
        · exact ih hr

end TreeLint
