import TreeLint.Proofs.Rule.Selection

/-!
# Rule sets that selections lead to

A build gives every definition a rule of its own id, and a selection only leaves rules out.
Two selections in a row are the second one alone, so any number of them is one selection
from the rules of all definitions.
-/

namespace TreeLint

namespace RuleSet

/-- A set that is built from definitions and then narrowed by any number of selections. -/
inductive Reached (definitions : List RuleDefinition) : RuleSet → Prop
  | built {s : RuleSet} (h : build definitions = .ok s) : Reached definitions s
  | selected {s s' : RuleSet} {ids : List String} (h : Reached definitions s)
      (hselect : s.select ids = .ok s') : Reached definitions s'

/-- Rules of some of the definitions, in their order, and no id twice. -/
structure WellFormed (definitions : List RuleDefinition) (s : RuleSet) : Prop where
  nodup : (s.rules.map Rule.id).Nodup
  sublist : (s.rules.map Rule.definition).Sublist definitions
  built : ∀ r ∈ s.rules, Rule.build r.definition = .ok r

variable {definitions : List RuleDefinition} {s t : RuleSet} {ids : List String} {id : String}
  {r : Rule}

theorem wellFormed_build (h : build definitions = .ok s) : WellFormed definitions s := by
  obtain ⟨hnodup, hbuilt⟩ := build_eq_ok.1 h
  refine ⟨?_, ?_, fun r hr => (Rule.build_of_mem hbuilt hr).2⟩
  · rwa [Rule.ids_of_build hbuilt]
  · rw [Rule.definitions_of_build hbuilt]

theorem WellFormed.filter (h : WellFormed definitions s) (keep : Rule → Bool) :
    WellFormed definitions ⟨s.rules.filter keep⟩ :=
  ⟨h.nodup.sublist (List.filter_sublist.map _), (List.filter_sublist.map _).trans h.sublist,
    fun r hr => h.built r (List.mem_of_mem_filter hr)⟩

/-! ## Lookups -/

theorem get?_eq_none_iff : s.get? id = none ↔ id ∉ s.rules.map Rule.id := by
  rw [get?, List.find?_eq_none, List.mem_map]
  simp

/-- An id names at most one rule. -/
theorem WellFormed.get?_eq_some_iff (h : WellFormed definitions s) :
    s.get? id = some r ↔ r ∈ s.rules ∧ r.id = id := by
  refine ⟨fun hget => ⟨List.mem_of_find?_eq_some hget, ?_⟩, fun ⟨hr, hid⟩ => ?_⟩
  · simpa using List.find?_some hget
  · cases hget : s.get? id with
    | none => exact absurd (List.mem_map.2 ⟨r, hr, hid⟩) (get?_eq_none_iff.1 hget)
    | some r' =>
        have hr' : r' ∈ s.rules := List.mem_of_find?_eq_some hget
        have hid' : r'.id = id := by simpa using List.find?_some hget
        rw [List.inj_on_of_nodup_map h.nodup hr' hr (hid'.trans hid.symm)]

/-! ## Selections -/

theorem select_eq_ok_iff :
    s.select ids = .ok t ↔
      (∀ id ∈ ids, id ∈ s.rules.map Rule.id) ∧ t.rules = s.rules.filter (ids.contains ·.id) := by
  constructor
  · intro hselect
    unfold select at hselect
    split at hselect
    · cases hselect
    · rename_i hknown
      cases hselect
      refine ⟨fun id hid => ?_, rfl⟩
      have hsome := List.find?_eq_none.1 hknown id hid
      rw [Option.isNone_iff_eq_none, get?_eq_none_iff, not_not] at hsome
      exact hsome
  · rintro ⟨hknown, hrules⟩
    rw [select_of_mem hknown, ← hrules]

/-- A selection stops at the first id that names no rule. -/
theorem select_eq_error_iff {e : RuleError} :
    s.select ids = .error e ↔
      ∃ before id after, ids = before ++ id :: after ∧ (∀ i ∈ before, i ∈ s.rules.map Rule.id) ∧
        id ∉ s.rules.map Rule.id ∧ e = .unknownRule id := by
  have hunknown : ∀ i, (s.get? i).isNone = true ↔ i ∉ s.rules.map Rule.id := by
    intro i
    rw [Option.isNone_iff_eq_none, get?_eq_none_iff]
  have hknown : ∀ i, (!(s.get? i).isNone) = true ↔ i ∈ s.rules.map Rule.id := by
    intro i
    rw [Bool.not_eq_true', ← Bool.not_eq_true, hunknown, not_not]
  constructor
  · intro hselect
    unfold select at hselect
    split at hselect
    · rename_i id hfind
      cases hselect
      obtain ⟨hid, before, after, hids, hbefore⟩ := List.find?_eq_some_iff_append.1 hfind
      exact ⟨before, id, after, hids, fun i hi => (hknown i).1 (hbefore i hi), (hunknown id).1 hid,
        rfl⟩
    · cases hselect
  · rintro ⟨before, id, after, hids, hbefore, hid, rfl⟩
    have hfind : ids.find? (fun id => (s.get? id).isNone) = some id :=
      List.find?_eq_some_iff_append.2
        ⟨(hunknown id).2 hid, before, after, hids, fun i hi => (hknown i).2 (hbefore i hi)⟩
    simp only [select, hfind]

/-- Neither the order of the ids nor their number counts. -/
theorem select_congr {ids' : List String} (h : s.select ids = .ok t)
    (hsame : ∀ id, id ∈ ids' ↔ id ∈ ids) : s.select ids' = .ok t := by
  obtain ⟨hknown, hrules⟩ := select_eq_ok_iff.1 h
  refine select_eq_ok_iff.2 ⟨fun id hid => hknown id ((hsame id).1 hid), ?_⟩
  have hcontains : ∀ id, ids'.contains id = ids.contains id := by
    intro id
    rw [Bool.eq_iff_iff, List.contains_iff_mem, List.contains_iff_mem, hsame]
  rw [hrules]
  simp only [hcontains]

theorem ids_of_select (h : s.select ids = .ok t) :
    t.rules.map Rule.id = (s.rules.map Rule.id).filter ids.contains := by
  rw [(select_eq_ok_iff.1 h).2, List.filter_map]
  rfl

theorem mem_ids_of_select (h : s.select ids = .ok t) (id : String) :
    id ∈ t.rules.map Rule.id ↔ id ∈ ids := by
  rw [ids_of_select h, List.mem_filter, List.contains_iff_mem]
  exact ⟨And.right, fun hid => ⟨(select_eq_ok_iff.1 h).1 id hid, hid⟩⟩

theorem select_ids (s : RuleSet) : s.select (s.rules.map Rule.id) = .ok s := by
  refine select_eq_ok_iff.2 ⟨fun id hid => hid, ?_⟩
  symm
  rw [List.filter_eq_self]
  intro r hr
  rw [List.contains_iff_mem]
  exact List.mem_map_of_mem hr

/-- Two selections in a row are the second one alone. -/
theorem select_trans {u : RuleSet} {ids' : List String} (h : s.select ids = .ok t)
    (h' : t.select ids' = .ok u) : s.select ids' = .ok u := by
  obtain ⟨hknown, hrules⟩ := select_eq_ok_iff.1 h
  obtain ⟨hknown', hrules'⟩ := select_eq_ok_iff.1 h'
  have hsubset : ∀ id ∈ ids', id ∈ ids := fun id hid => (mem_ids_of_select h id).1 (hknown' id hid)
  refine select_eq_ok_iff.2 ⟨fun id hid => hknown id (hsubset id hid), ?_⟩
  rw [hrules', hrules, List.filter_filter]
  refine List.filter_congr fun r _ => ?_
  by_cases hid : r.id ∈ ids'
  · simp [hid, hsubset _ hid]
  · simp [hid]

/-! ## Chains of selections -/

/-- Any number of selections is one selection from the rules of all definitions. -/
theorem Reached.exists_select (h : Reached definitions s) :
    ∃ all, build definitions = .ok all ∧ all.select (s.rules.map Rule.id) = .ok s := by
  induction h with
  | @built s hbuild => exact ⟨s, hbuild, select_ids s⟩
  | @selected s t ids _ hselect ih =>
      obtain ⟨all, hbuild, hall⟩ := ih
      exact ⟨all, hbuild, select_congr (select_trans hall hselect) (mem_ids_of_select hselect)⟩

theorem Reached.wellFormed (h : Reached definitions s) : WellFormed definitions s := by
  obtain ⟨all, hbuild, hselect⟩ := h.exists_select
  have hset : s = ⟨all.rules.filter ((s.rules.map Rule.id).contains ·.id)⟩ :=
    congrArg RuleSet.mk (select_eq_ok_iff.1 hselect).2
  rw [hset]
  exact (wellFormed_build hbuild).filter _

/--
Every set that a build and selections lead to has no id twice and holds rules of the
definitions, in their order, with the patterns of their texts.  A selection from it gives
the rules that are asked for or the first id that names none, and a lookup gives the one
rule of the id.
-/
theorem reached_sets_exact (h : Reached definitions s) :
    ((s.rules.map Rule.id).Nodup ∧ (s.rules.map Rule.definition).Sublist definitions ∧
      (∃ all, build definitions = .ok all ∧ all.rules.map Rule.definition = definitions ∧
        all.select (s.rules.map Rule.id) = .ok s) ∧
      ∀ r ∈ s.rules,
        r.patterns ≠ [] ∧ r.patterns.map (·.source) = r.definition.pattern.toList) ∧
      (∀ ids,
        ((∃ t, s.select ids = .ok t) ↔ ∀ id ∈ ids, id ∈ s.rules.map Rule.id) ∧
        (∀ t, s.select ids = .ok t →
          t.rules = s.rules.filter (ids.contains ·.id) ∧
            (∀ ids', (∀ id, id ∈ ids' ↔ id ∈ ids) → s.select ids' = .ok t) ∧
            t.select ids = .ok t ∧ t.select (t.rules.map Rule.id) = .ok t) ∧
        ∀ e, s.select ids = .error e ↔
          ∃ before id after, ids = before ++ id :: after ∧
            (∀ i ∈ before, i ∈ s.rules.map Rule.id) ∧ id ∉ s.rules.map Rule.id ∧
            e = .unknownRule id) ∧
      ∀ id, (∀ r, s.get? id = some r ↔ r ∈ s.rules ∧ r.id = id) ∧
        (s.get? id = none ↔ id ∉ s.rules.map Rule.id) := by
  have hformed := h.wellFormed
  refine ⟨⟨hformed.nodup, hformed.sublist, ?_, ?_⟩, fun ids => ⟨?_, ?_, ?_⟩, fun id => ?_⟩
  · obtain ⟨all, hbuild, hselect⟩ := h.exists_select
    exact ⟨all, hbuild, Rule.definitions_of_build (build_eq_ok.1 hbuild).2, hselect⟩
  · intro r hr
    exact Rule.sources_of_build (hformed.built r hr)
  · refine ⟨?_, fun hknown => ⟨_, select_of_mem hknown⟩⟩
    rintro ⟨t, ht⟩
    exact (select_eq_ok_iff.1 ht).1
  · intro t ht
    have hagain : t.select ids = .ok t :=
      select_congr (select_ids t) fun id => (mem_ids_of_select ht id).symm
    exact ⟨(select_eq_ok_iff.1 ht).2, fun ids' hsame => select_congr ht hsame, hagain,
      select_ids t⟩
  · intro e
    exact select_eq_error_iff
  · exact ⟨fun r => hformed.get?_eq_some_iff, get?_eq_none_iff⟩

theorem reached_overlappingRules :
    ∃ all two one, build overlappingRules = .ok all ∧
      all.select ["node", "named", "node"] = .ok two ∧ two.select ["named", "named"] = .ok one ∧
      all.select ["named"] = .ok one ∧
      one.rules.map (fun r => r.patterns.map (·.source)) =
        [["call(identifier, ...)", "^name"]] ∧
      one.select ["named", "node", "call"] = .error (.unknownRule "node") := by
  obtain ⟨all, hall⟩ : ∃ all, build overlappingRules = .ok all :=
    (build_stopsAt overlappingRules).ok_iff.2 (by decide +kernel)
  have hids : all.rules.map Rule.id = ["call", "named", "node"] :=
    Rule.ids_of_build (build_eq_ok.1 hall).2
  have hreached : Reached overlappingRules all := .built hall
  obtain ⟨two, htwo⟩ := ((reached_sets_exact hreached).2.1 ["node", "named", "node"]).1.2
    (by rw [hids]; decide)
  have htwoIds : two.rules.map Rule.id = ["named", "node"] := by
    rw [ids_of_select htwo, hids]
    decide
  obtain ⟨one, hone⟩ := ((reached_sets_exact (hreached.selected htwo)).2.1 ["named", "named"]).1.2
    (by rw [htwoIds]; decide)
  have honeIds : one.rules.map Rule.id = ["named"] := by
    rw [ids_of_select hone, htwoIds]
    decide
  obtain ⟨⟨-, -, ⟨all', hall', hdefinitions, hselect⟩, hsources⟩, hselections, -⟩ :=
    reached_sets_exact ((hreached.selected htwo).selected hone)
  cases hall.symm.trans hall'
  rw [honeIds] at hselect
  refine ⟨all, two, one, hall, htwo, hone, hselect, ?_, ?_⟩
  · have honly :
        one.rules.map Rule.definition = overlappingRules.filter (["named"].contains ·.id) := by
      rw [(select_eq_ok_iff.1 hselect).2, ← hdefinitions, List.filter_map]
      rfl
    calc
      one.rules.map (fun r => r.patterns.map (·.source)) =
          (one.rules.map Rule.definition).map (·.pattern.toList) := by
        rw [List.map_map]
        exact List.map_congr_left fun r hr => (hsources r hr).2
      _ = [["call(identifier, ...)", "^name"]] := by
        rw [honly]
        decide
  · refine ((hselections _).2.2 _).2 ⟨["named"], "node", ["call"], rfl, ?_, ?_, rfl⟩
    · rw [honeIds]
      decide
    · rw [honeIds]
      decide

end RuleSet

end TreeLint
