import TreeLint.Proofs.Analysis.Log
import TreeLint.Proofs.Rule.Building

/-!
# Selecting rules

A run with some of the rules finds what the run with all of them finds for these
rules.  No rule changes what another one finds, so what a rule finds is decided by
its definition alone.
-/

namespace TreeLint

variable {rules : RuleSet} {root : ProjectRoot}

/-! ## Runs with some of the rules -/

theorem admittedRules_filter (keep : Rule → Bool) (script : Script) :
    admittedRules ⟨rules.rules.filter keep⟩ root script =
      (admittedRules rules root script).filter keep := by
  rw [admittedRules, admittedRules, List.filter_filter, List.filter_filter]
  congr 1
  funext r
  exact Bool.and_comm _ _

theorem testsOn_filter (script : Script) (keep : Rule → Bool) (admitted : List Rule)
    (nodes : List Node) :
    testsOn script (admitted.filter keep) nodes =
      (testsOn script admitted nodes).filter fun t => keep t.rule := by
  induction nodes with
  | nil => rfl
  | cons n rest ih =>
      rw [testsOn_cons, testsOn_cons, List.filter_append, ih, List.filter_map]
      rfl

/-- Leaving rules out leaves out the tests of these rules. -/
theorem schedule_filter (keep : Rule → Bool) (scripts : List Script) :
    schedule ⟨rules.rules.filter keep⟩ root scripts =
      (schedule rules root scripts).filter fun t => keep t.rule := by
  induction scripts with
  | nil => rfl
  | cons script rest ih =>
      rw [schedule_cons, schedule_cons, List.filter_append, ih, admittedRules_filter,
        testsOn_filter]

/-- An issue tells the rule of the test that finds it. -/
theorem Test.rule_of_issue? {t : Test} {issue : Issue} (h : t.issue? = some issue) :
    issue.rule = t.rule := by
  rw [Test.issue?, Option.map_eq_some_iff] at h
  obtain ⟨p, -, rfl⟩ := h
  rfl

theorem issues_filter (keep : Rule → Bool)
    (outcomes : List (String × Except ScriptError Script)) :
    (registered ⟨rules.rules.filter keep⟩ root outcomes).run.toList =
      (registered rules root outcomes).run.toList.filter fun i => keep i.rule := by
  rw [issues_registered, issues_registered, schedule_filter, List.filterMap_filter,
    List.filter_filterMap]
  congr 1
  funext t
  cases hissue : t.issue? with
  | none => simp
  | some issue =>
      rw [← Test.rule_of_issue? hissue]
      cases hkeep : keep issue.rule <;> simp [Option.filter, hkeep]

/-! ## Selected ids -/

theorem RuleSet.select_of_mem {ids : List String} (h : ∀ id ∈ ids, id ∈ rules.rules.map Rule.id) :
    rules.select ids = .ok ⟨rules.rules.filter fun r => ids.contains r.id⟩ := by
  have hknown : ids.find? (fun id => (rules.get? id).isNone) = none := by
    rw [List.find?_eq_none]
    intro id hid hnone
    obtain ⟨r, hr, hrid⟩ := List.mem_map.1 (h id hid)
    rw [Option.isNone_iff_eq_none, RuleSet.get?, List.find?_eq_none] at hnone
    exact hnone r hr (by simp [hrid])
  rw [RuleSet.select, hknown]

/-- The rule of a definition is the only one of its set with the definition's id. -/
theorem RuleSet.filter_id_of_build {ds : List RuleDefinition} {rs : List Rule}
    {d : RuleDefinition} (hnodup : (ds.map (·.id)).Nodup)
    (hbuilt : List.Forall₂ (fun d r => Rule.build d = .ok r) ds rs) (hd : d ∈ ds) :
    ∃ r, Rule.build d = .ok r ∧ rs.filter (·.id == d.id) = [r] := by
  induction hbuilt with
  | nil => cases hd
  | @cons first r ds rs hr hrest ih =>
      obtain ⟨hfresh, hnodup⟩ := List.nodup_cons.1 hnodup
      rw [List.filter_cons, Rule.id_of_build hr]
      rcases List.mem_cons.1 hd with rfl | hd
      · have hothers : rs.filter (·.id == d.id) = [] := by
          rw [List.filter_eq_nil_iff]
          intro r' hr' heq
          have hmem : r'.id ∈ rs.map Rule.id := List.mem_map_of_mem hr'
          rw [Rule.ids_of_build hrest, eq_of_beq heq] at hmem
          exact hfresh hmem
        exact ⟨r, hr, by rw [if_pos (beq_self_eq_true d.id), hothers]⟩
      · have hne : ¬ (first.id == d.id) = true := by
          intro heq
          exact hfresh (List.mem_map.2 ⟨d, hd, (eq_of_beq heq).symm⟩)
        rw [if_neg hne]
        exact ih hnodup hd

/--
A run with selected rules finds, in the same order, what the run with all rules finds
for them.  What a definition's rule finds is what it finds without the other rules.
-/
theorem selection_commutes_with_run {definitions : List RuleDefinition} {rules : RuleSet}
    (hbuild : RuleSet.build definitions = .ok rules) :
    (∀ ids : List String, (∀ id ∈ ids, id ∈ rules.rules.map Rule.id) →
      ∃ selected, rules.select ids = .ok selected ∧
        ∀ root outcomes,
          (registered selected root outcomes).run.toList =
            (registered rules root outcomes).run.toList.filter
              fun i => ids.contains i.rule.id) ∧
      ∀ d ∈ definitions, ∃ alone, RuleSet.build [d] = .ok alone ∧
        ∀ root outcomes,
          (registered rules root outcomes).run.toList.filter (fun i => i.rule.id == d.id) =
            (registered alone root outcomes).run.toList := by
  refine ⟨fun ids hids => ?_, fun d hd => ?_⟩
  · exact ⟨_, RuleSet.select_of_mem hids, fun root outcomes => issues_filter _ outcomes⟩
  · obtain ⟨hnodup, hbuilt⟩ := RuleSet.build_eq_ok.1 hbuild
    obtain ⟨r, hr, honly⟩ := RuleSet.filter_id_of_build hnodup hbuilt hd
    have halone : RuleSet.build [d] = .ok ⟨[r]⟩ :=
      RuleSet.build_eq_ok.2 ⟨List.nodup_singleton _, .cons hr .nil⟩
    refine ⟨⟨[r]⟩, halone, fun root outcomes => ?_⟩
    rw [← issues_filter (fun r => r.id == d.id), honly]

/-- Rules of which two match the same nodes, and one leaves some files out. -/
def overlappingRules : List RuleDefinition :=
  [{ id := "call", pattern := .one "call", message := "a call" },
    { id := "named", pattern := .many ["call(identifier, ...)", "^name"], message := "a name",
      excludes := ["tests/**"] },
    { id := "node", pattern := .one "_(...)", message := "a node" }]

theorem selection_overlappingRules :
    ∃ rules, RuleSet.build overlappingRules = .ok rules ∧
      (∃ selected, rules.select ["node", "named", "node"] = .ok selected ∧
        ∀ root outcomes,
          (registered selected root outcomes).run.toList =
            (registered rules root outcomes).run.toList.filter
              fun i => ["node", "named", "node"].contains i.rule.id) ∧
      ∀ d ∈ overlappingRules, ∃ alone, RuleSet.build [d] = .ok alone ∧
        ∀ root outcomes,
          (registered rules root outcomes).run.toList.filter (fun i => i.rule.id == d.id) =
            (registered alone root outcomes).run.toList := by
  have hbuild : ∃ rules, RuleSet.build overlappingRules = .ok rules :=
    (RuleSet.build_stopsAt overlappingRules).ok_iff.2 (by decide +kernel)
  obtain ⟨rules, hrules⟩ := hbuild
  obtain ⟨hselect, halone⟩ := selection_commutes_with_run hrules
  refine ⟨rules, hrules, hselect _ ?_, halone⟩
  rw [Rule.ids_of_build (RuleSet.build_eq_ok.1 hrules).2]
  simp [overlappingRules]

end TreeLint
