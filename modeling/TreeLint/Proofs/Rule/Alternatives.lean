import TreeLint.Proofs.Analysis.Log
import TreeLint.Proofs.Pattern.Embedding
import TreeLint.Proofs.Pattern.Meaning
import TreeLint.Proofs.Rule.Building

/-!
# Alternatives as one pattern

A rule with several patterns finds the same as the rule whose one pattern is the
choice of them.  What a run finds depends on a rule through its id, its filter and
the nodes that it matches at all, so rules that agree in these can stand for each
other in every rule set.
-/

namespace TreeLint

/-! ## What a run finds -/

def findings (rules : RuleSet) (root : ProjectRoot)
    (outcomes : List (String × Except ScriptError Script)) : List (Script × Node × String) :=
  (registered rules root outcomes).run.toList.map fun i => (i.script, i.node, i.rule.id)

/-- The rules find the same in every file: only which of their patterns matches may differ. -/
structure Rule.Alike (r r' : Rule) : Prop where
  id : r'.id = r.id
  filter : r'.filter = r.filter
  matched : ∀ n, (r'.firstMatch? n).isSome = (r.firstMatch? n).isSome

theorem Rule.Alike.refl (r : Rule) : r.Alike r :=
  ⟨rfl, rfl, fun _ => rfl⟩

def Rule.finding? (root : ProjectRoot) (script : Script) (n : Node) (r : Rule) :
    Option (Script × Node × String) :=
  if r.admits (root.relative script.path) && (r.firstMatch? n).isSome then
    some (script, n, r.id)
  else none

theorem Rule.finding?_eq_issue? (root : ProjectRoot) (script : Script) (n : Node) (r : Rule) :
    r.finding? root script n =
      if r.admits (root.relative script.path) then
        (Test.issue? ⟨script, n, r⟩).map fun i => (i.script, i.node, i.rule.id)
      else none := by
  have hissue : Test.issue? ⟨script, n, r⟩ =
      (r.firstMatch? n).map fun p => ⟨script, r, p, n⟩ := rfl
  rw [finding?, hissue]
  cases r.admits (root.relative script.path) <;> cases r.firstMatch? n <;> rfl

/-- The findings are those of plain nested loops over scripts, nodes and rules. -/
theorem findings_eq (rules : RuleSet) (root : ProjectRoot)
    (outcomes : List (String × Except ScriptError Script)) :
    findings rules root outcomes =
      (outcomes.filterMap (·.2.toOption)).flatMap fun script =>
        script.root.nodes.flatMap fun n => rules.rules.filterMap (Rule.finding? root script n) := by
  rw [findings, issues_registered, List.map_filterMap, schedule, List.filterMap_flatMap]
  congr 1
  funext script
  rw [testsOn, List.filterMap_flatMap]
  congr 1
  funext n
  rw [List.filterMap_map, admittedRules, List.filterMap_filter]
  congr 1
  funext r
  exact (r.finding?_eq_issue? root script n).symm

theorem Rule.Alike.finding? {r r' : Rule} (h : r.Alike r') (root : ProjectRoot)
    (script : Script) (n : Node) : r'.finding? root script n = r.finding? root script n := by
  rw [Rule.finding?, Rule.finding?, Rule.admits, Rule.admits, h.id, h.filter, h.matched]

/-- Rules that are alike one by one find the same in a node. -/
theorem filterMap_finding?_congr {rs rs' : List Rule} (h : List.Forall₂ Rule.Alike rs rs')
    (root : ProjectRoot) (script : Script) (n : Node) :
    rs'.filterMap (Rule.finding? root script n) = rs.filterMap (Rule.finding? root script n) := by
  induction h with
  | nil => rfl
  | cons hr _ ih => rw [List.filterMap_cons, List.filterMap_cons, hr.finding?, ih]

/-- Rule sets whose rules are alike one by one find the same in every run. -/
theorem findings_congr {rules rules' : RuleSet}
    (h : List.Forall₂ Rule.Alike rules.rules rules'.rules) (root : ProjectRoot)
    (outcomes : List (String × Except ScriptError Script)) :
    findings rules' root outcomes = findings rules root outcomes := by
  simp only [findings_eq, filterMap_finding?_congr h]

/-! ## The rule with one braced pattern -/

def RuleDefinition.braced (d : RuleDefinition) : RuleDefinition :=
  { d with pattern := .one (Pattern.bracedText d.pattern.toList) }

/-- The rule with the choice of its patterns as the only one. -/
def Rule.braced (r : Rule) : Rule where
  definition := r.definition.braced
  patterns :=
    [⟨Pattern.bracedText r.definition.pattern.toList, .oneOf (r.patterns.map (·.pattern))⟩]
  filter := r.filter

theorem Rule.alike_braced (r : Rule) : r.Alike r.braced := by
  refine ⟨rfl, rfl, fun n => ?_⟩
  rw [Bool.eq_iff_iff, firstMatch?, firstMatch?, List.find?_isSome, List.find?_isSome, braced]
  simp [SourcePattern.accepts, Pattern.accepts, Pattern.someAccepts_iff]

theorem Rule.build_braced {d : RuleDefinition} {r : Rule} (h : Rule.build d = .ok r) :
    Rule.build d.braced = .ok r.braced := by
  obtain ⟨hne, rfl, hpatterns, hfilter⟩ := build_eq_ok.1 h
  have hcompiled : List.Forall₂ (fun text p => Pattern.compile text = .ok p)
      r.definition.pattern.toList (r.patterns.map (·.pattern)) :=
    List.forall₂_map_right_iff.2
      (hpatterns.imp fun _ _ hp => (SourcePattern.compile_eq_ok.1 hp).2)
  have hbraced := Pattern.compile_bracedText hne hcompiled
  refine build_eq_ok.2 ⟨by simp [RuleDefinition.braced, PatternTexts.toList], rfl, ?_, hfilter⟩
  exact .cons (SourcePattern.compile_eq_ok.2 ⟨rfl, hbraced⟩) .nil

/-! ## Replacing definitions -/

/-- The second definition has a rule like that of the first, if the first has one. -/
structure RuleDefinition.Replaceable (d d' : RuleDefinition) : Prop where
  id : d'.id = d.id
  build : ∀ {r}, Rule.build d = .ok r → ∃ r', Rule.build d' = .ok r' ∧ r.Alike r'

theorem RuleSet.buildAfter_replaced {ds ds' : List RuleDefinition}
    (h : List.Forall₂ RuleDefinition.Replaceable ds ds') {seen : List String} {rs : List Rule}
    (hbuild : RuleSet.buildAfter seen ds = .ok rs) :
    ∃ rs', RuleSet.buildAfter seen ds' = .ok rs' ∧ List.Forall₂ Rule.Alike rs rs' := by
  induction h generalizing seen rs with
  | nil =>
      cases hbuild
      exact ⟨[], rfl, .nil⟩
  | @cons d d' ds ds' hd _ ih =>
      rw [buildAfter_cons] at hbuild ⊢
      by_cases hseen : seen.contains d.id = true
      · rw [if_pos hseen] at hbuild
        cases hbuild
      · rw [if_neg hseen] at hbuild
        obtain ⟨r, hr, hbehind⟩ := bind_eq_ok.1 hbuild
        obtain ⟨rest, hrest, heq⟩ := bind_eq_ok.1 hbehind
        cases heq
        obtain ⟨r', hr', halike⟩ := hd.build hr
        obtain ⟨rest', hrest', htail⟩ := ih hrest
        refine ⟨r' :: rest', ?_, .cons halike htail⟩
        -- The ids are the same, so none is used twice among the new definitions either.
        rw [hd.id, if_neg hseen, hr', hrest']
        rfl

theorem RuleSet.build_replaced {ds ds' : List RuleDefinition}
    (h : List.Forall₂ RuleDefinition.Replaceable ds ds') {rules : RuleSet}
    (hbuild : RuleSet.build ds = .ok rules) :
    ∃ rules', RuleSet.build ds' = .ok rules' ∧
      List.Forall₂ Rule.Alike rules.rules rules'.rules := by
  unfold RuleSet.build at hbuild ⊢
  cases hrules : RuleSet.buildAfter [] ds with
  | error e =>
      rw [hrules] at hbuild
      cases hbuild
  | ok rs =>
      rw [hrules] at hbuild
      cases hbuild
      obtain ⟨rs', hrs', halike⟩ := RuleSet.buildAfter_replaced h hrules
      exact ⟨⟨rs'⟩, by rw [hrs']; rfl, halike⟩

/--
Texts that compile make up the braced text of the choice of their patterns.  The
rule of some alternatives matches a node exactly when the rule of their braced text
does, and a rule set finds the same when any of its definitions are written so.
-/
theorem braced_alternatives :
    (∀ {texts : List String} {ps : List Pattern}, texts ≠ [] →
      List.Forall₂ (fun text p => Pattern.compile text = .ok p) texts ps →
        Pattern.compile (Pattern.bracedText texts) = .ok (.oneOf ps)) ∧
      (∀ {d : RuleDefinition} {r : Rule}, Rule.build d = .ok r →
        Rule.build d.braced = .ok r.braced ∧
          (∀ n, (r.braced.firstMatch? n).isSome = (r.firstMatch? n).isSome) ∧
          ∀ before after root outcomes,
            findings ⟨before ++ r.braced :: after⟩ root outcomes =
              findings ⟨before ++ r :: after⟩ root outcomes) ∧
      ∀ {ds ds' : List RuleDefinition} {rules : RuleSet},
        List.Forall₂ (fun d d' => d' = d ∨ d' = d.braced) ds ds' →
          RuleSet.build ds = .ok rules →
            ∃ rules', RuleSet.build ds' = .ok rules' ∧
              ∀ root outcomes, findings rules' root outcomes = findings rules root outcomes := by
  refine ⟨Pattern.compile_bracedText, fun {d r} hr => ?_, fun {ds ds' rules} hds hrules => ?_⟩
  · refine ⟨Rule.build_braced hr, r.alike_braced.matched, fun before after root outcomes => ?_⟩
    have hrefl : ∀ rs, List.Forall₂ Rule.Alike rs rs :=
      fun rs => List.forall₂_same.2 fun r _ => .refl r
    have halike : List.Forall₂ Rule.Alike (before ++ r :: after) (before ++ r.braced :: after) :=
      List.rel_append (hrefl before) (.cons r.alike_braced (hrefl after))
    exact findings_congr halike root outcomes
  · have hreplaceable : List.Forall₂ RuleDefinition.Replaceable ds ds' := by
      refine hds.imp fun d d' hd => ?_
      rcases hd with rfl | rfl
      · exact ⟨rfl, fun {r} hr => ⟨r, hr, .refl r⟩⟩
      · exact ⟨rfl, fun {r} hr => ⟨r.braced, Rule.build_braced hr, r.alike_braced⟩⟩
    obtain ⟨rules', hbuild, halike⟩ := RuleSet.build_replaced hreplaceable hrules
    exact ⟨rules', hbuild, findings_congr halike⟩

/-- Alternatives that begin and end with blanks, with a number and with a choice of their own. -/
def looseAlternatives : RuleDefinition where
  id := "loose"
  pattern := .many ["call( a,...) ", "!-7", " ^(b|\x7bc\x7d)"]
  message := "found"

theorem findings_looseAlternatives :
    Pattern.compile "\x7bcall( a,...)  | !-7 |  ^(b|\x7bc\x7d)\x7d" = .ok (.oneOf
        [.node "call" [.kind "a"] .atLeast, .not (.literal (.integer (-7))),
          .anywhere (.oneOf [.kind "b", .oneOf [.kind "c"]])]) ∧
      (∃ r : Rule, Rule.build looseAlternatives = .ok r ∧
        Rule.build looseAlternatives.braced = .ok r.braced ∧
        ∀ n, (r.braced.firstMatch? n).isSome = (r.firstMatch? n).isSome) ∧
      ∃ rules rules', RuleSet.build [looseAlternatives] = .ok rules ∧
        RuleSet.build [looseAlternatives.braced] = .ok rules' ∧
        ∀ root outcomes, findings rules' root outcomes = findings rules root outcomes := by
  obtain ⟨htext, hrule, hset⟩ := @braced_alternatives
  obtain ⟨r, hr⟩ : ∃ r, Rule.build looseAlternatives = .ok r :=
    exists_eq_ok (by decide +kernel)
  obtain ⟨rules, hrules⟩ : ∃ rules, RuleSet.build [looseAlternatives] = .ok rules :=
    exists_eq_ok (by decide +kernel)
  obtain ⟨rules', hrules', hsame⟩ := hset (.cons (.inr rfl) .nil) hrules
  refine ⟨?_, ⟨r, hr, (hrule hr).1, (hrule hr).2.1⟩, rules, rules', hrules, hrules', hsame⟩
  exact @htext ["call( a,...) ", "!-7", " ^(b|\x7bc\x7d)"] _ (by simp)
    (.cons (by decide +kernel) (.cons (by decide +kernel) (.cons (by decide +kernel) .nil)))

end TreeLint
