import Mathlib.Data.List.Sigma
import TreeLint.Proofs.Syntax.Preorder
import TreeLint.Report.Basic

/-!
# The schedule of an analysis

An analysis tries rules on nodes.  The schedule lists these tests as plain nested
loops: scripts in the order of their registration, nodes in pre-order, rules in
the order of the rule set.  Every state of the resumable issue stream stands for
the part of the schedule that is still to come, and each call takes tests from the
front of it, up to the first that finds an issue.
-/

namespace TreeLint

/-! ## Tests -/

/-- A rule tried on a node of a script. -/
structure Test where
  script : Script
  node : Node
  rule : Rule

/-- The issue that a test finds: the first pattern of the rule that matches the node. -/
def Test.issue? (t : Test) : Option Issue :=
  (t.rule.patterns.find? (·.accepts t.node)).map fun p => ⟨t.script, t.rule, p, t.node⟩

def admittedRules (rules : RuleSet) (root : ProjectRoot) (script : Script) : List Rule :=
  rules.rules.filter (·.admits (root.relative script.path))

def testsOn (script : Script) (rules : List Rule) (nodes : List Node) : List Test :=
  nodes.flatMap fun n => rules.map fun r => ⟨script, n, r⟩

def schedule (rules : RuleSet) (root : ProjectRoot) (scripts : List Script) : List Test :=
  scripts.flatMap fun script =>
    testsOn script (admittedRules rules root script) script.root.nodes

theorem testsOn_cons (script : Script) (rules : List Rule) (n : Node) (ns : List Node) :
    testsOn script rules (n :: ns) =
      (rules.map fun r => ⟨script, n, r⟩) ++ testsOn script rules ns :=
  List.flatMap_cons

theorem schedule_cons (rules : RuleSet) (root : ProjectRoot) (script : Script)
    (scripts : List Script) :
    schedule rules root (script :: scripts) =
      testsOn script (admittedRules rules root script) script.root.nodes ++
        schedule rules root scripts :=
  List.flatMap_cons

/-- Tests were made from the front of a list, and the last of them found an issue. -/
def FirstHit (tests : List Test) (issue : Issue) (rest : List Test) : Prop :=
  ∃ front t, tests = front ++ t :: rest ∧ (∀ u ∈ front, u.issue? = none) ∧ t.issue? = some issue

theorem FirstHit.append {tests rest : List Test} {issue : Issue} (h : FirstHit tests issue rest)
    (more : List Test) : FirstHit (tests ++ more) issue (rest ++ more) := by
  obtain ⟨front, t, rfl, hfront, ht⟩ := h
  exact ⟨front, t, by simp, hfront, ht⟩

theorem FirstHit.prepend {tests rest : List Test} {issue : Issue} (h : FirstHit tests issue rest)
    (front : List Test) (hfront : ∀ u ∈ front, u.issue? = none) :
    FirstHit (front ++ tests) issue rest := by
  obtain ⟨front', t, rfl, hfront', ht⟩ := h
  refine ⟨front ++ front', t, by simp, fun u hu => ?_, ht⟩
  rcases List.mem_append.1 hu with hu | hu
  · exact hfront u hu
  · exact hfront' u hu

/-! ## The walk of one script -/

namespace Walk

def tests (w : Walk) : List Test :=
  match w.focus with
  | none => testsOn w.script w.admitted (w.pending.flatMap Node.nodes)
  | some (n, untried) =>
      (untried.map fun r => ⟨w.script, n, r⟩) ++
        testsOn w.script w.admitted ((n.childNodes ++ w.pending).flatMap Node.nodes)

theorem tests_start (script : Script) (rules : List Rule) :
    (start script rules).tests = testsOn script rules script.root.nodes := by
  simp [start, tests]

/-- Entering a node changes nothing about the tests to come. -/
theorem tests_enter (script : Script) (admitted : List Rule) (n : Node) (pending : List Node) :
    (⟨script, admitted, n :: pending, none⟩ : Walk).tests =
      (⟨script, admitted, pending, some (n, admitted)⟩ : Walk).tests := by
  simp only [tests, List.flatMap_cons, List.flatMap_append, n.nodes_eq, List.cons_append,
    testsOn_cons]

theorem tryRules_some {script : Script} {n : Node} {untried rest : List Rule} {issue : Issue}
    (h : tryRules script n untried = some (issue, rest)) :
    FirstHit (untried.map fun r => ⟨script, n, r⟩) issue (rest.map fun r => ⟨script, n, r⟩) := by
  induction untried with
  | nil => simp [tryRules] at h
  | cons r rs ih =>
      unfold tryRules at h
      split at h
      · rename_i p hp
        simp only [Option.some.injEq, Prod.mk.injEq] at h
        obtain ⟨rfl, rfl⟩ := h
        refine ⟨[], ⟨script, n, r⟩, rfl, by simp, ?_⟩
        simpa [Test.issue?, Rule.firstMatch?] using hp
      · rename_i hp
        refine (ih h).prepend [⟨script, n, r⟩] ?_
        simpa [Test.issue?, Rule.firstMatch?] using hp

theorem tryRules_none {script : Script} {n : Node} {untried : List Rule}
    (h : tryRules script n untried = none) :
    ∀ t ∈ untried.map fun r => (⟨script, n, r⟩ : Test), t.issue? = none := by
  induction untried with
  | nil => simp
  | cons r rs ih =>
      unfold tryRules at h
      split at h
      · simp at h
      · rename_i hp
        intro t ht
        rcases List.mem_cons.1 ht with rfl | ht
        · simpa [Test.issue?, Rule.firstMatch?] using hp
        · exact ih h t ht

/-- A walk takes its tests in order up to the first that finds an issue. -/
theorem next?_some {w w' : Walk} {issue : Issue} (h : w.next? = some (issue, w')) :
    FirstHit w.tests issue w'.tests := by
  -- Follows the walk: rules that find nothing are tests made in vain, entering a node makes none.
  fun_induction next? w with
  | case1 script admitted pending n untried issue' rest htry =>
      simp only [Option.some.injEq, Prod.mk.injEq] at h
      obtain ⟨rfl, rfl⟩ := h
      exact (tryRules_some htry).append _
  | case2 script admitted pending n untried htry ih =>
      exact (ih h).prepend _ (tryRules_none htry)
  | case3 => simp at h
  | case4 script admitted n pending ih =>
      rw [tests_enter]
      exact ih h

theorem next?_none {w : Walk} (h : w.next? = none) : ∀ t ∈ w.tests, t.issue? = none := by
  fun_induction next? w with
  | case1 => simp at h
  | case2 script admitted pending n untried htry ih =>
      intro t ht
      rcases List.mem_append.1 ht with ht | ht
      · exact tryRules_none htry t ht
      · exact ih h t ht
  | case3 => simp [tests, testsOn]
  | case4 script admitted n pending ih =>
      rw [tests_enter]
      exact ih h

end Walk

/-! ## The stream of all scripts -/

namespace IssueStream

def tests (s : IssueStream) : List Test :=
  s.current.elim [] Walk.tests ++
    schedule s.rules s.root (s.remaining.filterMap Registration.script?)

theorem tests_walkOf (rules : RuleSet) (root : ProjectRoot) (script : Script) :
    (walkOf rules root script).tests =
      testsOn script (admittedRules rules root script) script.root.nodes :=
  Walk.tests_start script _

theorem nextScript_some {rules : RuleSet} {root : ProjectRoot} {rs : List Registration}
    {issue : Issue} {s : IssueStream} (h : nextScript rules root rs = (some issue, s)) :
    FirstHit (schedule rules root (rs.filterMap Registration.script?)) issue s.tests := by
  induction rs with
  | nil => simp [nextScript] at h
  | cons r rs ih =>
      cases r with
      | failed path e => exact ih (by simpa [nextScript] using h)
      | loaded script =>
          unfold nextScript at h
          split at h
          · rename_i issue' walk hwalk
            simp only [Prod.mk.injEq, Option.some.injEq] at h
            obtain ⟨rfl, rfl⟩ := h
            have hfound := Walk.next?_some hwalk
            rw [tests_walkOf] at hfound
            exact hfound.append _
          · rename_i hnone
            have hfail := Walk.next?_none hnone
            rw [tests_walkOf] at hfail
            exact (ih h).prepend _ hfail

theorem nextScript_none {rules : RuleSet} {root : ProjectRoot} {rs : List Registration}
    {s : IssueStream} (h : nextScript rules root rs = (none, s)) :
    (∀ t ∈ schedule rules root (rs.filterMap Registration.script?), t.issue? = none) ∧
      s.tests = [] := by
  induction rs with
  | nil =>
      simp only [nextScript, Prod.mk.injEq, true_and] at h
      subst h
      exact ⟨by simp [schedule], rfl⟩
  | cons r rs ih =>
      cases r with
      | failed path e => exact ih (by simpa [nextScript] using h)
      | loaded script =>
          unfold nextScript at h
          split at h
          · simp at h
          · rename_i hnone
            have hfail := Walk.next?_none hnone
            rw [tests_walkOf] at hfail
            obtain ⟨hrest, hs⟩ := ih h
            refine ⟨fun t ht => ?_, hs⟩
            rcases List.mem_append.1 ht with ht | ht
            · exact hfail t ht
            · exact hrest t ht

/-- One call takes tests from the front, up to the first that finds an issue. -/
theorem next_some {s s' : IssueStream} {issue : Issue} (h : s.next = (some issue, s')) :
    FirstHit s.tests issue s'.tests := by
  unfold next at h
  split at h
  · rename_i issue' walk hwalk
    simp only [Prod.mk.injEq, Option.some.injEq] at h
    obtain ⟨rfl, rfl⟩ := h
    obtain ⟨w, hw, hnext⟩ := Option.bind_eq_some_iff.1 hwalk
    rw [tests, hw]
    exact (Walk.next?_some hnext).append _
  · rename_i hnone
    refine (nextScript_some h).prepend _ ?_
    cases hw : s.current with
    | none => simp
    | some w => exact Walk.next?_none (by simpa [hw] using hnone)

/-- A call that finds nothing makes all tests that are left. -/
theorem next_none {s s' : IssueStream} (h : s.next = (none, s')) :
    (∀ t ∈ s.tests, t.issue? = none) ∧ s'.tests = [] := by
  unfold next at h
  split at h
  · simp at h
  · rename_i hnone
    obtain ⟨hrest, hs'⟩ := nextScript_none h
    refine ⟨fun t ht => ?_, hs'⟩
    rcases List.mem_append.1 ht with ht | ht
    · cases hw : s.current with
      | none => simp [hw] at ht
      | some w =>
          rw [hw] at ht hnone
          exact Walk.next?_none hnone t ht
    · exact hrest t ht

def pendingIssues (s : IssueStream) : List Issue :=
  s.tests.filterMap Test.issue?

/-- One call makes tests from the front, and they find what the call reports. -/
theorem next_tests (s : IssueStream) :
    ∃ made, s.tests = made ++ s.next.2.tests ∧
      made.filterMap Test.issue? = s.next.1.toList ∧ (s.next.1 = none → s.next.2.tests = []) := by
  rcases hnext : s.next with ⟨_ | issue, s'⟩
  · obtain ⟨hfail, hs'⟩ := next_none hnext
    exact ⟨s.tests, by simp [hs'], by simpa using hfail, fun _ => hs'⟩
  · obtain ⟨front, t, htests, hfront, ht⟩ := next_some hnext
    have hnil : front.filterMap Test.issue? = [] := List.filterMap_eq_nil_iff.2 hfront
    exact ⟨front ++ [t], by simp [htests], by simp [hnil, ht], by simp⟩

/-- One call reports the first of the pending issues and leaves the others. -/
theorem next_pendingIssues (s : IssueStream) :
    s.next.1 = s.pendingIssues.head? ∧ s.next.2.pendingIssues = s.pendingIssues.tail := by
  obtain ⟨made, htests, hmade, hnone⟩ := s.next_tests
  have hsplit : s.pendingIssues = s.next.1.toList ++ s.next.2.pendingIssues := by
    rw [pendingIssues, htests, List.filterMap_append, hmade, pendingIssues]
  cases hanswer : s.next.1 with
  | some issue => simp [hsplit, hanswer]
  | none =>
      have hrest : s.next.2.pendingIssues = [] := by rw [pendingIssues, hnone hanswer]; rfl
      simp [hsplit, hanswer, hrest]

def after : Nat → IssueStream → IssueStream
  | 0, s => s
  | k + 1, s => after k s.next.2

/-- The answer of the call that follows `k` other calls. -/
def answer (k : Nat) (s : IssueStream) : Option Issue :=
  (after k s).next.1

theorem pendingIssues_after (k : Nat) (s : IssueStream) :
    (s.after k).pendingIssues = s.pendingIssues.drop k := by
  induction k generalizing s with
  | zero => rfl
  | succ k ih => rw [after, ih, s.next_pendingIssues.2, List.drop_tail]

theorem answer_eq (k : Nat) (s : IssueStream) : s.answer k = s.pendingIssues[k]? := by
  rw [answer, (next_pendingIssues _).1, pendingIssues_after, List.head?_drop]

theorem take_eq (k : Nat) (s : IssueStream) : s.take k = s.pendingIssues.take k := by
  induction k generalizing s with
  | zero => rfl
  | succ k ih =>
      have hstep := s.next_pendingIssues
      rw [take]
      split
      · rename_i issue rest hnext
        rw [hnext] at hstep
        rw [ih, hstep.2, ← List.cons_head?_tail hstep.1.symm]
        rfl
      · rename_i rest hnext
        rw [hnext] at hstep
        rw [List.head?_eq_none_iff.1 hstep.1.symm, List.take_nil]

theorem toList_eq (s : IssueStream) : s.toList = s.pendingIssues := by
  fun_induction toList s with
  | case1 s issue rest hnext _ ih =>
      have hstep := s.next_pendingIssues
      rw [hnext] at hstep
      rw [ih, hstep.2]
      exact List.cons_head?_tail hstep.1.symm
  | case2 s rest hnext =>
      have hstep := s.next_pendingIssues
      rw [hnext] at hstep
      exact (List.head?_eq_none_iff.1 hstep.1.symm).symm

/-- Any number of calls make a first part of the tests, and no test is made twice. -/
theorem tests_after (k : Nat) (s : IssueStream) :
    ∃ made, s.tests = made ++ (s.after k).tests ∧
      made.filterMap Test.issue? = s.pendingIssues.take k := by
  induction k generalizing s with
  | zero => exact ⟨[], rfl, rfl⟩
  | succ k ih =>
      obtain ⟨made, htests, hmade, -⟩ := s.next_tests
      obtain ⟨made', htests', hmade'⟩ := ih s.next.2
      obtain ⟨hhead, htail⟩ := s.next_pendingIssues
      refine ⟨made ++ made', by rw [htests, htests', List.append_assoc, after], ?_⟩
      rw [List.filterMap_append, hmade, hmade', htail, hhead]
      cases s.pendingIssues <;> simp

end IssueStream

/-! ## Registered outcomes -/

namespace Analysis

theorem tests_run (a : Analysis) : a.run.tests = schedule a.rules a.root a.scripts :=
  rfl

theorem scripts_registerAll (a : Analysis) (outcomes : List (String × Except ScriptError Script)) :
    (a.registerAll outcomes).1.scripts = a.scripts ++ outcomes.filterMap (·.2.toOption) := by
  have hscript : ∀ o : String × Except ScriptError Script,
      (Registration.ofOutcome o.1 o.2).script? = o.2.toOption := by
    rintro ⟨path, _ | script⟩ <;> rfl
  simp only [scripts, registrations_registerAll, List.filterMap_append, List.filterMap_map,
    Function.comp_def, hscript]

theorem run_registerAll (a : Analysis) (outcomes : List (String × Except ScriptError Script)) :
    (a.registerAll outcomes).1.run.tests =
      a.run.tests ++ schedule a.rules a.root (outcomes.filterMap (·.2.toOption)) := by
  simp only [tests_run, scripts_registerAll, registerAll_rules, registerAll_root, schedule,
    List.flatMap_append]

end Analysis

/-! ## Places of tests -/

/-- Where a test is made: number of the script, path of the node, number of the rule. -/
structure Place where
  script : Nat
  path : List Nat
  rule : Nat
deriving DecidableEq, Repr

def placedSchedule (rules : RuleSet) (root : ProjectRoot) (scripts : List Script) :
    List (Place × Test) :=
  scripts.zipIdx.flatMap fun s =>
    s.1.root.slot.placed.flatMap fun p =>
      (rules.rules.zipIdx.filter fun r => r.1.admits (root.relative s.1.path)).map fun r =>
        (⟨s.2, p.1, r.2⟩, ⟨s.1, p.2, r.1⟩)

variable {rules : RuleSet} {root : ProjectRoot} {scripts : List Script}

theorem placedSchedule_map_snd :
    (placedSchedule rules root scripts).map Prod.snd = schedule rules root scripts := by
  have hrules : ∀ (script : Script) (n : Node),
      (rules.rules.zipIdx.filter fun r => r.1.admits (root.relative script.path)).map
          (fun r => (⟨script, n, r.1⟩ : Test)) =
        (admittedRules rules root script).map fun r => ⟨script, n, r⟩ := by
    intro script n
    rw [admittedRules]
    conv_rhs => rw [← List.zipIdx_map_fst 0 rules.rules]
    rw [List.filter_map, List.map_map]
    rfl
  have hnodes : ∀ script : Script,
      (script.root.slot.placed.flatMap fun p =>
          (admittedRules rules root script).map fun r => (⟨script, p.2, r⟩ : Test)) =
        testsOn script (admittedRules rules root script) script.root.nodes := by
    intro script
    rw [Node.nodes, ← Slot.placed_map_snd, testsOn, List.flatMap_map]
  simp only [placedSchedule, List.map_flatMap, List.map_map, Function.comp_def, hrules, hnodes]
  rw [schedule]
  conv_rhs => rw [← List.zipIdx_map_fst 0 scripts]
  rw [List.flatMap_map]

/-- A test is made at every node for every rule that applies, and nowhere else. -/
theorem mem_placedSchedule {place : Place} {t : Test} :
    (place, t) ∈ placedSchedule rules root scripts ↔
      scripts[place.script]? = some t.script ∧
        t.script.root.slot.at? place.path = some t.node.slot ∧
          rules.rules[place.rule]? = some t.rule ∧
            t.rule.admits (root.relative t.script.path) = true := by
  simp only [placedSchedule, List.mem_flatMap, List.mem_map, List.mem_filter,
    List.mem_zipIdx_iff_getElem?]
  constructor
  · rintro ⟨⟨script, i⟩, hscript, ⟨path, n⟩, hpath, ⟨rule, k⟩, ⟨hrule, hadmits⟩, heq⟩
    cases heq
    exact ⟨hscript, Slot.mem_placed.1 hpath, hrule, hadmits⟩
  · rintro ⟨hscript, hpath, hrule, hadmits⟩
    exact ⟨(t.script, place.script), hscript, (place.path, t.node), Slot.mem_placed.2 hpath,
      (t.rule, place.rule), ⟨hrule, hadmits⟩, rfl⟩

/-- Lists that carry different keys have no element in common. -/
theorem nodup_flatMap_of_key {α β κ : Type} {l : List α} {f : α → List β} {key : α → κ}
    (tag : β → κ) (hkeys : (l.map key).Nodup) (hf : ∀ x ∈ l, (f x).Nodup)
    (htag : ∀ x, ∀ y ∈ f x, tag y = key x) : (l.flatMap f).Nodup := by
  refine List.nodup_flatMap.2 ⟨hf, (List.pairwise_map.1 hkeys).imp ?_⟩
  intro a b hne y ha hb
  exact hne ((htag a y ha).symm.trans (htag b y hb))

theorem placedSchedule_nodup :
    ((placedSchedule rules root scripts).map Prod.fst).Nodup := by
  simp only [placedSchedule, List.map_flatMap, List.map_map, Function.comp_def]
  refine nodup_flatMap_of_key Place.script (List.nodup_zipIdx_map_snd scripts) ?_ ?_
  · intro s _
    refine nodup_flatMap_of_key Place.path (Slot.placed_nodup _) ?_ ?_
    · intro p _
      have hrules := ((List.filter_sublist (p := fun r : Rule × Nat =>
        r.1.admits (root.relative s.1.path))).map Prod.snd).nodup
          (List.nodup_zipIdx_map_snd rules.rules)
      have hinj : Function.Injective fun k => (⟨s.2, p.1, k⟩ : Place) := by
        intro k k' heq
        cases heq
        rfl
      simpa [List.map_map, Function.comp_def] using hrules.map hinj
    · intro p place hplace
      obtain ⟨r, -, rfl⟩ := List.mem_map.1 hplace
      rfl
  · intro s place hplace
    obtain ⟨p, -, hplace⟩ := List.mem_flatMap.1 hplace
    obtain ⟨r, -, rfl⟩ := List.mem_map.1 hplace
    rfl

/-! ## The issue stream is the nested loop -/

/--
The issues of a run are those of the nested loops, whether they are collected, taken up to
a number or asked for one by one; after any number of calls a first part of the tests has
been made, and every test has its own place.
-/
theorem run_eq_nested_loops (rules : RuleSet) (root : ProjectRoot)
    (outcomes : List (String × Except ScriptError Script)) :
    let stream := ((Analysis.start rules root).registerAll outcomes).1.run
    let scripts := outcomes.filterMap (·.2.toOption)
    let tests := schedule rules root scripts
    let issues := tests.filterMap Test.issue?
    stream.toList = issues ∧
      (∀ k, stream.take k = issues.take k) ∧
      (∀ k, stream.answer k = issues[k]?) ∧
      (∀ k, ∃ made, tests = made ++ (stream.after k).tests ∧
        made.filterMap Test.issue? = issues.take k) ∧
      (placedSchedule rules root scripts).map Prod.snd = tests ∧
      ((placedSchedule rules root scripts).map Prod.fst).Nodup ∧
      ∀ place t, (place, t) ∈ placedSchedule rules root scripts ↔
        scripts[place.script]? = some t.script ∧
          t.script.root.slot.at? place.path = some t.node.slot ∧
            rules.rules[place.rule]? = some t.rule ∧
              t.rule.admits (root.relative t.script.path) = true := by
  intro stream scripts tests issues
  have htests : stream.tests = tests :=
    Analysis.run_registerAll (Analysis.start rules root) outcomes
  have hissues : stream.pendingIssues = issues := by rw [IssueStream.pendingIssues, htests]
  refine ⟨?_, fun k => ?_, fun k => ?_, fun k => ?_, placedSchedule_map_snd,
    placedSchedule_nodup, fun place t => mem_placedSchedule⟩
  · rw [stream.toList_eq, hissues]
  · rw [stream.take_eq, hissues]
  · rw [stream.answer_eq, hissues]
  · rw [← htests, ← hissues]
    exact stream.tests_after k

end TreeLint
