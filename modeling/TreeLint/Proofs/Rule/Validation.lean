import TreeLint.Rule.Basic

/-!
# Validating and building agree

Definitions are checked in two ways: building stops at the first problem, and
validating lists them all.  Both go through the same checks in the same order, so
a build fails exactly with the head of the list.
-/

namespace TreeLint

section Stopping

variable {ε α β : Type}

/-- A success if there are no problems, and otherwise the failure with the first of them. -/
def StopsAt (result : Except ε α) : List ε → Prop
  | [] => ∃ a, result = .ok a
  | e :: _ => result = .error e

theorem StopsAt.ok (a : α) : StopsAt (.ok a : Except ε α) [] :=
  ⟨a, rfl⟩

/-- One check behind another: the problems of the second count only if the first passes. -/
theorem StopsAt.bind {x : Except ε α} {f : α → Except ε β} {first second : List ε}
    (hx : StopsAt x first) (hf : ∀ a, StopsAt (f a) second) :
    StopsAt (x >>= f) (first ++ second) := by
  cases first with
  | nil =>
      obtain ⟨a, rfl⟩ := hx
      exact hf a
  | cons e rest =>
      have hfail : x = .error e := hx
      rw [hfail]
      exact rfl

theorem StopsAt.ok_iff {result : Except ε α} {problems : List ε} (h : StopsAt result problems) :
    (∃ a, result = .ok a) ↔ problems = [] := by
  cases problems with
  | nil => exact iff_of_true h rfl
  | cons e rest =>
      have hfail : result = .error e := h
      simp [hfail]

theorem StopsAt.error_iff {result : Except ε α} {problems : List ε} (h : StopsAt result problems)
    (e : ε) : result = .error e ↔ problems.head? = some e := by
  cases problems with
  | nil =>
      obtain ⟨a, rfl⟩ := h
      simp
  | cons first rest =>
      have hfail : result = .error first := h
      simp [hfail]

/-- A loop that stops at the first failure, against the list of all failures. -/
theorem stopsAt_mapM {f : α → Except ε β} {problem? : α → Option ε}
    (hstep : ∀ x, StopsAt (f x) (problem? x).toList) (xs : List α) :
    StopsAt (xs.mapM f) (xs.filterMap problem?) := by
  induction xs with
  | nil => exact .ok []
  | cons x xs ih =>
      have hsplit : (x :: xs).filterMap problem? =
          (problem? x).toList ++ (xs.filterMap problem? ++ []) := by
        cases hx : problem? x <;> simp [hx]
      rw [List.mapM_cons, hsplit]
      exact (hstep x).bind fun b => ih.bind fun bs => .ok (b :: bs)

end Stopping

/-! ## Path filters -/

namespace PathFilter

theorem parseGlobs_eq_mapM (owner : String) (texts : List String) :
    parseGlobs owner texts =
      texts.mapM fun text => (Glob.parse text).mapError (.invalidGlob owner text) := by
  induction texts with
  | nil => rfl
  | cons text rest ih =>
      rw [parseGlobs, List.mapM_cons, ← ih]
      cases Glob.parse text with
      | error cause => rfl
      | ok g => cases parseGlobs owner rest <;> rfl

theorem parseGlobs_stopsAt (owner : String) (texts : List String) :
    StopsAt (parseGlobs owner texts) (texts.filterMap (globProblem? owner)) := by
  rw [parseGlobs_eq_mapM]
  refine stopsAt_mapM (fun text => ?_) texts
  unfold globProblem?
  cases Glob.parse text with
  | error cause => exact rfl
  | ok g => exact .ok g

theorem build_eq_bind (owner : String) (includeTexts excludeTexts : List String) :
    build owner includeTexts excludeTexts =
      parseGlobs owner includeTexts >>= fun included =>
        parseGlobs owner excludeTexts >>= fun excluded => .ok ⟨included, excluded⟩ := by
  rw [build, globSet_eq_parseGlobs, globSet_eq_parseGlobs]
  cases parseGlobs owner includeTexts with
  | error e => rfl
  | ok included => cases parseGlobs owner excludeTexts <;> rfl

theorem build_stopsAt (owner : String) (includeTexts excludeTexts : List String) :
    StopsAt (build owner includeTexts excludeTexts) (problems owner includeTexts excludeTexts) := by
  have hbind := (parseGlobs_stopsAt owner includeTexts).bind fun included =>
    (parseGlobs_stopsAt owner excludeTexts).bind fun excluded =>
      .ok (⟨included, excluded⟩ : PathFilter)
  rw [List.append_nil, ← List.filterMap_append] at hbind
  rw [build_eq_bind]
  exact hbind

end PathFilter

/-! ## Rules -/

namespace Rule

theorem compileTexts_eq_mapM (owner : String) (texts : List String) :
    compileTexts owner texts =
      texts.mapM fun text => (SourcePattern.compile text).mapError (.pattern owner) := by
  induction texts with
  | nil => rfl
  | cons text rest ih =>
      rw [compileTexts, List.mapM_cons, ← ih]
      cases SourcePattern.compile text with
      | error e => rfl
      | ok p => cases compileTexts owner rest <;> rfl

theorem compileTexts_stopsAt (owner : String) (texts : List String) :
    StopsAt (compileTexts owner texts) (texts.filterMap (patternProblem? owner)) := by
  rw [compileTexts_eq_mapM]
  refine stopsAt_mapM (fun text => ?_) texts
  unfold patternProblem?
  cases SourcePattern.compile text with
  | error e => exact rfl
  | ok p => exact .ok p

theorem build_eq_bind (d : RuleDefinition) :
    build d =
      if d.pattern.toList.isEmpty then .error (.noPatterns d.id)
      else
        compileTexts d.id d.pattern.toList >>= fun patterns =>
          PathFilter.build d.id d.includes d.excludes >>= fun filter =>
            .ok ⟨d, patterns, filter⟩ := by
  simp only [build]
  cases compileTexts d.id d.pattern.toList with
  | error e => rfl
  | ok patterns => cases PathFilter.build d.id d.includes d.excludes <;> rfl

theorem build_stopsAt (d : RuleDefinition) : StopsAt (build d) (problems d) := by
  rw [build_eq_bind, problems]
  by_cases hempty : d.pattern.toList.isEmpty = true
  · -- Nothing else is looked at when there is no pattern.
    rw [if_pos hempty, if_pos hempty]
    exact rfl
  · have hbind := (compileTexts_stopsAt d.id d.pattern.toList).bind fun patterns =>
      (PathFilter.build_stopsAt d.id d.includes d.excludes).bind fun filter =>
        .ok (⟨d, patterns, filter⟩ : Rule)
    rw [List.append_nil] at hbind
    rw [if_neg hempty, if_neg hempty, List.nil_append]
    exact hbind

end Rule

namespace RuleSet

theorem buildAfter_cons (seen : List String) (d : RuleDefinition) (rest : List RuleDefinition) :
    buildAfter seen (d :: rest) =
      if seen.contains d.id then .error (.duplicateId d.id)
      else
        Rule.build d >>= fun rule =>
          buildAfter (d.id :: seen) rest >>= fun rules => .ok (rule :: rules) := by
  rw [buildAfter]
  cases Rule.build d with
  | error e => rfl
  | ok rule => cases buildAfter (d.id :: seen) rest <;> rfl

theorem buildAfter_stopsAt (seen : List String) (definitions : List RuleDefinition) :
    StopsAt (buildAfter seen definitions) (problemsAfter seen definitions) := by
  -- Both loops take the id of every definition along, a repeated one included.
  induction definitions generalizing seen with
  | nil => exact .ok []
  | cons d rest ih =>
      rw [buildAfter_cons, problemsAfter]
      by_cases hseen : seen.contains d.id = true
      · rw [if_pos hseen, if_pos hseen]
        exact rfl
      · have hbind := (Rule.build_stopsAt d).bind fun rule =>
          (ih (d.id :: seen)).bind fun rules => .ok (rule :: rules)
        rw [List.append_nil] at hbind
        rw [if_neg hseen, if_neg hseen, List.nil_append]
        exact hbind

theorem build_stopsAt (definitions : List RuleDefinition) :
    StopsAt (build definitions) (problems definitions) := by
  have hbind := (buildAfter_stopsAt [] definitions).bind fun rules => .ok (⟨rules⟩ : RuleSet)
  rw [List.append_nil] at hbind
  exact hbind

end RuleSet

/--
Building rules or a path filter succeeds exactly when validation finds no problem, and
otherwise fails with the first problem that validation finds.
-/
theorem build_stops_at_first_problem :
    (∀ definitions : List RuleDefinition,
      ((∃ rules, RuleSet.build definitions = .ok rules) ↔ RuleSet.problems definitions = []) ∧
        ∀ e, RuleSet.build definitions = .error e ↔
          (RuleSet.problems definitions).head? = some e) ∧
      ∀ (owner : String) (includeTexts excludeTexts : List String),
        ((∃ filter, PathFilter.build owner includeTexts excludeTexts = .ok filter) ↔
            PathFilter.problems owner includeTexts excludeTexts = []) ∧
          ∀ e, PathFilter.build owner includeTexts excludeTexts = .error e ↔
            (PathFilter.problems owner includeTexts excludeTexts).head? = some e := by
  refine ⟨fun definitions => ?_, fun owner includeTexts excludeTexts => ?_⟩
  · have hstops := RuleSet.build_stopsAt definitions
    exact ⟨hstops.ok_iff, hstops.error_iff⟩
  · have hstops := PathFilter.build_stopsAt owner includeTexts excludeTexts
    exact ⟨hstops.ok_iff, hstops.error_iff⟩

end TreeLint
