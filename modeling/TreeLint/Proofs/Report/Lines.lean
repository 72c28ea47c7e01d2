import TreeLint.Proofs.Number.Digits
import TreeLint.Proofs.Pattern.Canonicalization
import TreeLint.Proofs.Report.Agreement
import TreeLint.Proofs.Rule.Selection
import TreeLint.Proofs.Syntax.Lines

/-!
# The lines of a text report

A record ends with a newline, and it is one line of the report if it holds no other.
Numbers and source lines hold none.  Paths, error texts, rule ids and rule messages are
written as they are, so the lines of a report are its records exactly if all of these
are free of newlines.
-/

namespace TreeLint

def Event.texts : Event → List String
  | .loaded _ => []
  | .failed path e => [path, e.message]
  | .found issue => [issue.script.path, issue.rule.definition.message, issue.rule.id]

def outcomeTexts : String × Except ScriptError Script → List String
  | (_, .ok script) => [script.path]
  | (path, .error e) => [path, e.message]

def newlines (text : String) : Nat :=
  text.toList.count '\n'

theorem newlines_append (a b : String) : newlines (a ++ b) = newlines a + newlines b := by
  rw [newlines, String.toList_append, List.count_append]
  rfl

theorem newlines_eq_zero {text : String} : newlines text = 0 ↔ '\n' ∉ text.toList :=
  List.count_eq_zero

theorem newlines_join_cons (text : String) (texts : List String) :
    newlines (String.join (text :: texts)) = newlines text + newlines (String.join texts) := by
  rw [String.join_cons, newlines_append]

theorem newlines_join_eq_zero {texts : List String} :
    newlines (String.join texts) = 0 ↔ ∀ text ∈ texts, '\n' ∉ text.toList := by
  induction texts with
  | nil => simp [newlines]
  | cons text texts ih =>
      rw [newlines_join_cons, Nat.add_eq_zero_iff, newlines_eq_zero, ih, List.forall_mem_cons]

/-! ## Lines of a text -/

theorem Text.length_pieces (separator : Char) (cs : List Char) :
    (pieces separator cs).length = cs.count separator + 1 := by
  rw [pieces_eq_splitOn, length_splitOn]

theorem Text.pieces_append_cons {separator : Char} {cs : List Char} (h : separator ∉ cs)
    (rest : List Char) :
    pieces separator (cs ++ separator :: rest) = cs :: pieces separator rest := by
  rw [pieces_eq_splitOn, pieces_eq_splitOn, List.splitOn_append_cons_self,
    List.splitOn_eq_singleton h]
  rfl

/-- Are these the lines of a text, with nothing behind the last newline? -/
def HasLines (text : String) (lines : List String) : Prop :=
  Text.pieces '\n' text.toList = lines.map String.toList ++ [[]]

theorem newlines_endLines (records : List String) :
    newlines (String.join (records.map endLine)) =
      records.length + newlines (String.join records) := by
  induction records with
  | nil => rfl
  | cons record records ih =>
      have hend : newlines (endLine record) = newlines record + 1 := newlines_append record "\n"
      rw [List.map_cons, newlines_join_cons, newlines_join_cons, ih, hend, List.length_cons]
      omega

theorem hasLines_endLines {records : List String} (h : ∀ record ∈ records, '\n' ∉ record.toList) :
    HasLines (String.join (records.map endLine)) records := by
  induction records with
  | nil => rfl
  | cons record records ih =>
      obtain ⟨hrecord, hrecords⟩ := List.forall_mem_cons.1 h
      have hchars : (String.join ((record :: records).map endLine)).toList =
          record.toList ++ '\n' :: (String.join (records.map endLine)).toList := by
        simp [endLine]
      rw [HasLines, hchars, Text.pieces_append_cons hrecord, ih hrecords]
      rfl

theorem HasLines.newlines_eq {text : String} {lines : List String} (h : HasLines text lines) :
    newlines text = lines.length := by
  have hlength := congrArg List.length h
  rw [Text.length_pieces, List.length_append, List.length_map, List.length_singleton] at hlength
  exact Nat.succ.inj hlength

/-- Records are the lines of the text that they make up if none of them holds a newline. -/
theorem hasLines_endLines_iff {records : List String} :
    HasLines (String.join (records.map endLine)) records ↔
      newlines (String.join records) = 0 := by
  refine ⟨fun h => ?_, fun h => hasLines_endLines (newlines_join_eq_zero.1 h)⟩
  have hcount := h.newlines_eq
  rw [newlines_endLines] at hcount
  omega

/-! ## Newlines of a record -/

theorem newlines_integer (n : Int) : newlines (Integer.text n) = 0 := by
  rw [newlines_eq_zero, Integer.text, String.toList_ofList, Integer.chars_eq, List.mem_append,
    not_or]
  refine ⟨by split <;> simp, fun hmem => ?_⟩
  exact Integer.ne_of_isDigit ((IsNumeral.toDigits _).isDigit _ hmem) (by decide) rfl

theorem newlines_sourceLine (i : Issue) : newlines i.sourceLine = 0 := by
  obtain ⟨line, hline, hreported⟩ := i.node.span.exists_line i.script.source
  rw [newlines_eq_zero, Issue.sourceLine, hreported]
  exact fun hmem => hline ((List.rdropWhile_prefix _ line).subset hmem)

theorem newlines_record {e : Event} {record : String} (h : e.record? = some record) :
    newlines record = newlines (String.join e.texts) := by
  have htab : newlines "\t" = 0 := rfl
  have hcolon : newlines ":" = 0 := rfl
  cases e with
  | loaded script => cases h
  | failed path error =>
      have hlabel : newlines "\terror: " = 0 := by decide
      cases h
      simp [Event.texts, newlines_append, hlabel]
  | found issue =>
      have hopen : newlines " (" = 0 := by decide
      have hclose : newlines ")" = 0 := by decide
      cases h
      simp [Event.texts, Issue.record, newlines_append, newlines_integer, newlines_sourceLine,
        htab, hcolon, hopen, hclose, Nat.add_assoc]

/-- An event without a record has no texts either. -/
theorem texts_of_record?_eq_none {e : Event} (h : e.record? = none) : e.texts = [] := by
  cases e with
  | loaded script => rfl
  | failed path error => cases h
  | found issue => cases h

theorem newlines_records (events : List Event) :
    newlines (String.join (events.filterMap Event.record?)) =
      newlines (String.join (events.flatMap Event.texts)) := by
  induction events with
  | nil => rfl
  | cons e events ih =>
      rw [List.filterMap_cons, List.flatMap_cons, String.join_append, newlines_append]
      cases hrecord : e.record? with
      | none =>
          rw [texts_of_record?_eq_none hrecord, ih]
          exact (Nat.zero_add _).symm
      | some record => rw [newlines_join_cons, ih, newlines_record hrecord]

/-! ## Where the texts come from -/

variable {rules : RuleSet} {root : ProjectRoot}

theorem mem_issues_registered {outcomes : List (String × Except ScriptError Script)} {i : Issue}
    (h : i ∈ (registered rules root outcomes).run.toList) :
    (∃ path, (path, .ok i.script) ∈ outcomes) ∧ i.rule ∈ rules.rules := by
  rw [issues_registered, List.mem_filterMap] at h
  obtain ⟨t, ht, hissue⟩ := h
  rw [schedule, List.mem_flatMap] at ht
  obtain ⟨script, hscript, ht⟩ := ht
  obtain ⟨node, -, ht⟩ := List.mem_flatMap.1 ht
  obtain ⟨r, hr, rfl⟩ := List.mem_map.1 ht
  obtain ⟨p, -, rfl⟩ := Option.map_eq_some_iff.1 hissue
  refine ⟨?_, List.mem_of_mem_filter hr⟩
  obtain ⟨⟨path, outcome⟩, hmem, hok⟩ := List.mem_filterMap.1 hscript
  cases outcome with
  | error e => cases hok
  | ok loaded =>
      cases hok
      exact ⟨path, hmem⟩

theorem texts_loadEvent_subset (o : String × Except ScriptError Script) :
    (loadEvent o).texts ⊆ outcomeTexts o := by
  obtain ⟨path, outcome⟩ := o
  cases outcome with
  | error e => exact List.Subset.refl _
  | ok script => exact List.nil_subset _

/-- What a report takes over stems from an outcome or from the definition of a rule. -/
theorem texts_runEvents {definitions : List RuleDefinition}
    (hbuild : RuleSet.build definitions = .ok rules)
    {outcomes : List (String × Except ScriptError Script)} {text : String}
    (h : text ∈ ((Analysis.start rules root).runEvents outcomes).flatMap Event.texts) :
    (∃ o ∈ outcomes, text ∈ outcomeTexts o) ∨
      ∃ d ∈ definitions, text = d.message ∨ text = d.id := by
  rw [runEvents_start, List.flatMap_append, List.mem_append, List.flatMap_map, List.flatMap_map,
    List.mem_flatMap, List.mem_flatMap] at h
  rcases h with ⟨o, ho, htext⟩ | ⟨i, hi, htext⟩
  · exact .inl ⟨o, ho, texts_loadEvent_subset o htext⟩
  · obtain ⟨⟨path, hscript⟩, hrule⟩ := mem_issues_registered hi
    obtain ⟨hdefinition, -⟩ := Rule.build_of_mem (RuleSet.build_eq_ok.1 hbuild).2 hrule
    simp only [Event.texts, List.mem_cons, List.not_mem_nil, or_false] at htext
    rcases htext with rfl | rfl | rfl
    · exact .inl ⟨_, hscript, List.mem_singleton_self _⟩
    · exact .inr ⟨_, hdefinition, .inl rfl⟩
    · exact .inr ⟨_, hdefinition, .inr rfl⟩

theorem length_records (outcomes : List (String × Except ScriptError Script)) :
    (((Analysis.start rules root).runEvents outcomes).filterMap Event.record?).length =
      (outcomes.filterMap failureOf?).length +
        (registered rules root outcomes).run.toList.length := by
  have hload : Event.record? ∘ loadEvent =
      fun o => (failureOf? o).map fun f => f.1 ++ "\terror: " ++ f.2.message :=
    funext record?_loadEvent
  have hfound : Event.record? ∘ Event.found = some ∘ Issue.record := rfl
  rw [runEvents_start, List.filterMap_append, List.filterMap_map, List.filterMap_map, hload, hfound,
    ← List.map_filterMap, List.filterMap_eq_map, List.length_append, List.length_map,
    List.length_map]

/--
A text report has a record for every failure and every issue.  It has a newline for each
of them and those that stand in paths, error texts, messages and ids.  Its lines are its
records exactly if none of these holds a newline, as is the case when none of the outcomes
and definitions does.
-/
theorem text_report_lines {definitions : List RuleDefinition} {rules : RuleSet}
    (hbuild : RuleSet.build definitions = .ok rules) (root : ProjectRoot)
    (outcomes : List (String × Except ScriptError Script)) :
    let events := (Analysis.start rules root).runEvents outcomes
    let records := events.filterMap Event.record?
    let report := CommandLine.report .text events
    records.length =
        (outcomes.filterMap failureOf?).length +
          (registered rules root outcomes).run.toList.length ∧
      newlines report = records.length + newlines (String.join (events.flatMap Event.texts)) ∧
      (HasLines report records ↔ ∀ e ∈ events, ∀ text ∈ e.texts, '\n' ∉ text.toList) ∧
      ((∀ d ∈ definitions, '\n' ∉ d.message.toList ∧ '\n' ∉ d.id.toList) →
        (∀ o ∈ outcomes, ∀ text ∈ outcomeTexts o, '\n' ∉ text.toList) →
          HasLines report records) := by
  intro events records report
  have hnewlines : newlines (String.join records) =
      newlines (String.join (events.flatMap Event.texts)) := newlines_records events
  have hlines : HasLines report records ↔ newlines (String.join records) = 0 :=
    hasLines_endLines_iff
  rw [hnewlines, newlines_join_eq_zero] at hlines
  refine ⟨length_records outcomes, ?_, ?_, fun hdefinitions houtcomes => hlines.2 fun text h => ?_⟩
  · rw [← hnewlines]
    exact newlines_endLines records
  · rw [hlines, List.forall_mem_flatMap]
  · rcases texts_runEvents hbuild h with ⟨o, ho, htext⟩ | ⟨d, hd, rfl | rfl⟩
    · exact houtcomes o ho text htext
    · exact (hdefinitions d hd).1
    · exact (hdefinitions d hd).2

/-! ## A message that ends with a newline -/

def callRule (message : String) : RuleDefinition where
  id := "no-call"
  pattern := .one "call"
  message := message

def callNode : Node :=
  ⟨"call", [], ⟨0, 3, ⟨0, 0⟩, ⟨0, 3⟩⟩⟩

def callScript : Script where
  path := "a.py"
  language := .python
  source := "f()\n"
  root := ⟨"module", [callNode.slot], ⟨0, 4, ⟨0, 0⟩, ⟨1, 0⟩⟩⟩

def callOutcomes : List (String × Except ScriptError Script) :=
  [("b.py", .error (.unreadable "gone")), ("a.py", .ok callScript)]

theorem records_callRule (message : String) :
    ∃ rules, RuleSet.build [callRule message] = .ok rules ∧
      ∀ root, ((Analysis.start rules root).runEvents callOutcomes).filterMap Event.record? =
        ["b.py\terror: failed to read script: gone",
          "a.py:1:1\tf()\t" ++ message ++ " (no-call)"] := by
  have hname : Pattern.IsName "call" :=
    ⟨⟨'c', ['a', 'l', 'l'], by decide, by decide, by simp⟩, by decide⟩
  have hcompile : Pattern.compile "call" = .ok (.kind "call") :=
    (Pattern.WellFormed.kind hname).compile_chars Text.isHidden
  let rule : Rule := ⟨callRule message, [⟨"call", .kind "call"⟩], .all⟩
  let issue : Issue := ⟨callScript, rule, ⟨"call", .kind "call"⟩, callNode⟩
  have hrule : Rule.build (callRule message) = .ok rule :=
    Rule.build_eq_ok.2 ⟨by simp [callRule, PatternTexts.toList], rfl,
      .cons (SourcePattern.compile_eq_ok.2 ⟨rfl, hcompile⟩) .nil, rfl⟩
  refine ⟨⟨[rule]⟩, RuleSet.build_eq_ok.2 ⟨List.nodup_singleton _, .cons hrule .nil⟩,
    fun root => ?_⟩
  have hissues : (registered ⟨[rule]⟩ root callOutcomes).run.toList = [issue] := by
    rw [issues_registered]
    rfl
  have hhead : callScript.path ++ ":" ++ Integer.text callNode.span.start.oneBased.1 ++ ":" ++
      Integer.text callNode.span.start.oneBased.2 ++ "\t" ++
      callNode.span.firstLine callScript.source ++ "\t" = "a.py:1:1\tf()\t" := by
    decide +kernel
  have htail : " (" ++ ("no-call" ++ ")") = " (no-call)" := by decide
  have hrecord : issue.record = "a.py:1:1\tf()\t" ++ message ++ " (no-call)" := by
    rw [← hhead, ← htail, ← String.append_assoc, ← String.append_assoc]
    rfl
  have hfailed : "b.py" ++ "\terror: " ++ ScriptError.message (.unreadable "gone") =
      "b.py\terror: failed to read script: gone" := by decide
  rw [runEvents_start, hissues, ← hrecord, ← hfailed]
  rfl

/-- A message on one line makes one line of the report. -/
theorem report_lines_plainMessage :
    ∃ rules, RuleSet.build [callRule "Do not call this"] = .ok rules ∧
      ∀ root, let events := (Analysis.start rules root).runEvents callOutcomes
        HasLines (CommandLine.report .text events)
          ["b.py\terror: failed to read script: gone",
            "a.py:1:1\tf()\tDo not call this (no-call)"] := by
  obtain ⟨rules, hbuild, hrecords⟩ := records_callRule "Do not call this"
  refine ⟨rules, hbuild, fun root => ?_⟩
  have hlines := (text_report_lines hbuild root callOutcomes).2.2.2 (by decide +kernel)
    (by decide +kernel)
  rw [hrecords root] at hlines
  exact hlines

/-- A message that ends with a newline, as a block of text does, makes two lines of one record. -/
theorem report_lines_blockMessage :
    ∃ rules, RuleSet.build [callRule "Do not call this\n"] = .ok rules ∧
      ∀ root, let events := (Analysis.start rules root).runEvents callOutcomes
        let records := events.filterMap Event.record?
        records.length = 2 ∧ newlines (CommandLine.report .text events) = 3 ∧
          ¬ HasLines (CommandLine.report .text events) records := by
  obtain ⟨rules, hbuild, hrecords⟩ := records_callRule "Do not call this\n"
  refine ⟨rules, hbuild, fun root => ?_⟩
  intro events records
  have hlength : records.length = 2 := congrArg List.length (hrecords root)
  have hnewlines : newlines (CommandLine.report .text events) = 3 := by
    rw [CommandLine.report, textReport, hrecords root]
    decide +kernel
  refine ⟨hlength, hnewlines, fun hlines => ?_⟩
  have hcount := hlines.newlines_eq
  omega

end TreeLint
