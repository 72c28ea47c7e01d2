import TreeLint.Proofs.Pattern.Compiling
import TreeLint.Proofs.Pattern.Scanning

/-!
# Canonical text compiles back

Every well-formed pattern is compiled back from its canonical text.  The text of
each part is scanned as tokens that denote the part, whatever delimiter stands
behind it, and tokens that denote a pattern parse to it.
-/

namespace TreeLint

/-- A value that pattern text can spell: every one but the infinities and NaN. -/
def Value.IsFinite : Value → Prop
  | .float x => x.isFinite = true
  | _ => True

namespace Pattern

/-! ## Well-formed patterns -/

/--
The name of a kind: a letter or underscore and then letters, digits and
underscores, and none of the words that are reserved.
-/
structure IsName (name : String) : Prop where
  letters : ∃ c cs, name.toList = c :: cs ∧ (c.isAlpha = true ∨ c = '_') ∧
    ∀ d ∈ cs, d.isAlphanum = true ∨ d = '_'
  unreserved : name ∉ ["_", "true", "false", "nil"]

/-- Kinds are names, floats are finite, and every choice has a member. -/
inductive WellFormed : Pattern → Prop
  | kind {name : String} (hname : IsName name) : WellFormed (.kind name)
  | any : WellFormed .any
  | literal {v : Value} (hfinite : v.IsFinite) : WellFormed (.literal v)
  | children {items : List Pattern} (hitems : ∀ p ∈ items, WellFormed p) (arity : Arity) :
      WellFormed (.children items arity)
  | node {k : String} (hname : IsName k) {items : List Pattern}
      (hitems : ∀ p ∈ items, WellFormed p) (arity : Arity) : WellFormed (.node k items arity)
  | oneOf {members : List Pattern} (hne : members ≠ []) (hmembers : ∀ p ∈ members, WellFormed p) :
      WellFormed (.oneOf members)
  | not {p : Pattern} (hp : WellFormed p) : WellFormed (.not p)
  | anywhere {p : Pattern} (hp : WellFormed p) : WellFormed (.anywhere p)

/-! ## The text of the parts -/

theorem lexes_name {name : String} (hname : IsName name) {rest : List Char}
    (hrest : Delimited rest) : Lexes (name.toList ++ rest) [.name name] rest := by
  obtain ⟨⟨c, cs, htext, hc, hcs⟩, hfree⟩ := hname
  have hstart : isWordStart c = true := by
    simp only [isWordStart, Bool.or_eq_true, beq_iff_eq]
    exact hc
  have hword : ∀ d ∈ cs, isWordChar d = true := by
    intro d hd
    simp only [isWordChar, Bool.or_eq_true, beq_iff_eq]
    exact hcs d hd
  have htoken : wordToken (String.ofList (c :: cs)) = .name name := by
    rw [← htext, String.ofList_toList]
    simp only [List.mem_cons, List.not_mem_nil, or_false, not_or] at hfree
    simp [wordToken, hfree]
  rw [htext, List.cons_append, ← htoken]
  exact lexes_word hstart hword hrest

theorem lexes_reserved {c : Char} {cs : List Char} {t : Token} (hc : isWordStart c = true)
    (hcs : cs.all isWordChar = true) (ht : wordToken (String.ofList (c :: cs)) = t)
    {rest : List Char} (hrest : Delimited rest) : Lexes (c :: cs ++ rest) [t] rest := by
  rw [← ht]
  exact lexes_word hc (List.all_eq_true.1 hcs) hrest

/-- A literal is scanned as one token that denotes it. -/
theorem lexes_literal (hidden : Char → Bool) {v : Value} (hfinite : v.IsFinite)
    {rest : List Char} (hrest : Delimited rest) :
    ∃ t, Lexes (v.chars hidden ++ rest) [t] rest ∧ DenotesPrimary [t] (.literal v) := by
  cases v with
  | integer n => exact ⟨_, lexes_integer n hrest, .integer n⟩
  | float x => exact ⟨_, lexes_float hfinite hrest, .float x⟩
  | boolean b =>
      cases b with
      | true => exact ⟨.true, lexes_reserved rfl (by decide) (by decide) hrest, .true⟩
      | false => exact ⟨.false, lexes_reserved rfl (by decide) (by decide) hrest, .false⟩
  | string s => exact ⟨_, lexes_quoteChars hidden s rest, .string s⟩
  | nil => exact ⟨.nil, lexes_reserved rfl (by decide) (by decide) hrest, .nil⟩

/-- In front of every delimiter, the text is scanned as tokens that denote the pattern. -/
def ReadsAs (text : List Char) (p : Pattern) : Prop :=
  ∀ rest, Delimited rest → ∃ ts, Lexes (text ++ rest) ts rest ∧ Denotes ts p

def Legible (hidden : Char → Bool) (p : Pattern) : Prop :=
  ReadsAs (p.chars hidden) p

/-- Texts that are separated by one token are read one by one. -/
theorem lexes_separated {separator : List Char} {t : Token}
    (hseparator : ∀ rest, Delimited (separator ++ rest) ∧ Lexes (separator ++ rest) [t] rest)
    {texts : List (List Char)} {items : List Pattern} (hne : items ≠ [])
    (hitems : List.Forall₂ ReadsAs texts items) {rest : List Char} (hrest : Delimited rest) :
    ∃ ts, Lexes (separator.intercalate texts ++ rest) ts rest ∧ DenotesEach t ts items := by
  induction hitems with
  | nil => exact absurd rfl hne
  | @cons text p _ _ hp htail ih =>
      cases htail with
      | nil =>
          obtain ⟨ts, hts, hdenotes⟩ := hp rest hrest
          refine ⟨ts, ?_, .one hdenotes⟩
          rwa [List.intercalate_singleton]
      | @cons next q texts items hq htail =>
          obtain ⟨us, hus, heach⟩ := ih (by simp)
          -- The text in front of a separator is followed by a delimiter, whatever comes then.
          obtain ⟨hdelimited, hlexes⟩ :=
            hseparator (separator.intercalate (next :: texts) ++ rest)
          obtain ⟨ts, hts, hdenotes⟩ := hp _ hdelimited
          refine ⟨ts ++ t :: us, ?_, .more hdenotes heach⟩
          rw [List.intercalate_cons_cons, List.append_assoc, List.append_assoc]
          exact hts.trans (hlexes.trans hus)

theorem joined_eq_intercalate (hidden : Char → Bool) (separator : List Char)
    (items : List Pattern) :
    joined hidden separator items = separator.intercalate (items.map (chars hidden)) := by
  induction items with
  | nil => rfl
  | cons p items ih =>
      cases items with
      | nil => simp [joined]
      | cons q items => simp [joined, ih, List.intercalate_cons_cons]

theorem forall₂_readsAs {hidden : Char → Bool} {items : List Pattern}
    (hitems : ∀ p ∈ items, Legible hidden p) :
    List.Forall₂ ReadsAs (items.map (chars hidden)) items :=
  List.forall₂_map_left_iff.2 (List.forall₂_same.2 hitems)

/-- Separated patterns are legible if each of them is. -/
theorem lexes_joined {hidden : Char → Bool} {separator : List Char} {t : Token}
    (hseparator : ∀ rest, Delimited (separator ++ rest) ∧ Lexes (separator ++ rest) [t] rest)
    {items : List Pattern} (hne : items ≠ []) (hitems : ∀ p ∈ items, Legible hidden p)
    {rest : List Char} (hrest : Delimited rest) :
    ∃ ts, Lexes (joined hidden separator items ++ rest) ts rest ∧ DenotesEach t ts items := by
  rw [joined_eq_intercalate]
  exact lexes_separated hseparator hne (forall₂_readsAs hitems) hrest

theorem lexes_comma (rest : List Char) :
    Delimited ([',', ' '] ++ rest) ∧ Lexes ([',', ' '] ++ rest) [.comma] rest :=
  ⟨delimited_cons (by decide) (by decide) _,
    (lexes_sign rfl _).trans (.blank (by decide) (.refl rest))⟩

theorem lexes_bar (rest : List Char) :
    Delimited ([' ', '|', ' '] ++ rest) ∧ Lexes ([' ', '|', ' '] ++ rest) [.bar] rest :=
  ⟨delimited_cons (by decide) (by decide) _,
    .blank (by decide) ((lexes_sign rfl _).trans (.blank (by decide) (.refl rest)))⟩

/-- Texts between braces with bars between them are read as the choice of their patterns. -/
theorem readsAs_braced {texts : List (List Char)} {members : List Pattern} (hne : members ≠ [])
    (hmembers : List.Forall₂ ReadsAs texts members) :
    ReadsAs ('\x7b' :: ([' ', '|', ' '].intercalate texts ++ ['\x7d'])) (.oneOf members) := by
  intro rest hrest
  have hdelimited : Delimited ('\x7d' :: rest) := delimited_cons (by decide) (by decide) _
  obtain ⟨ts, hts, heach⟩ := lexes_separated lexes_bar hne hmembers hdelimited
  refine ⟨_, ?_, .primary (.braced heach)⟩
  have hopen : ∀ cs, Lexes ('\x7b' :: cs) [.openBrace] cs := lexes_sign rfl
  have hclose : Lexes ('\x7d' :: rest) [.closeBrace] rest := lexes_sign rfl rest
  have hall := (hopen _).trans (hts.trans hclose)
  simpa using hall

/-- A child list is scanned as tokens that denote it. -/
theorem lexes_children {hidden : Char → Bool} {items : List Pattern}
    (hitems : ∀ p ∈ items, Legible hidden p) (arity : Arity) (rest : List Char) :
    ∃ ts, Lexes ('(' :: (joined hidden [',', ' '] items ++ listEnd items arity) ++ rest) ts rest ∧
      DenotesChildren ts items arity := by
  have hopen : ∀ cs, Lexes ('(' :: cs) [.openParen] cs := lexes_sign rfl
  have hclose : Lexes (')' :: rest) [.closeParen] rest := lexes_sign rfl rest
  have hellipsis : Lexes ('.' :: '.' :: '.' :: ')' :: rest) [.ellipsis, .closeParen] rest :=
    (lexes_ellipsis _).trans hclose
  rcases items.eq_nil_or_concat with rfl | hcons
  · cases arity with
    | exact => exact ⟨_, (hopen _).trans hclose, .none⟩
    | atLeast => exact ⟨_, (hopen _).trans hellipsis, .anything⟩
  · have hne : items ≠ [] := by
      obtain ⟨front, last, rfl⟩ := hcons
      simp
    cases arity with
    | exact =>
        have hdelimited : Delimited (')' :: rest) := delimited_cons (by decide) (by decide) _
        obtain ⟨ts, hts, heach⟩ := lexes_joined lexes_comma hne hitems hdelimited
        refine ⟨_, ?_, .exact heach⟩
        have h := (hopen _).trans (hts.trans hclose)
        simpa [listEnd] using h
    | atLeast =>
        obtain ⟨hdelimited, hcomma⟩ := lexes_comma ('.' :: '.' :: '.' :: ')' :: rest)
        obtain ⟨ts, hts, heach⟩ := lexes_joined lexes_comma hne hitems hdelimited
        refine ⟨_, ?_, .atLeast heach⟩
        have h := (hopen _).trans (hts.trans (hcomma.trans hellipsis))
        simpa [listEnd, hne] using h

/-! ## The text of a pattern -/

/-- The text of a well-formed pattern is scanned as tokens that denote the pattern. -/
theorem WellFormed.legible (hidden : Char → Bool) {p : Pattern} (h : WellFormed p) :
    Legible hidden p := by
  have hunderscore : ∀ {rest}, Delimited rest → Lexes ('_' :: rest) [.underscore] rest :=
    fun hrest => @lexes_reserved '_' [] .underscore rfl (by decide) (by decide) _ hrest
  have hparen : ∀ rest, Delimited ('(' :: rest) := delimited_cons (by decide) (by decide)
  -- What stands behind a pattern is never part of it: the parts inside a list are followed by a
  -- separator or by the sign that closes the list, and the last part by `rest`.
  induction h with
  | @kind name hname =>
      intro rest hrest
      exact ⟨_, lexes_name hname hrest, .primary (.kind name)⟩
  | any =>
      intro rest hrest
      exact ⟨_, hunderscore hrest, .primary .any⟩
  | literal hfinite =>
      intro rest hrest
      obtain ⟨t, ht, hdenotes⟩ := lexes_literal hidden hfinite hrest
      exact ⟨[t], ht, .primary hdenotes⟩
  | children hitems arity ih =>
      intro rest hrest
      obtain ⟨ts, hts, hdenotes⟩ := lexes_children ih arity rest
      exact ⟨_, (hunderscore (hparen _)).trans hts, .primary (.children hdenotes)⟩
  | @node k hname items hitems arity ih =>
      intro rest hrest
      obtain ⟨ts, hts, hdenotes⟩ := lexes_children ih arity rest
      refine ⟨_, ?_, .primary (.node k hdenotes)⟩
      rw [chars, List.append_assoc]
      exact (lexes_name hname (hparen _)).trans hts
  | oneOf hne hmembers ih =>
      rw [Legible, chars, joined_eq_intercalate]
      exact readsAs_braced hne (forall₂_readsAs ih)
  | not hp ih =>
      intro rest hrest
      obtain ⟨ts, hts, hdenotes⟩ := ih rest hrest
      exact ⟨_, (lexes_sign rfl _).trans hts, .not hdenotes⟩
  | anywhere hp ih =>
      intro rest hrest
      obtain ⟨ts, hts, hdenotes⟩ := ih rest hrest
      exact ⟨_, (lexes_sign rfl _).trans hts, .anywhere hdenotes⟩

/-- Text that is scanned as tokens that denote a pattern compiles to the pattern. -/
theorem compile_of_lexes {cs : List Char} {ts : List Token} {p : Pattern}
    (hlexes : Lexes cs ts []) (hdenotes : Denotes ts p) :
    compile (String.ofList cs) = .ok p := by
  obtain ⟨used, last, hused, hscan⟩ := hlexes 0
  have htokens : scan (String.ofList cs) = .ok (used ++ [⟨.stop, last⟩]) := by
    rw [scan, String.toList_ofList, hscan, scanFrom]
    rfl
  -- The tokens denote a pattern, but that they hold no end marker comes from the scanner.
  have hstop : .stop ∉ words used := by
    obtain ⟨body, last', hsplit, hbody⟩ := scanFrom_eq_concat htokens
    rwa [(List.append_inj' hsplit rfl).1]
  rw [compile_of_scan htokens, parseTokens_eq_ok hstop, hused]
  exact hdenotes

theorem WellFormed.compile_chars {p : Pattern} (h : WellFormed p) (hidden : Char → Bool) :
    compile (String.ofList (p.chars hidden)) = .ok p := by
  obtain ⟨ts, hlexes, hdenotes⟩ := h.legible hidden [] trivial
  rw [List.append_nil] at hlexes
  exact compile_of_lexes hlexes hdenotes

/--
Every well-formed pattern is compiled back from its canonical text, whichever
characters the text writes by their number.
-/
theorem compile_canonical_text {p : Pattern} (h : WellFormed p) :
    (∀ hidden, compile (String.ofList (p.chars hidden)) = .ok p) ∧ compile p.text = .ok p :=
  ⟨h.compile_chars, h.compile_chars Text.isHidden⟩

def everyOperator : Pattern :=
  .anywhere (.oneOf
    [.not (.node "a_1"
      [.literal (.string "\"\\\n\u0000é'"), .literal (.integer .minValue),
        .literal (.float (.ofCode true 1))] .atLeast),
      .children [.any, .literal (.boolean true), .literal .nil] .exact, .kind "true1"])

theorem compile_everyOperator :
    WellFormed everyOperator ∧ compile everyOperator.text = .ok everyOperator := by
  have hname : IsName "a_1" := ⟨⟨'a', ['_', '1'], by decide, by decide, by simp⟩, by decide⟩
  have hname' : IsName "true1" :=
    ⟨⟨'t', ['r', 'u', 'e', '1'], by decide, by decide, by simp⟩, by decide⟩
  have h : WellFormed everyOperator := by
    refine .anywhere (.oneOf (by simp) ?_)
    simp only [List.mem_cons, List.not_mem_nil, or_false]
    rintro p (rfl | rfl | rfl)
    · refine .not (.node hname ?_ _)
      simp only [List.mem_cons, List.not_mem_nil, or_false]
      rintro p (rfl | rfl | rfl)
      · exact .literal trivial
      · exact .literal trivial
      · exact .literal (rfl : Binary64.isFinite _ = true)
    · refine .children ?_ _
      simp only [List.mem_cons, List.not_mem_nil, or_false]
      rintro p (rfl | rfl | rfl)
      · exact .any
      · exact .literal trivial
      · exact .literal trivial
    · exact .kind hname'
  exact ⟨h, (compile_canonical_text h).2⟩

end Pattern

end TreeLint
