import Mathlib.Data.List.TakeWhile
import TreeLint.Proofs.Pattern.Canonical
import TreeLint.Proofs.Pattern.Meaning

/-!
# What compiles is well-formed

The scanner gives names and finite numbers only, and the grammar builds no empty
choice, so every compiled pattern is well-formed.  Together with the round trip of
well-formed patterns this says which patterns are compiled back from their
canonical text, and that writing a text canonically twice changes nothing more.
-/

namespace TreeLint

namespace Value

variable {v w : Value}

theorem isFinite_of_same (h : v.same w = true) (hv : v.IsFinite) : w.IsFinite := by
  cases same_iff_equals.1 h with
  | float hequals =>
      rcases hequals with ⟨-, hfinite, -⟩ | ⟨negative, rfl, rfl⟩
      · exact hfinite
      · exact absurd hv (by simp [IsFinite, Binary64.isFinite, Binary64.infinity])
  | _ => trivial

theorem same_self (hv : v.IsFinite) : v.same v = true := by
  cases v with
  | float x => exact Binary64.same_iff_equals.2 (.inl ⟨hv, hv, rfl⟩)
  | _ => simp [same]

end Value

namespace Pattern

/-! ## Tokens of the scanner -/

/-- A name can be the name of a kind, and a number is finite. -/
def Token.Sound : Token → Prop
  | .name k => IsName k
  | .float x => x.isFinite
  | .underscore | .ellipsis | .string _ | .integer _ | .true | .false | .nil => True
  | .openParen | .closeParen | .openBrace | .closeBrace | .bar | .comma => True
  | .bang | .caret | .stop => True

theorem sign?_sound {c : Char} {t : Token} (h : sign? c = some t) : t.Sound := by
  unfold sign? at h
  split at h <;> cases h <;> trivial

theorem numberToken?_sound {isFloat : Bool} {raw : List Char} {t : Token}
    (h : numberToken? isFloat raw = some t) : t.Sound := by
  unfold numberToken? at h
  split at h
  · obtain ⟨x, hx, rfl⟩ := Option.map_eq_some_iff.1 h
    exact (Option.filter_eq_some_iff.1 hx).2
  · obtain ⟨n, -, rfl⟩ := Option.map_eq_some_iff.1 h
    trivial

theorem scanNumber_sound {start : Nat} {first : Char} {cs : List Char} {l : Lexeme}
    (h : scanNumber start first cs = .ok l) : l.token.Sound := by
  simp only [scanNumber] at h
  split at h
  · rename_i t ht
    cases h
    exact numberToken?_sound ht
  · cases h

/-- The four reserved words have tokens of their own, so no name is one of them. -/
theorem wordToken_sound {c : Char} {cs : List Char} (hc : isWordStart c = true)
    (hcs : ∀ d ∈ cs, isWordChar d = true) : (wordToken (String.ofList (c :: cs))).Sound := by
  have hletters : ∃ d ds, (String.ofList (c :: cs)).toList = d :: ds ∧
      (d.isAlpha = true ∨ d = '_') ∧ ∀ e ∈ ds, e.isAlphanum = true ∨ e = '_' := by
    refine ⟨c, cs, String.toList_ofList, ?_, fun d hd => ?_⟩
    · simpa [isWordStart] using hc
    · simpa [isWordChar] using hcs d hd
  generalize String.ofList (c :: cs) = word at hletters
  unfold wordToken
  by_cases hunderscore : word = "_"
  · rw [if_pos hunderscore]
    trivial
  by_cases htrue : word = "true"
  · rw [if_neg hunderscore, if_pos htrue]
    trivial
  by_cases hfalse : word = "false"
  · rw [if_neg hunderscore, if_neg htrue, if_pos hfalse]
    trivial
  by_cases hnil : word = "nil"
  · rw [if_neg hunderscore, if_neg htrue, if_neg hfalse, if_pos hnil]
    trivial
  rw [if_neg hunderscore, if_neg htrue, if_neg hfalse, if_neg hnil]
  exact ⟨hletters, by simp [hunderscore, htrue, hfalse, hnil]⟩

theorem scanToken_sound {offset : Nat} {c : Char} {cs : List Char} {l : Lexeme}
    (h : scanToken offset c cs = .ok l) : l.token.Sound := by
  obtain ⟨scanner, hscanner, heq⟩ := exists_scannedBy c
  rw [heq] at h
  cases hscanner with
  | sign hsign =>
      cases h
      exact sign?_sound hsign
  | ellipsis =>
      rw [scanEllipsis_token h]
      trivial
  | string =>
      obtain ⟨s, hs⟩ := scanString_token h
      rw [hs]
      trivial
  | number => exact scanNumber_sound h
  | word hstart =>
      cases h
      exact wordToken_sound hstart fun d hd => List.mem_takeWhile_imp hd
  | none => cases h

theorem scanFrom_sound {cs : List Char} {offset : Nat} {tokens : List Located}
    (h : scanFrom cs offset = .ok tokens) : ∀ t ∈ words tokens, t.Sound := by
  fun_induction scanFrom cs offset generalizing tokens with
  | case1 offset =>
      cases h
      intro t ht
      rw [List.mem_singleton.1 ht]
      trivial
  | case2 offset c rest _ ih => exact ih h
  | case3 => cases h
  | case4 => cases h
  | case5 offset c rest _ lexeme hlexeme _ tail htail ih =>
      cases h
      intro t ht
      rcases List.mem_cons.1 ht with rfl | ht
      · exact scanToken_sound hlexeme
      · exact ih htail t ht

/-! ## Patterns of sound tokens -/

mutual

theorem Denotes.wellFormed {ts : List Token} {p : Pattern} (h : Denotes ts p)
    (hts : ∀ t ∈ ts, t.Sound) : WellFormed p :=
  match h with
  | .not h => .not (h.wellFormed fun t ht => hts t (List.mem_cons_of_mem _ ht))
  | .anywhere h => .anywhere (h.wellFormed fun t ht => hts t (List.mem_cons_of_mem _ ht))
  | .primary h => h.wellFormed hts

theorem DenotesPrimary.wellFormed {ts : List Token} {p : Pattern} (h : DenotesPrimary ts p)
    (hts : ∀ t ∈ ts, t.Sound) : WellFormed p :=
  match h with
  | .any => .any
  | .children h => .children (h.wellFormed fun t ht => hts t (List.mem_cons_of_mem _ ht)) _
  | .kind k => .kind (hts _ List.mem_cons_self)
  | .node k h =>
      .node (hts _ List.mem_cons_self)
        (h.wellFormed fun t ht => hts t (List.mem_cons_of_mem _ ht)) _
  | .string s => .literal trivial
  | .integer n => .literal trivial
  | .float x => .literal (hts _ List.mem_cons_self)
  | .true => .literal trivial
  | .false => .literal trivial
  | .nil => .literal trivial
  | .braced h =>
      .oneOf h.ne_nil (h.wellFormed fun t ht => hts t (by simp [ht]))
  | .group h => h.wellFormed (fun t ht => hts t (by simp [ht])) _ List.mem_cons_self
  | .choice h => .oneOf h.ne_nil (h.wellFormed fun t ht => hts t (by simp [ht]))

theorem DenotesEach.wellFormed {separator : Token} {ts : List Token} {ps : List Pattern}
    (h : DenotesEach separator ts ps) (hts : ∀ t ∈ ts, t.Sound) : ∀ p ∈ ps, WellFormed p :=
  match h with
  | .one h => List.forall_mem_singleton.2 (h.wellFormed hts)
  | .more h hs =>
      List.forall_mem_cons.2
        ⟨h.wellFormed fun t ht => hts t (by simp [ht]),
          hs.wellFormed fun t ht => hts t (by simp [ht])⟩

theorem DenotesChildren.wellFormed {ts : List Token} {ps : List Pattern} {arity : Arity}
    (h : DenotesChildren ts ps arity) (hts : ∀ t ∈ ts, t.Sound) : ∀ p ∈ ps, WellFormed p :=
  match h with
  | .none => by simp
  | .anything => by simp
  | .exact h => h.wellFormed fun t ht => hts t (by simp [ht])
  | .atLeast h => h.wellFormed fun t ht => hts t (by simp [ht])

end

/-- Every pattern that a text compiles to is well-formed. -/
theorem compile_wellFormed {source : String} {p : Pattern} (h : compile source = .ok p) :
    WellFormed p := by
  obtain ⟨body, last, hscan, hdenotes⟩ := denotes_of_compile h
  refine hdenotes.wellFormed fun t ht => scanFrom_sound hscan t ?_
  rw [words_append]
  exact List.mem_append_left _ ht

/-! ## Equality of patterns -/

theorem sameAll_self {ps : List Pattern} (h : ∀ p ∈ ps, p.same p = true) :
    sameAll ps ps = true :=
  sameAll_iff_forall₂.2 (List.forall₂_same.2 h)

theorem exists_same_of_sameAll {ps qs : List Pattern} (h : sameAll ps qs = true) :
    ∀ q ∈ qs, ∃ p ∈ ps, p.same q = true :=
  fun _ hq => exists_of_forall₂ (sameAll_iff_forall₂.1 h).flip hq

/-- A well-formed pattern holds no NaN, so it equals itself. -/
theorem WellFormed.same_self {p : Pattern} (h : WellFormed p) : p.same p = true := by
  induction h with
  | kind hname => simp [same]
  | any => rfl
  | literal hfinite => exact Value.same_self hfinite
  | children hitems arity ih => simp [same, sameAll_self ih]
  | node hname hitems arity ih => simp [same, sameAll_self ih]
  | oneOf hne hmembers ih => simp [same, sameAll_self ih]
  | not hp ih => exact ih
  | anywhere hp ih => exact ih

theorem WellFormed.of_same {p q : Pattern} (h : WellFormed p) (hsame : p.same q = true) :
    WellFormed q := by
  -- Equal patterns have the same operators, so the induction takes both apart alike.
  induction h generalizing q with
  | kind hname =>
      cases q <;> simp only [same, beq_iff_eq, Bool.false_eq_true] at hsame
      exact .kind (hsame ▸ hname)
  | any =>
      cases q <;> simp only [same, Bool.false_eq_true] at hsame
      exact .any
  | literal hfinite =>
      cases q <;> simp only [same, Bool.false_eq_true] at hsame
      exact .literal (Value.isFinite_of_same hsame hfinite)
  | children hitems arity ih =>
      cases q <;> simp only [same, Bool.and_eq_true, Bool.false_eq_true] at hsame
      refine .children (fun q hq => ?_) _
      obtain ⟨p, hp, hpq⟩ := exists_same_of_sameAll hsame.2 q hq
      exact ih p hp hpq
  | node hname hitems arity ih =>
      cases q <;> simp only [same, Bool.and_eq_true, beq_iff_eq, Bool.false_eq_true] at hsame
      refine .node (hsame.1.1 ▸ hname) (fun q hq => ?_) _
      obtain ⟨p, hp, hpq⟩ := exists_same_of_sameAll hsame.2 q hq
      exact ih p hp hpq
  | @oneOf members hne hmembers ih =>
      cases q <;> simp only [same, Bool.false_eq_true] at hsame
      rename_i members'
      have hne' : members' ≠ [] := by
        rintro rfl
        cases members with
        | nil => exact hne rfl
        | cons p ps => simp [sameAll] at hsame
      refine .oneOf hne' fun q hq => ?_
      obtain ⟨p, hp, hpq⟩ := exists_same_of_sameAll hsame q hq
      exact ih p hp hpq
  | not hp ih =>
      cases q <;> simp only [same, Bool.false_eq_true] at hsame
      exact .not (ih hsame)
  | anywhere hp ih =>
      cases q <;> simp only [same, Bool.false_eq_true] at hsame
      exact .anywhere (ih hsame)

/-! ## Canonical form -/

def canonicalize (source : String) : Except Error String :=
  (compile source).map text

theorem exists_same_iff_wellFormed (p : Pattern) (hidden : Char → Bool) :
    (∃ q, compile (String.ofList (p.chars hidden)) = .ok q ∧ q.same p = true) ↔ WellFormed p := by
  constructor
  · rintro ⟨q, hq, hsame⟩
    exact (compile_wellFormed hq).of_same hsame
  · intro h
    exact ⟨p, h.compile_chars hidden, h.same_self⟩

theorem canonicalize_canonical {source canonical : String}
    (h : canonicalize source = .ok canonical) : canonicalize canonical = .ok canonical := by
  cases hcompile : compile source with
  | error e => simp [canonicalize, hcompile, Except.map] at h
  | ok p =>
      have htext : p.text = canonical := by simpa [canonicalize, hcompile, Except.map] using h
      have hback : compile p.text = .ok p := (compile_wellFormed hcompile).compile_chars _
      rw [← htext, canonicalize, hback]
      rfl

/--
What compiles is well-formed.  So a pattern is compiled back from its canonical
text, up to equality or exactly, if and only if it is well-formed, and canonical
text stays as it is.
-/
theorem compiles_back_iff_wellFormed :
    (∀ {source : String} {p : Pattern}, compile source = .ok p → WellFormed p) ∧
      (∀ p : Pattern, (∃ q, compile p.text = .ok q ∧ q.same p = true) ↔ WellFormed p) ∧
      (∀ (p : Pattern) (hidden : Char → Bool),
        ((∃ q, compile (String.ofList (p.chars hidden)) = .ok q ∧ q.same p = true) ↔
            WellFormed p) ∧
          (compile (String.ofList (p.chars hidden)) = .ok p ↔ WellFormed p)) ∧
      ∀ {source canonical : String}, canonicalize source = .ok canonical →
        canonicalize canonical = .ok canonical := by
  refine ⟨compile_wellFormed, fun p => ?_, fun p hidden => ⟨?_, ?_, ?_⟩, canonicalize_canonical⟩
  · exact exists_same_iff_wellFormed p Text.isHidden
  · exact exists_same_iff_wellFormed p hidden
  · exact compile_wellFormed
  · exact fun h => h.compile_chars hidden

/-- A text with blanks, a group, a sign and an underscore in a number. -/
theorem canonicalize_loose_text :
    let p : Pattern := .oneOf [.not (.node "a" [] .atLeast), .literal (.integer (-10)), .any]
    compile "( !a(... )|-1_0 | (_))" = .ok p ∧ WellFormed p ∧
      canonicalize p.text = .ok p.text := by
  intro p
  have hcompile : compile "( !a(... )|-1_0 | (_))" = .ok p := by decide +kernel
  have hcanonical : canonicalize "( !a(... )|-1_0 | (_))" = .ok p.text := by
    rw [canonicalize, hcompile]
    rfl
  exact ⟨hcompile, compiles_back_iff_wellFormed.1 hcompile,
    compiles_back_iff_wellFormed.2.2.2 hcanonical⟩

end Pattern

end TreeLint
