import TreeLint.Proofs.Data.Except
import TreeLint.Proofs.Pattern.Grammar

/-!
# What a parser takes is a phrase

Soundness of the parsers, by induction on the fuel.  Each parser has one lemma,
which assumes the statement for all parsers with one unit of fuel less.
-/

namespace TreeLint

namespace Pattern

/-! ## One token at a time -/

theorem eat?_eq_some {token : Token} {tokens rest : List Located} :
    eat? token tokens = some rest ↔ ∃ t, tokens = t :: rest ∧ t.token = token := by
  cases tokens with
  | nil => simp [eat?]
  | cons t ts =>
      by_cases h : t.token = token
      · simp only [eat?, h, if_true, Option.some.injEq, List.cons.injEq]
        exact ⟨fun heq => ⟨t, ⟨rfl, heq⟩, h⟩, fun ⟨_, ⟨_, heq⟩, _⟩ => heq⟩
      · simp only [eat?, h, if_false, List.cons.injEq, reduceCtorEq, false_iff]
        rintro ⟨_, ⟨rfl, _⟩, ht⟩
        exact h ht

theorem eat?_cons_of_ne {token : Token} {t : Located} (h : t.token ≠ token)
    (rest : List Located) : eat? token (t :: rest) = none := by
  simp [eat?, h]

/-- A token other than the next one is not eaten. -/
theorem eat?_eq_none {token : Token} {tokens : List Located} (h : (peek tokens).token ≠ token) :
    eat? token tokens = none := by
  cases tokens with
  | nil => rfl
  | cons t ts => exact eat?_cons_of_ne h ts

theorem expect_eq_ok {token : Token} {expected : Expectation} {tokens rest : List Located} :
    expect token expected tokens = .ok rest ↔ ∃ t, tokens = t :: rest ∧ t.token = token := by
  rw [← eat?_eq_some, expect]
  cases eat? token tokens <;> simp

/-! ## Closing a child list -/

theorem filterMap_ellipsis?_eq_nil {entries : List Entry}
    (h : entries.filterMap Entry.ellipsis? = []) :
    entries = (entries.filterMap Entry.item?).map Entry.item := by
  induction entries with
  | nil => rfl
  | cons e es ih =>
      cases e with
      | item p => simpa [Entry.item?, Entry.ellipsis?] using ih h
      | ellipsis offset => simp [Entry.ellipsis?] at h

@[simp] theorem filterMap_item?_map (items : List Pattern) :
    (items.map Entry.item).filterMap Entry.item? = items := by
  simp [List.filterMap_map, Function.comp_def, Entry.item?]

@[simp] theorem filterMap_ellipsis?_map (items : List Pattern) :
    (items.map Entry.item).filterMap Entry.ellipsis? = [] := by
  simp [Entry.ellipsis?]

/-- A child list closes when it has no ellipsis, or one in last place. -/
theorem closeList_eq_ok {entries : List Entry} {items : List Pattern} {arity : Arity} :
    closeList entries = .ok (items, arity) ↔
      (arity = .exact ∧ entries = items.map Entry.item) ∨
        (arity = .atLeast ∧ ∃ offset, entries = items.map Entry.item ++ [.ellipsis offset]) := by
  constructor
  · intro h
    simp only [closeList] at h
    split at h
    · rename_i hnone
      simp only [Except.ok.injEq, Prod.mk.injEq] at h
      obtain ⟨rfl, rfl⟩ := h
      exact .inl ⟨rfl, filterMap_ellipsis?_eq_nil hnone⟩
    · rename_i offset hone
      split at h
      · rename_i last hlast
        simp only [Except.ok.injEq, Prod.mk.injEq] at h
        obtain ⟨rfl, rfl⟩ := h
        obtain ⟨front, rfl⟩ := List.getLast?_eq_some_iff.1 hlast
        have hitems : [Entry.ellipsis last].filterMap Entry.item? = [] := rfl
        have hlast : [Entry.ellipsis last].filterMap Entry.ellipsis? = [last] := rfl
        rw [List.filterMap_append, hlast] at hone
        rw [List.filterMap_append, hitems, List.append_nil]
        have hfront : front.filterMap Entry.ellipsis? = [] := by
          have hlength := congrArg List.length hone
          simp only [List.length_append, List.length_cons, List.length_nil] at hlength
          exact List.length_eq_zero_iff.1 (by omega)
        exact .inr ⟨rfl, last, by rw [← filterMap_ellipsis?_eq_nil hfront]⟩
      · simp at h
    · simp at h
  · rintro (⟨rfl, rfl⟩ | ⟨rfl, offset, rfl⟩)
    · simp only [closeList, filterMap_ellipsis?_map, filterMap_item?_map]
    · have hitems : [Entry.ellipsis offset].filterMap Entry.item? = [] := rfl
      have hlast : [Entry.ellipsis offset].filterMap Entry.ellipsis? = [offset] := rfl
      simp only [closeList, List.filterMap_append, filterMap_ellipsis?_map, filterMap_item?_map,
        hitems, hlast, List.nil_append, List.append_nil, List.getLast?_concat]

/-! ## Parts of the parsers -/

def parseEntry (fuel : Nat) (tokens : List Located) : Except Fault (Entry × List Located) :=
  match eat? .ellipsis tokens with
  | some rest => .ok (.ellipsis (peek tokens).offset, rest)
  | none => (parsePattern fuel tokens).map fun r => (.item r.1, r.2)

def parseInside (fuel : Nat) (tokens : List Located) :
    Except Fault (List Entry × List Located) :=
  match eat? .closeParen tokens with
  | some rest => .ok ([], rest)
  | none => parseEntries fuel tokens

theorem parseEntries_succ (fuel : Nat) (tokens : List Located) :
    parseEntries (fuel + 1) tokens =
      parseEntry fuel tokens >>= fun r =>
        match eat? .closeParen r.2 with
        | some rest => .ok ([r.1], rest)
        | none => expect .comma .commaOrParen r.2 >>= fun rest =>
            parseEntries fuel rest >>= fun others => .ok (r.1 :: others.1, others.2) := by
  rw [parseEntries, parseEntry]
  cases eat? .ellipsis tokens <;> rfl

theorem parseChildren_succ (fuel : Nat) (tokens : List Located) :
    parseChildren (fuel + 1) tokens =
      expect .openParen .openParen tokens >>= fun rest =>
        parseInside fuel rest >>= fun r =>
          closeList r.1 >>= fun children => .ok (children, r.2) := by
  rw [parseChildren]
  simp only [parseInside]
  congr 1
  funext rest
  cases eat? .closeParen rest <;> rfl

/-! ## What a parser takes is a phrase -/

/--
The tokens in front of `rest` were taken; none of them is the end marker, and
they are a phrase of the given form.
-/
def Took (tokens rest : List Located) (form : List Token → Prop) : Prop :=
  ∃ used, tokens = used ++ rest ∧ .stop ∉ words used ∧ form (words used)

/-- What the parsers return with the given fuel is a phrase of the grammar. -/
structure SoundAt (fuel : Nat) : Prop where
  pattern {tokens rest : List Located} {p : Pattern} :
    parsePattern fuel tokens = .ok (p, rest) → Took tokens rest (Denotes · p)
  primary {tokens rest : List Located} {p : Pattern} :
    parsePrimary fuel tokens = .ok (p, rest) → Took tokens rest (DenotesPrimary · p)
  members {tokens rest : List Located} {ps : List Pattern} :
    parseMembers fuel tokens = .ok (ps, rest) → Took tokens rest (DenotesEach .bar · ps)
  children {tokens rest : List Located} {items : List Pattern} {arity : Arity} :
    parseChildren fuel tokens = .ok ((items, arity), rest) →
      Took tokens rest (DenotesChildren · items arity)
  entries {tokens rest : List Located} {es : List Entry} :
    parseEntries fuel tokens = .ok (es, rest) →
      ∃ used, tokens = used ++ rest ∧ .stop ∉ words used ∧ ReadsEntries used es

variable {fuel : Nat} {tokens rest : List Located}

theorem SoundAt.pattern_succ (ih : SoundAt fuel) {p : Pattern}
    (h : parsePattern (fuel + 1) tokens = .ok (p, rest)) : Took tokens rest (Denotes · p) := by
  rw [parsePattern] at h
  split at h
  · rename_i behind hbang
    obtain ⟨t, rfl, ht⟩ := eat?_eq_some.1 hbang
    obtain ⟨⟨inner, behind⟩, hinner, heq⟩ := bind_eq_ok.1 h
    cases heq
    obtain ⟨used, rfl, hstop, hused⟩ := ih.pattern hinner
    refine ⟨t :: used, rfl, by simp [ht, hstop], ?_⟩
    rw [words_cons, ht]
    exact .not hused
  · split at h
    · rename_i behind hcaret
      obtain ⟨t, rfl, ht⟩ := eat?_eq_some.1 hcaret
      obtain ⟨⟨inner, behind⟩, hinner, heq⟩ := bind_eq_ok.1 h
      cases heq
      obtain ⟨used, rfl, hstop, hused⟩ := ih.pattern hinner
      refine ⟨t :: used, rfl, by simp [ht, hstop], ?_⟩
      rw [words_cons, ht]
      exact .anywhere hused
    · obtain ⟨used, htokens, hstop, hused⟩ := ih.primary h
      exact ⟨used, htokens, hstop, .primary hused⟩

theorem SoundAt.members_succ (ih : SoundAt fuel) {ps : List Pattern}
    (h : parseMembers (fuel + 1) tokens = .ok (ps, rest)) :
    Took tokens rest (DenotesEach .bar · ps) := by
  rw [parseMembers] at h
  obtain ⟨⟨first, behind⟩, hfirst, htail⟩ := bind_eq_ok.1 h
  obtain ⟨used, rfl, hstop, hused⟩ := ih.pattern hfirst
  dsimp only at htail
  split at htail
  · rename_i tail hbar
    obtain ⟨t, rfl, ht⟩ := eat?_eq_some.1 hbar
    obtain ⟨⟨others, behind⟩, hothers, heq⟩ := bind_eq_ok.1 htail
    cases heq
    obtain ⟨used', rfl, hstop', hused'⟩ := ih.members hothers
    refine ⟨used ++ t :: used', by simp, by simp [ht, hstop, hstop'], ?_⟩
    rw [words_append, words_cons, ht]
    exact .more hused hused'
  · cases htail
    exact ⟨used, rfl, hstop, .one hused⟩

theorem SoundAt.entry (ih : SoundAt fuel) {e : Entry}
    (h : parseEntry fuel tokens = .ok (e, rest)) :
    ∃ used, tokens = used ++ rest ∧ .stop ∉ words used ∧ ReadsEntry used e := by
  unfold parseEntry at h
  split at h
  · rename_i tail hell
    obtain ⟨t, rfl, ht⟩ := eat?_eq_some.1 hell
    cases h
    exact ⟨[t], rfl, by simp [ht], .ellipsis ht⟩
  · cases hp : parsePattern fuel tokens with
    | error fault => simp [hp, Except.map] at h
    | ok r =>
        rw [hp] at h
        cases h
        obtain ⟨used, htokens, hstop, hused⟩ := ih.pattern hp
        exact ⟨used, htokens, hstop, .item hused⟩

theorem SoundAt.entries_succ (ih : SoundAt fuel) {es : List Entry}
    (h : parseEntries (fuel + 1) tokens = .ok (es, rest)) :
    ∃ used, tokens = used ++ rest ∧ .stop ∉ words used ∧ ReadsEntries used es := by
  rw [parseEntries_succ] at h
  obtain ⟨⟨e, behind⟩, hentry, htail⟩ := bind_eq_ok.1 h
  obtain ⟨used, rfl, hstop, hused⟩ := ih.entry hentry
  dsimp only at htail
  split at htail
  · rename_i tail hclose
    obtain ⟨t, rfl, ht⟩ := eat?_eq_some.1 hclose
    cases htail
    exact ⟨used ++ [t], by simp, by simp [ht, hstop], .last hused ht⟩
  · obtain ⟨tail, hcomma, hmore⟩ := bind_eq_ok.1 htail
    obtain ⟨t, rfl, ht⟩ := expect_eq_ok.1 hcomma
    obtain ⟨⟨others, behind⟩, hothers, heq⟩ := bind_eq_ok.1 hmore
    cases heq
    obtain ⟨used', rfl, hstop', hused'⟩ := ih.entries hothers
    exact ⟨used ++ t :: used', by simp, by simp [ht, hstop, hstop'], .more hused ht hused'⟩

theorem SoundAt.children_succ (ih : SoundAt fuel) {items : List Pattern} {arity : Arity}
    (h : parseChildren (fuel + 1) tokens = .ok ((items, arity), rest)) :
    Took tokens rest (DenotesChildren · items arity) := by
  rw [parseChildren_succ] at h
  obtain ⟨inside, hopen, hrest⟩ := bind_eq_ok.1 h
  obtain ⟨⟨es, behind⟩, hinside, hlist⟩ := bind_eq_ok.1 hrest
  obtain ⟨children, hchildren, heq⟩ := bind_eq_ok.1 hlist
  obtain ⟨t, rfl, ht⟩ := expect_eq_ok.1 hopen
  cases heq
  unfold parseInside at hinside
  split at hinside
  · rename_i tail hclose
    obtain ⟨t', rfl, ht'⟩ := eat?_eq_some.1 hclose
    cases hinside
    cases hchildren
    exact ⟨[t, t'], rfl, by simp [ht, ht'], by simpa [ht, ht'] using DenotesChildren.none⟩
  · obtain ⟨used, rfl, hstop, hused⟩ := ih.entries hinside
    refine ⟨t :: used, rfl, by simp [ht, hstop], ?_⟩
    rw [words_cons, ht]
    rcases closeList_eq_ok.1 hchildren with ⟨rfl, rfl⟩ | ⟨rfl, offset, rfl⟩
    · obtain ⟨us, hus, heach⟩ := hused.items
      rw [hus]
      exact .exact heach
    · exact hused.items_ellipsis

/-- A parenthesis around one member is that member, and around more a choice. -/
theorem DenotesEach.grouped {ts : List Token} {members : List Pattern}
    (h : DenotesEach .bar ts members) :
    DenotesPrimary (.openParen :: (ts ++ [.closeParen])) (grouped members) := by
  match members, h with
  | [_], h => exact .group h
  | _ :: _ :: _, h => exact .choice h

/-- A bracketed list of members, for either kind of bracket. -/
theorem SoundAt.bracketed (ih : SoundAt fuel) {ps : List Pattern} {close : Token}
    {expected : Expectation} {behind : List Located} (hclose : close ≠ .stop)
    (hmembers : parseMembers fuel tokens = .ok (ps, behind))
    (hexpect : expect close expected behind = .ok rest) :
    ∃ used, tokens = used ++ rest ∧ .stop ∉ words used ∧
      ∃ ts, words used = ts ++ [close] ∧ DenotesEach .bar ts ps := by
  obtain ⟨used, rfl, hstop, hused⟩ := ih.members hmembers
  obtain ⟨t, rfl, ht⟩ := expect_eq_ok.1 hexpect
  exact ⟨used ++ [t], by simp, by simp [ht, hstop, hclose.symm], words used, by simp [ht], hused⟩

theorem SoundAt.primary_succ (ih : SoundAt fuel) {p : Pattern}
    (h : parsePrimary (fuel + 1) tokens = .ok (p, rest)) :
    Took tokens rest (DenotesPrimary · p) := by
  rw [parsePrimary] at h
  cases tokens with
  | nil => simp [advance] at h
  | cons t behind =>
      obtain ⟨token, offset⟩ := t
      cases token with
      | underscore =>
          simp only [advance, reduceCtorEq, if_false] at h
          split at h
          · obtain ⟨⟨⟨items, arity⟩, tail⟩, hchildren, heq⟩ := bind_eq_ok.1 h
            cases heq
            obtain ⟨used, rfl, hstop, hused⟩ := ih.children hchildren
            exact ⟨_ :: used, rfl, by simp [hstop], .children hused⟩
          · cases h
            exact ⟨[_], rfl, by simp, .any⟩
      | name k =>
          simp only [advance, reduceCtorEq, if_false] at h
          split at h
          · obtain ⟨⟨⟨items, arity⟩, tail⟩, hchildren, heq⟩ := bind_eq_ok.1 h
            cases heq
            obtain ⟨used, rfl, hstop, hused⟩ := ih.children hchildren
            exact ⟨_ :: used, rfl, by simp [hstop], .node k hused⟩
          · cases h
            exact ⟨[_], rfl, by simp, .kind k⟩
      | string s => cases h; exact ⟨[_], rfl, by simp, .string s⟩
      | integer n => cases h; exact ⟨[_], rfl, by simp, .integer n⟩
      | float x => cases h; exact ⟨[_], rfl, by simp, .float x⟩
      | true => cases h; exact ⟨[_], rfl, by simp, .true⟩
      | false => cases h; exact ⟨[_], rfl, by simp, .false⟩
      | nil => cases h; exact ⟨[_], rfl, by simp, .nil⟩
      | openBrace =>
          simp only [advance, reduceCtorEq, if_false] at h
          split at h
          · simp at h
          · obtain ⟨⟨members, tail⟩, hmembers, hclose⟩ := bind_eq_ok.1 h
            obtain ⟨tail', hexpect, heq⟩ := bind_eq_ok.1 hclose
            cases heq
            obtain ⟨used, rfl, hstop, ts, hts, heach⟩ :=
              ih.bracketed (by simp) hmembers hexpect
            refine ⟨_ :: used, rfl, by simp [hstop], ?_⟩
            rw [words_cons, hts]
            exact .braced heach
      | openParen =>
          simp only [advance, reduceCtorEq, if_false] at h
          obtain ⟨⟨members, tail⟩, hmembers, hclose⟩ := bind_eq_ok.1 h
          obtain ⟨tail', hexpect, heq⟩ := bind_eq_ok.1 hclose
          cases heq
          obtain ⟨used, rfl, hstop, ts, hts, heach⟩ := ih.bracketed (by simp) hmembers hexpect
          refine ⟨_ :: used, rfl, by simp [hstop], ?_⟩
          rw [words_cons, hts]
          exact heach.grouped
      | _ => simp [advance] at h

theorem soundAt (fuel : Nat) : SoundAt fuel := by
  -- All parsers at once: each calls the others with one unit of fuel less.
  induction fuel with
  | zero =>
      constructor
      · intro _ _ _ h; simp [parsePattern] at h
      · intro _ _ _ h; simp [parsePrimary] at h
      · intro _ _ _ h; simp [parseMembers] at h
      · intro _ _ _ _ h; simp [parseChildren] at h
      · intro _ _ _ h; simp [parseEntries] at h
  | succ fuel ih =>
      exact ⟨ih.pattern_succ, ih.primary_succ, ih.members_succ, ih.children_succ, ih.entries_succ⟩

end Pattern

end TreeLint
