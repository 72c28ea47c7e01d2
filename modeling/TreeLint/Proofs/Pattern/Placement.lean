import TreeLint.Proofs.Pattern.ErrorPlace
import TreeLint.Proofs.Pattern.Loose

/-!
# Where an ellipsis may stand

Suppose that `...` could be any entry of a child list, and any number of them.  Of the texts
that would then be accepted, those compile in which every child list has no `...` or one in
last place.  Every other text is rejected for the first list that has not, in the order in
which the lists close.
-/

namespace TreeLint

namespace Pattern

/-! ## The fault of a child list -/

namespace ChildList

def fault? (l : ChildList) : Option Fault :=
  match l.ellipses with
  | [] => none
  | [offset] =>
      if l.entries.getLast? = some (some offset) then none else some ⟨.ellipsisNotLast, offset⟩
  | _ :: second :: _ => some ⟨.multipleEllipsis, second⟩

theorem fault?_eq_none {l : ChildList} : l.fault? = none ↔ l.WellPlaced := by
  unfold fault? WellPlaced
  cases hellipses : l.ellipses with
  | nil => simp
  | cons first others =>
      cases others with
      | nil => simp
      | cons second others => simp

theorem fault?_of_not_wellPlaced {l : ChildList} (h : ¬ l.WellPlaced) :
    (∃ first second others, l.ellipses = first :: second :: others ∧
        l.fault? = some ⟨.multipleEllipsis, second⟩) ∨
      ∃ offset, l.ellipses = [offset] ∧ l.fault? = some ⟨.ellipsisNotLast, offset⟩ := by
  cases hellipses : l.ellipses with
  | nil => exact absurd (.inl hellipses) h
  | cons first others =>
      cases others with
      | cons second others =>
          left
          exact ⟨first, second, others, rfl, by simp [fault?, hellipses]⟩
      | nil =>
          right
          have hlast : l.entries.getLast? ≠ some (some first) := by
            intro hlast
            exact h (.inr ⟨first, hellipses, hlast⟩)
          exact ⟨first, rfl, by simp [fault?, hellipses, hlast]⟩

theorem filterMap_fault?_eq_nil {lists : List ChildList} :
    lists.filterMap fault? = [] ↔ ∀ l ∈ lists, l.WellPlaced := by
  simp only [List.filterMap_eq_nil_iff, fault?_eq_none]

end ChildList

/-- A parser finds the first of the faults, or without faults something good in front of `rest`. -/
def Settles {α : Type} (good : α → Prop) (rest : List Located)
    (x : Except Fault (α × List Located)) : List Fault → Prop
  | [] => ∃ a, good a ∧ x = .ok (a, rest)
  | f :: _ => x = .error f

section Settles

variable {α β : Type} {good : α → Prop} {good' : β → Prop} {mid rest : List Located}

theorem Settles.ok {a : α} (h : good a) : Settles good rest (.ok (a, rest)) [] :=
  ⟨a, h, rfl⟩

theorem Settles.bind {x : Except Fault (α × List Located)}
    {f : α × List Located → Except Fault (β × List Located)} {first second : List Fault}
    (hx : Settles good mid x first)
    (hf : ∀ a, good a → Settles good' rest (f (a, mid)) second) :
    Settles good' rest (x >>= f) (first ++ second) := by
  cases first with
  | nil =>
      obtain ⟨a, ha, rfl⟩ := hx
      exact hf a ha
  | cons fault others =>
      have hfault : x = .error fault := hx
      rw [hfault]
      exact rfl

/-- What is made of a result is settled like the result. -/
theorem Settles.map {x : Except Fault (α × List Located)} {faults : List Fault}
    (hx : Settles good rest x faults) (f : α → β) (hf : ∀ a, good a → good' (f a)) :
    Settles good' rest (x >>= fun r => .ok (f r.1, r.2)) faults := by
  have hbind : Settles good' rest (x >>= fun r => .ok (f r.1, r.2)) (faults ++ []) := by
    apply hx.bind
    intro a ha
    exact .ok (hf a ha)
  rwa [List.append_nil] at hbind

end Settles

theorem ellipses_map (es : List Entry) (close : Nat) :
    (ChildList.mk (es.map Entry.ellipsis?) close).ellipses = es.filterMap Entry.ellipsis? := by
  rw [ChildList.ellipses, List.reduceOption, List.filterMap_map]
  rfl

/-- Closing the entries finds the fault of the child list that they show. -/
theorem closeList_settles (es : List Entry) (close : Nat) (rest : List Located) :
    Settles (fun _ => True) rest (closeList es >>= fun children => .ok (children, rest))
      (ChildList.fault? ⟨es.map Entry.ellipsis?, close⟩).toList := by
  unfold ChildList.fault? closeList
  rw [ellipses_map, List.getLast?_map]
  cases hellipses : es.filterMap Entry.ellipsis? with
  | nil => exact .ok trivial
  | cons first others =>
      cases others with
      | cons second others => exact rfl
      | nil =>
          -- There is one `...`, so it is the last entry if the last entry is one.
          dsimp only
          cases hlast : es.getLast? with
          | none => exact rfl
          | some e =>
              cases e with
              | item p => exact rfl
              | ellipsis offset =>
                  have hmem : offset ∈ es.filterMap Entry.ellipsis? :=
                    List.mem_filterMap.2 ⟨.ellipsis offset, List.mem_of_getLast? hlast, rfl⟩
                  rw [hellipses, List.mem_singleton] at hmem
                  subst hmem
                  simp only [Option.map_some, Entry.ellipsis?, if_true]
                  exact .ok trivial

/-! ## One step of the parsers -/

section Steps

variable {t : Located} {tokens rest : List Located} (fuel : Nat)

theorem parsePattern_operator (ht : t.token = .bang ∨ t.token = .caret) :
    ∃ f : Pattern → Pattern, parsePattern (fuel + 1) (t :: rest) =
      parsePattern fuel rest >>= fun r => .ok (f r.1, r.2) := by
  rcases ht with ht | ht
  · refine ⟨.not, ?_⟩
    rw [parsePattern, eat?_eq_some.2 ⟨t, rfl, ht⟩]
    rfl
  · refine ⟨.anywhere, ?_⟩
    have hbang : eat? .bang (t :: rest) = none := eat?_cons_of_ne (by simp [ht]) rest
    rw [parsePattern, hbang, eat?_eq_some.2 ⟨t, rfl, ht⟩]
    rfl

theorem parsePrimary_literal (ht : isLiteral t.token = true) :
    ∃ p, parsePrimary (fuel + 1) (t :: rest) = .ok (p, rest) := by
  obtain ⟨token, offset⟩ := t
  cases token <;> first | exact ⟨_, rfl⟩ | cases ht

theorem parsePrimary_plain (ht : takesChildren t.token = true)
    (hrest : (peek rest).token ≠ .openParen) :
    ∃ p, parsePrimary (fuel + 1) (t :: rest) = .ok (p, rest) := by
  obtain ⟨token, offset⟩ := t
  cases token with
  | underscore => exact ⟨.any, if_neg hrest⟩
  | name k => exact ⟨.kind k, if_neg hrest⟩
  | _ => cases ht

theorem parsePrimary_children (ht : takesChildren t.token = true)
    (hrest : (peek rest).token = .openParen) :
    ∃ f : List Pattern × Arity → Pattern, parsePrimary (fuel + 1) (t :: rest) =
      parseChildren fuel rest >>= fun r => .ok (f r.1, r.2) := by
  obtain ⟨token, offset⟩ := t
  cases token with
  | underscore => exact ⟨fun c => .children c.1 c.2, if_pos hrest⟩
  | name k => exact ⟨fun c => .node k c.1 c.2, if_pos hrest⟩
  | _ => cases ht

theorem parsePrimary_braces (ht : t.token = .openBrace)
    (hrest : (peek rest).token ≠ .closeBrace) :
    parsePrimary (fuel + 1) (t :: rest) = parseMembers fuel rest >>= fun r =>
      expect .closeBrace .barOrBrace r.2 >>= fun behind => .ok (.oneOf r.1, behind) := by
  obtain ⟨token, offset⟩ := t
  cases ht
  exact if_neg hrest

theorem parsePrimary_group (ht : t.token = .openParen) :
    parsePrimary (fuel + 1) (t :: rest) = parseMembers fuel rest >>= fun r =>
      expect .closeParen .barOrParen r.2 >>= fun behind => .ok (grouped r.1, behind) := by
  obtain ⟨token, offset⟩ := t
  cases ht
  rfl

end Steps

/-! ## The parsers, rule by rule -/

/-- Whatever stands behind the tokens, a pattern is parsed from them up to the first fault. -/
def PatternSettles (used : List Located) (lists : List ChildList) : Prop :=
  ∀ ⦃fuel : Nat⦄ ⦃rest : List Located⦄, 4 * used.length + 1 ≤ fuel →
    (peek rest).token ≠ .openParen →
      Settles (fun _ => True) rest (parsePattern fuel (used ++ rest))
        (lists.filterMap ChildList.fault?)

def MembersSettle (used : List Located) (lists : List ChildList) : Prop :=
  ∀ ⦃fuel : Nat⦄ ⦃rest : List Located⦄, 4 * used.length + 2 ≤ fuel →
    (peek rest).token ≠ .openParen → (peek rest).token ≠ .bar →
      Settles (fun _ => True) rest (parseMembers fuel (used ++ rest))
        (lists.filterMap ChildList.fault?)

def EntrySettles (used : List Located) (e : Option Nat) (lists : List ChildList) : Prop :=
  ∀ ⦃fuel : Nat⦄ ⦃rest : List Located⦄, 4 * used.length + 1 ≤ fuel →
    (peek rest).token ≠ .openParen →
      Settles (fun entry => entry.ellipsis? = e) rest (parseEntry fuel (used ++ rest))
        (lists.filterMap ChildList.fault?)

/-- The entries are parsed together with the closing parenthesis behind them. -/
def EntriesSettle (used : List Located) (entries : List (Option Nat))
    (lists : List ChildList) : Prop :=
  ∀ ⦃fuel : Nat⦄ ⦃c : Located⦄ ⦃rest : List Located⦄, 4 * used.length + 2 ≤ fuel →
    c.token = .closeParen →
      Settles (fun es => es.map Entry.ellipsis? = entries) rest
        (parseEntries fuel (used ++ c :: rest)) (lists.filterMap ChildList.fault?)

section Rules

variable {t o c : Located} {ts us : List Located} {e : Option Nat}
  {entries : List (Option Nat)} {lists others : List ChildList}

theorem PatternSettles.operator (ht : t.token = .bang ∨ t.token = .caret)
    (h : PatternSettles ts lists) : PatternSettles (t :: ts) lists := by
  intro fuel rest hfuel hrest
  rw [List.length_cons] at hfuel
  obtain ⟨fuel, rfl⟩ : ∃ n, fuel = n + 1 := ⟨fuel - 1, by omega⟩
  obtain ⟨f, hf⟩ := parsePattern_operator fuel ht
  rw [List.cons_append, hf]
  exact (h (by omega) hrest).map f fun _ _ => trivial

/-- A token that begins a primary is no operator. -/
theorem parsePattern_of_startsPrimary (ht : startsPrimary t.token = true) (fuel : Nat)
    (rest : List Located) :
    parsePattern (fuel + 1) (t :: rest) = parsePrimary fuel (t :: rest) := by
  have hbang : t.token ≠ .bang := by
    intro hbang
    simp [hbang, startsPrimary] at ht
  have hcaret : t.token ≠ .caret := by
    intro hcaret
    simp [hcaret, startsPrimary] at ht
  rw [parsePattern, eat?_cons_of_ne hbang, eat?_cons_of_ne hcaret]

theorem patternSettles_literal (ht : isLiteral t.token = true) : PatternSettles [t] [] := by
  intro fuel rest hfuel _
  rw [List.length_singleton] at hfuel
  obtain ⟨fuel, rfl⟩ : ∃ n, fuel = n + 2 := ⟨fuel - 2, by omega⟩
  obtain ⟨p, hp⟩ := parsePrimary_literal fuel ht
  rw [List.singleton_append, parsePattern_of_startsPrimary (startsPrimary_of_isLiteral ht), hp]
  exact .ok trivial

theorem patternSettles_plain (ht : takesChildren t.token = true) : PatternSettles [t] [] := by
  intro fuel rest hfuel hrest
  rw [List.length_singleton] at hfuel
  obtain ⟨fuel, rfl⟩ : ∃ n, fuel = n + 2 := ⟨fuel - 2, by omega⟩
  obtain ⟨p, hp⟩ := parsePrimary_plain fuel ht hrest
  rw [List.singleton_append, parsePattern_of_startsPrimary (startsPrimary_of_takesChildren ht), hp]
  exact .ok trivial

/-! ### Child lists -/

/-- A name or `_` with its child list, from what stands inside the parentheses. -/
theorem settles_children {fuel : Nat} {inside rest : List Located}
    (ht : takesChildren t.token = true) (ho : o.token = .openParen)
    (h : Settles (fun es => es.map Entry.ellipsis? = entries) rest (parseInside fuel inside)
      (lists.filterMap ChildList.fault?)) (close : Nat) :
    Settles (fun _ => True) rest (parsePattern (fuel + 3) (t :: o :: inside))
      ((lists ++ [(⟨entries, close⟩ : ChildList)]).filterMap ChildList.fault?) := by
  have hfaults : (lists ++ [(⟨entries, close⟩ : ChildList)]).filterMap ChildList.fault? =
      lists.filterMap ChildList.fault? ++ (ChildList.fault? ⟨entries, close⟩).toList := by
    rw [List.filterMap_append, List.filterMap_cons]
    cases ChildList.fault? ⟨entries, close⟩ <;> rfl
  have hlist : Settles (fun _ => True) rest (parseChildren (fuel + 1) (o :: inside))
      (lists.filterMap ChildList.fault? ++ (ChildList.fault? ⟨entries, close⟩).toList) := by
    have hopen : expect .openParen .openParen (o :: inside) = .ok inside :=
      expect_eq_ok.2 ⟨o, rfl, ho⟩
    rw [parseChildren_succ, hopen]
    apply h.bind
    intro es hes
    subst hes
    exact closeList_settles es close rest
  have hnext : (peek (o :: inside)).token = .openParen := ho
  obtain ⟨f, hf⟩ := parsePrimary_children (fuel + 1) ht hnext
  rw [hfaults, parsePattern_of_startsPrimary (startsPrimary_of_takesChildren ht), hf]
  exact hlist.map f fun _ _ => trivial

theorem patternSettles_childless (ht : takesChildren t.token = true) (ho : o.token = .openParen)
    (hc : c.token = .closeParen) : PatternSettles [t, o, c] [⟨[], c.offset⟩] := by
  intro fuel rest hfuel _
  rw [List.length_cons, List.length_cons] at hfuel
  obtain ⟨fuel, rfl⟩ : ∃ n, fuel = n + 3 := ⟨fuel - 3, by omega⟩
  have hinside : Settles (fun es => es.map Entry.ellipsis? = []) rest
      (parseInside fuel (c :: rest)) (([] : List ChildList).filterMap ChildList.fault?) := by
    rw [parseInside, eat?_eq_some.2 ⟨c, rfl, hc⟩]
    exact .ok rfl
  exact settles_children ht ho hinside c.offset

theorem EntriesSettle.children (ht : takesChildren t.token = true) (ho : o.token = .openParen)
    (hnext : ∀ rest, (peek (ts ++ rest)).token ≠ .closeParen)
    (h : EntriesSettle ts entries lists) (hc : c.token = .closeParen) :
    PatternSettles (t :: o :: (ts ++ [c])) (lists ++ [⟨entries, c.offset⟩]) := by
  intro fuel rest hfuel _
  rw [List.length_cons, List.length_cons, List.length_append] at hfuel
  obtain ⟨fuel, rfl⟩ : ∃ n, fuel = n + 3 := ⟨fuel - 3, by omega⟩
  rw [List.cons_append, List.cons_append, List.append_assoc, List.singleton_append]
  apply settles_children ht ho
  rw [parseInside, eat?_eq_none (hnext _)]
  exact h (by omega) hc

theorem PatternSettles.entry (hnext : ∀ rest, (peek (ts ++ rest)).token ≠ .ellipsis)
    (h : PatternSettles ts lists) : EntrySettles ts none lists := by
  intro fuel rest hfuel hrest
  rw [parseEntry, eat?_eq_none (hnext rest)]
  exact (h hfuel hrest).map Entry.item fun _ _ => rfl

theorem entrySettles_ellipsis (ht : t.token = .ellipsis) :
    EntrySettles [t] (some t.offset) [] := by
  intro fuel rest _ _
  rw [parseEntry, List.singleton_append, eat?_eq_some.2 ⟨t, rfl, ht⟩]
  exact .ok rfl

theorem EntrySettles.last (h : EntrySettles ts e lists) : EntriesSettle ts [e] lists := by
  intro fuel c rest hfuel hc
  obtain ⟨fuel, rfl⟩ : ∃ n, fuel = n + 1 := ⟨fuel - 1, by omega⟩
  rw [parseEntries_succ, ← List.append_nil (lists.filterMap _)]
  apply (h (by omega) (by simp [peek, hc])).bind
  intro entry hentry
  have hclose : eat? .closeParen (c :: rest) = some rest := eat?_eq_some.2 ⟨c, rfl, hc⟩
  simp only [hclose]
  exact .ok (by simp [hentry])

theorem EntrySettles.cons (h : EntrySettles ts e lists) (ht : t.token = .comma)
    (hs : EntriesSettle us entries others) :
    EntriesSettle (ts ++ t :: us) (e :: entries) (lists ++ others) := by
  intro fuel c rest hfuel hc
  rw [List.length_append, List.length_cons] at hfuel
  obtain ⟨fuel, rfl⟩ : ∃ n, fuel = n + 1 := ⟨fuel - 1, by omega⟩
  rw [List.append_assoc, List.cons_append, List.filterMap_append, parseEntries_succ]
  apply (h (by omega) (by simp [peek, ht])).bind
  intro entry hentry
  have hclose : eat? .closeParen (t :: (us ++ c :: rest)) = none :=
    eat?_cons_of_ne (by simp [ht]) _
  have hcomma : expect .comma .commaOrParen (t :: (us ++ c :: rest)) = .ok (us ++ c :: rest) :=
    expect_eq_ok.2 ⟨t, rfl, ht⟩
  simp only [hclose, hcomma]
  exact (hs (by omega) hc).map (entry :: ·) fun es hes => by simp [hentry, hes]

/-! ### Choices -/

theorem PatternSettles.member (h : PatternSettles ts lists) : MembersSettle ts lists := by
  intro fuel rest hfuel hparen hbar
  obtain ⟨fuel, rfl⟩ : ∃ n, fuel = n + 1 := ⟨fuel - 1, by omega⟩
  rw [parseMembers, ← List.append_nil (lists.filterMap _)]
  apply (h (by omega) hparen).bind
  intro p _
  simp only [eat?_eq_none hbar]
  exact .ok trivial

theorem PatternSettles.members (h : PatternSettles ts lists) (ht : t.token = .bar)
    (hs : MembersSettle us others) : MembersSettle (ts ++ t :: us) (lists ++ others) := by
  intro fuel rest hfuel hparen hbar
  rw [List.length_append, List.length_cons] at hfuel
  obtain ⟨fuel, rfl⟩ : ∃ n, fuel = n + 1 := ⟨fuel - 1, by omega⟩
  rw [List.append_assoc, List.cons_append, List.filterMap_append, parseMembers]
  apply (h (by omega) (by simp [peek, ht])).bind
  intro p _
  have hnext : eat? .bar (t :: (us ++ rest)) = some (us ++ rest) := eat?_eq_some.2 ⟨t, rfl, ht⟩
  simp only [hnext]
  exact (hs (by omega) hparen hbar).map (p :: ·) fun _ _ => trivial

/-- Members are parsed up to the bracket behind them. -/
theorem MembersSettle.bracketed (h : MembersSettle ts lists) {close : Token}
    (hc : c.token = close) (hparen : close ≠ .openParen) (hbar : close ≠ .bar) {fuel : Nat}
    (hfuel : 4 * ts.length + 2 ≤ fuel) (expected : Expectation) (f : List Pattern → Pattern)
    (rest : List Located) :
    Settles (fun _ => True) rest (parseMembers fuel (ts ++ c :: rest) >>= fun r =>
      expect close expected r.2 >>= fun behind => .ok (f r.1, behind))
      (lists.filterMap ChildList.fault?) := by
  have hmembers : Settles (fun _ => True) (c :: rest) (parseMembers fuel (ts ++ c :: rest))
      (lists.filterMap ChildList.fault?) := by
    apply h hfuel
    · simpa [peek, hc] using hparen
    · simpa [peek, hc] using hbar
  rw [← List.append_nil (lists.filterMap _)]
  apply hmembers.bind
  intro ps _
  have hclose : expect close expected (c :: rest) = .ok rest := expect_eq_ok.2 ⟨c, rfl, hc⟩
  simp only [hclose]
  exact .ok trivial

theorem MembersSettle.braces (ho : o.token = .openBrace)
    (hnext : ∀ rest, (peek (ts ++ rest)).token ≠ .closeBrace) (h : MembersSettle ts lists)
    (hc : c.token = .closeBrace) : PatternSettles (o :: (ts ++ [c])) lists := by
  intro fuel rest hfuel _
  rw [List.length_cons, List.length_append] at hfuel
  obtain ⟨fuel, rfl⟩ : ∃ n, fuel = n + 2 := ⟨fuel - 2, by omega⟩
  have hprimary : startsPrimary o.token = true := by simp [ho, startsPrimary]
  rw [List.cons_append, List.append_assoc, List.singleton_append,
    parsePattern_of_startsPrimary hprimary, parsePrimary_braces fuel ho (hnext _)]
  exact h.bracketed hc (by simp) (by simp) (by omega) .barOrBrace .oneOf rest

theorem MembersSettle.group (ho : o.token = .openParen) (h : MembersSettle ts lists)
    (hc : c.token = .closeParen) : PatternSettles (o :: (ts ++ [c])) lists := by
  intro fuel rest hfuel _
  rw [List.length_cons, List.length_append] at hfuel
  obtain ⟨fuel, rfl⟩ : ∃ n, fuel = n + 2 := ⟨fuel - 2, by omega⟩
  have hprimary : startsPrimary o.token = true := by simp [ho, startsPrimary]
  rw [List.cons_append, List.append_assoc, List.singleton_append,
    parsePattern_of_startsPrimary hprimary, parsePrimary_group fuel ho]
  exact h.bracketed hc (by simp) (by simp) (by omega) .barOrParen grouped rest

end Rules

/-! ## The first fault -/

mutual

theorem Loose.settles {used : List Located} {lists : List ChildList} (h : Loose used lists) :
    PatternSettles used lists :=
  match h with
  | .operator ht h => h.settles.operator ht
  | .literal ht => patternSettles_literal ht
  | .plain ht => patternSettles_plain ht
  | .childless ht ho hc => patternSettles_childless ht ho hc
  | .children ht ho h hc => (h.entriesSettle rfl).children ht ho (h.peek_ne (by simp) rfl) hc
  | .braces ho h hc => (h.membersSettle rfl).braces ho (h.peek_ne (by simp) rfl) hc
  | .group ho h hc => (h.membersSettle rfl).group ho hc

theorem LooseEach.membersSettle {separator : Token} {used : List Located}
    {entries : List (Option Nat)} {lists : List ChildList}
    (h : LooseEach separator used entries lists) (hseparator : separator = .bar) :
    MembersSettle used lists :=
  match h with
  | .one h => (h.memberSettles hseparator).member
  | .more h ht hs =>
      (h.memberSettles hseparator).members (ht.trans hseparator) (hs.membersSettle hseparator)

theorem LooseEach.entriesSettle {separator : Token} {used : List Located}
    {entries : List (Option Nat)} {lists : List ChildList}
    (h : LooseEach separator used entries lists) (hseparator : separator = .comma) :
    EntriesSettle used entries lists :=
  match h with
  | .one h => h.settles.last
  | .more h ht hs => h.settles.cons (ht.trans hseparator) (hs.entriesSettle hseparator)

/-- Between bars there are patterns only. -/
theorem LooseEntry.memberSettles {separator : Token} {used : List Located} {e : Option Nat}
    {lists : List ChildList} (h : LooseEntry separator used e lists)
    (hseparator : separator = .bar) : PatternSettles used lists :=
  match h with
  | .item h => h.settles
  | .ellipsis _ => by cases hseparator

theorem LooseEntry.settles {separator : Token} {used : List Located} {e : Option Nat}
    {lists : List ChildList} (h : LooseEntry separator used e lists) :
    EntrySettles used e lists :=
  match h with
  | .item h => h.settles.entry (h.peek_ne rfl)
  | .ellipsis ht => entrySettles_ellipsis ht

end

/-- A text that would be accepted compiles, or fails with the first fault of a child list. -/
theorem Loose.compile_settled {text : String} {body : List Located} {last : Nat}
    {lists : List ChildList} (h : Loose body lists)
    (hscan : scan text = .ok (body ++ [⟨.stop, last⟩])) :
    (lists.filterMap ChildList.fault? = [] → ∃ p, compile text = .ok p) ∧
      ∀ f others, lists.filterMap ChildList.fault? = f :: others →
        compile text = .error ⟨text, f⟩ := by
  have hsettles : Settles (fun _ => True) [⟨.stop, last⟩]
      (parsePattern (4 * (body ++ [(⟨.stop, last⟩ : Located)]).length + 4)
        (body ++ [⟨.stop, last⟩])) (lists.filterMap ChildList.fault?) := by
    apply h.settles
    · rw [List.length_append]
      omega
    · simp [peek]
  constructor
  · intro hnone
    rw [hnone] at hsettles
    obtain ⟨p, -, hp⟩ := hsettles
    refine ⟨p, (compile_of_scan hscan).2 ?_⟩
    rw [parseTokens_of_parsePattern hp]
    exact if_pos rfl
  · intro f others hfaults
    rw [hfaults] at hsettles
    have hfails : parsePattern (4 * (body ++ [(⟨.stop, last⟩ : Located)]).length + 4)
        (body ++ [⟨.stop, last⟩]) = .error f := hsettles
    have hparse : parseTokens (body ++ [⟨.stop, last⟩]) = .error f := by
      rw [parseTokens, hfails]
      rfl
    simp only [compile, hscan, hparse]

/--
A text compiles exactly when it would be accepted with `...` as any entry of a child list and
every list has no `...` or one in last place.  A text that would be accepted but does not
compile is rejected for the first list to close that is not so: at its second `...` if it has
two, and at its only one otherwise.
-/
theorem misplaced_ellipsis_diagnosed {text : String} {tokens : List Located}
    (hscan : scan text = .ok tokens) :
    ∃ body last, tokens = body ++ [⟨.stop, last⟩] ∧
      ((∃ p, compile text = .ok p) ↔ ∃ lists, Loose body lists ∧ ∀ l ∈ lists, l.WellPlaced) ∧
      ∀ lists, Loose body lists →
        lists.Pairwise (fun l m => l.close < m.close) ∧
          ((∃ p, compile text = .ok p) ↔ ∀ l ∈ lists, l.WellPlaced) ∧
          ∀ before l behind, lists = before ++ l :: behind → (∀ m ∈ before, m.WellPlaced) →
            ¬ l.WellPlaced →
              (∃ first second others, l.ellipses = first :: second :: others ∧
                  compile text = .error ⟨text, ⟨.multipleEllipsis, second⟩⟩) ∨
                ∃ offset, l.ellipses = [offset] ∧
                  compile text = .error ⟨text, ⟨.ellipsisNotLast, offset⟩⟩ := by
  obtain ⟨body, last, rfl, hbody⟩ := scanFrom_eq_concat hscan
  have hcompiles : ∀ lists, Loose body lists →
      ((∃ p, compile text = .ok p) ↔ ∀ l ∈ lists, l.WellPlaced) := by
    intro lists hloose
    obtain ⟨hgood, hbad⟩ := hloose.compile_settled hscan
    rw [← ChildList.filterMap_fault?_eq_nil]
    refine ⟨?_, hgood⟩
    rintro ⟨p, hp⟩
    cases hfaults : lists.filterMap ChildList.fault? with
    | nil => rfl
    | cons f others =>
        rw [hbad f others hfaults] at hp
        cases hp
  refine ⟨body, last, rfl, ⟨?_, ?_⟩, ?_⟩
  · rintro ⟨p, hp⟩
    have hdenotes := (parseTokens_eq_ok hbody).1 ((compile_of_scan hscan).1 hp)
    exact hdenotes.tidy rfl
  · rintro ⟨lists, hloose, hplaced⟩
    exact (hcompiles lists hloose).2 hplaced
  · intro lists hloose
    refine ⟨?_, hcompiles lists hloose, ?_⟩
    · -- Closing parentheses stand in the order of the tokens.
      have htokens : (body.map Located.offset).Pairwise (· < ·) := by
        have hsorted := (scanFrom_offsets hscan).2
        rw [List.pairwise_map]
        exact (List.pairwise_append.1 hsorted).1
      have hclosed := htokens.sublist hloose.close_sublist
      rwa [List.pairwise_map] at hclosed
    · intro before l behind hlists hbefore hl
      have hnone := ChildList.filterMap_fault?_eq_nil.2 hbefore
      have hfails : ∀ f, l.fault? = some f → compile text = .error ⟨text, f⟩ := by
        intro f hf
        apply (hloose.compile_settled hscan).2 f (behind.filterMap ChildList.fault?)
        rw [hlists, List.filterMap_append, hnone, List.filterMap_cons_some hf]
        rfl
      rcases ChildList.fault?_of_not_wellPlaced hl with
        ⟨first, second, others, hellipses, hf⟩ | ⟨offset, hellipses, hf⟩
      · exact .inl ⟨first, second, others, hellipses, hfails _ hf⟩
      · exact .inr ⟨offset, hellipses, hfails _ hf⟩

/-- The tokens of `a(b(..., c, ...), ..., d)`. -/
def nestedEllipses : List Located :=
  [⟨.name "a", 0⟩, ⟨.openParen, 1⟩, ⟨.name "b", 2⟩, ⟨.openParen, 3⟩, ⟨.ellipsis, 4⟩, ⟨.comma, 7⟩,
    ⟨.name "c", 9⟩, ⟨.comma, 10⟩, ⟨.ellipsis, 12⟩, ⟨.closeParen, 15⟩, ⟨.comma, 16⟩,
    ⟨.ellipsis, 18⟩, ⟨.comma, 21⟩, ⟨.name "d", 23⟩, ⟨.closeParen, 24⟩]

theorem loose_nestedEllipses :
    Loose nestedEllipses [⟨[some 4, none, some 12], 15⟩, ⟨[none, some 18, none], 24⟩] := by
  have hfirst : LooseEntry .comma [⟨.ellipsis, 4⟩] (some 4) [] := .ellipsis rfl
  have hc : LooseEntry .comma [⟨.name "c", 9⟩] none [] := .item (.plain rfl)
  have hsecond : LooseEntry .comma [⟨.ellipsis, 12⟩] (some 12) [] := .ellipsis rfl
  have hinside := LooseEach.more (t := ⟨.comma, 7⟩) hfirst rfl
    (.more (t := ⟨.comma, 10⟩) hc rfl (.one hsecond))
  have hb := Loose.children (t := ⟨.name "b", 2⟩) (o := ⟨.openParen, 3⟩)
    (c := ⟨.closeParen, 15⟩) rfl rfl hinside rfl
  have hthird : LooseEntry .comma [⟨.ellipsis, 18⟩] (some 18) [] := .ellipsis rfl
  have hd : LooseEntry .comma [⟨.name "d", 23⟩] none [] := .item (.plain rfl)
  have houtside := LooseEach.more (t := ⟨.comma, 16⟩) (.item hb) rfl
    (.more (t := ⟨.comma, 21⟩) hthird rfl (.one hd))
  exact Loose.children (t := ⟨.name "a", 0⟩) (o := ⟨.openParen, 1⟩) (c := ⟨.closeParen, 24⟩)
    rfl rfl houtside rfl

/-- The inner list closes first, so its second `...` is blamed and not the one of the outer. -/
theorem compile_nestedEllipses :
    scan "a(b(..., c, ...), ..., d)" = .ok (nestedEllipses ++ [⟨.stop, 25⟩]) ∧
      compile "a(b(..., c, ...), ..., d)" =
        .error ⟨"a(b(..., c, ...), ..., d)", ⟨.multipleEllipsis, 12⟩⟩ := by
  have hscan : scan "a(b(..., c, ...), ..., d)" = .ok (nestedEllipses ++ [⟨.stop, 25⟩]) := by
    decide +kernel
  refine ⟨hscan, ?_⟩
  obtain ⟨body, last, hbody, -, hlists⟩ := misplaced_ellipsis_diagnosed hscan
  obtain ⟨rfl, -⟩ := List.append_inj' hbody rfl
  obtain ⟨-, -, hfirst⟩ := hlists _ loose_nestedEllipses
  have hplaced : ¬ (ChildList.mk [some 4, none, some 12] 15).WellPlaced := by
    rw [← ChildList.fault?_eq_none]
    decide
  rcases hfirst [] _ _ rfl (by simp) hplaced with ⟨_, _, _, heq, hfails⟩ | ⟨_, heq, -⟩
  · cases heq
    exact hfails
  · cases heq

end Pattern

end TreeLint
