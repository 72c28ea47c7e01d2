import Mathlib.Data.List.ReduceOption
import TreeLint.Proofs.Pattern.Compiling

/-!
# Child lists with an ellipsis anywhere

The grammar of patterns with one rule less: any entry of a child list may be `...`, and any
number of them.  What is accepted so comes with its child lists, in the order in which they
close.  The tokens of a pattern are accepted, and every `...` among them is well placed.
-/

namespace TreeLint

namespace Pattern

/-! ## Child lists as they are written -/

/-- What a child list shows: for each entry the offset of `...`, or nothing for a pattern, and
the offset of the closing parenthesis. -/
structure ChildList where
  entries : List (Option Nat)
  close : Nat
deriving DecidableEq, Repr

namespace ChildList

/-- The offsets of `...` among the entries. -/
def ellipses (l : ChildList) : List Nat :=
  l.entries.reduceOption

/-- There is no `...`, or exactly one, in last place. -/
def WellPlaced (l : ChildList) : Prop :=
  l.ellipses = [] ∨ ∃ offset, l.ellipses = [offset] ∧ l.entries.getLast? = some (some offset)

end ChildList

/-- A name or `_`, behind which a child list may stand. -/
def takesChildren : Token → Bool
  | .underscore | .name _ => true
  | .string _ | .integer _ | .float _ | .true | .false | .nil => false
  | .ellipsis | .openParen | .closeParen | .openBrace | .closeBrace | .bar | .comma => false
  | .bang | .caret | .stop => false

def isLiteral : Token → Bool
  | .string _ | .integer _ | .float _ | .true | .false | .nil => true
  | .underscore | .name _ => false
  | .ellipsis | .openParen | .closeParen | .openBrace | .closeBrace | .bar | .comma => false
  | .bang | .caret | .stop => false

mutual

/-- The tokens are a pattern, if `...` may be any entry of a child list; the child lists stand
in the order in which they close. -/
inductive Loose : List Located → List ChildList → Prop where
  | operator {t : Located} {ts : List Located} {lists : List ChildList} :
      t.token = .bang ∨ t.token = .caret → Loose ts lists → Loose (t :: ts) lists
  | literal {t : Located} : isLiteral t.token = true → Loose [t] []
  | plain {t : Located} : takesChildren t.token = true → Loose [t] []
  | childless {t o c : Located} :
      takesChildren t.token = true → o.token = .openParen → c.token = .closeParen →
        Loose [t, o, c] [⟨[], c.offset⟩]
  | children {t o c : Located} {ts : List Located} {entries : List (Option Nat)}
      {lists : List ChildList} :
      takesChildren t.token = true → o.token = .openParen → LooseEach .comma ts entries lists →
        c.token = .closeParen → Loose (t :: o :: (ts ++ [c])) (lists ++ [⟨entries, c.offset⟩])
  | braces {o c : Located} {ts : List Located} {entries : List (Option Nat)}
      {lists : List ChildList} :
      o.token = .openBrace → LooseEach .bar ts entries lists → c.token = .closeBrace →
        Loose (o :: (ts ++ [c])) lists
  | group {o c : Located} {ts : List Located} {entries : List (Option Nat)}
      {lists : List ChildList} :
      o.token = .openParen → LooseEach .bar ts entries lists → c.token = .closeParen →
        Loose (o :: (ts ++ [c])) lists

inductive LooseEach : Token → List Located → List (Option Nat) → List ChildList → Prop where
  | one {separator : Token} {ts : List Located} {e : Option Nat} {lists : List ChildList} :
      LooseEntry separator ts e lists → LooseEach separator ts [e] lists
  | more {separator : Token} {ts us : List Located} {t : Located} {e : Option Nat}
      {es : List (Option Nat)} {lists others : List ChildList} :
      LooseEntry separator ts e lists → t.token = separator →
        LooseEach separator us es others →
          LooseEach separator (ts ++ t :: us) (e :: es) (lists ++ others)

/-- The tokens are a pattern or, between the commas of a child list, `...`. -/
inductive LooseEntry : Token → List Located → Option Nat → List ChildList → Prop where
  | item {separator : Token} {ts : List Located} {lists : List ChildList} :
      Loose ts lists → LooseEntry separator ts none lists
  | ellipsis {t : Located} : t.token = .ellipsis → LooseEntry .comma [t] (some t.offset) []

end

/-! ## The order in which lists close -/

mutual

theorem Loose.close_sublist {ts : List Located} {lists : List ChildList} (h : Loose ts lists) :
    (lists.map ChildList.close).Sublist (ts.map Located.offset) :=
  match h with
  | .operator _ h => .cons _ h.close_sublist
  | .literal _ => List.nil_sublist _
  | .plain _ => List.nil_sublist _
  | .childless _ _ _ => .cons _ (.cons _ (List.Sublist.refl _))
  | .children _ _ h _ => by
      simp only [List.map_append, List.map_cons, List.map_nil]
      exact .cons _ (.cons _ (h.close_sublist.append (List.Sublist.refl _)))
  | .braces _ h _ => by
      rw [List.map_cons, List.map_append]
      exact .cons _ (h.close_sublist.trans (List.sublist_append_left _ _))
  | .group _ h _ => by
      rw [List.map_cons, List.map_append]
      exact .cons _ (h.close_sublist.trans (List.sublist_append_left _ _))

theorem LooseEach.close_sublist {separator : Token} {ts : List Located}
    {entries : List (Option Nat)} {lists : List ChildList}
    (h : LooseEach separator ts entries lists) :
    (lists.map ChildList.close).Sublist (ts.map Located.offset) :=
  match h with
  | .one h => h.close_sublist
  | .more h _ hs => by
      rw [List.map_append, List.map_append, List.map_cons]
      exact h.close_sublist.append (.cons _ hs.close_sublist)

theorem LooseEntry.close_sublist {separator : Token} {ts : List Located} {e : Option Nat}
    {lists : List ChildList} (h : LooseEntry separator ts e lists) :
    (lists.map ChildList.close).Sublist (ts.map Located.offset) :=
  match h with
  | .item h => h.close_sublist
  | .ellipsis _ => List.nil_sublist _

end

/-! ## How patterns begin -/

theorem startsPrimary_of_isLiteral {t : Token} (h : isLiteral t = true) :
    startsPrimary t = true := by
  cases t <;> first | rfl | cases h

theorem startsPrimary_of_takesChildren {t : Token} (h : takesChildren t = true) :
    startsPrimary t = true := by
  cases t <;> first | rfl | cases h

theorem Loose.startsPattern_peek {ts : List Located} {lists : List ChildList}
    (h : Loose ts lists) (rest : List Located) :
    startsPattern (peek (ts ++ rest)).token = true := by
  cases h with
  | operator ht _ =>
      rcases ht with ht | ht
      · simp [peek, ht, startsPattern]
      · simp [peek, ht, startsPattern]
  | literal ht => simp [peek, startsPattern, startsPrimary_of_isLiteral ht]
  | plain ht => simp [peek, startsPattern, startsPrimary_of_takesChildren ht]
  | childless ht _ _ => simp [peek, startsPattern, startsPrimary_of_takesChildren ht]
  | children ht _ _ _ => simp [peek, startsPattern, startsPrimary_of_takesChildren ht]
  | braces ho _ _ => simp [peek, ho, startsPattern, startsPrimary]
  | group ho _ _ => simp [peek, ho, startsPattern, startsPrimary]

theorem Loose.peek_ne {ts : List Located} {lists : List ChildList} (h : Loose ts lists)
    {token : Token} (hstart : startsPattern token = false) (rest : List Located) :
    (peek (ts ++ rest)).token ≠ token := by
  intro heq
  have hpattern := h.startsPattern_peek rest
  rw [heq, hstart] at hpattern
  cases hpattern

theorem LooseEntry.peek_ne {separator : Token} {ts : List Located} {e : Option Nat}
    {lists : List ChildList} (h : LooseEntry separator ts e lists) {token : Token}
    (hellipsis : token ≠ .ellipsis) (hstart : startsPattern token = false)
    (rest : List Located) : (peek (ts ++ rest)).token ≠ token := by
  cases h with
  | item h => exact h.peek_ne hstart rest
  | ellipsis ht => exact fun heq => hellipsis (heq.symm.trans ht)

/-- No entry begins with a token that closes a list. -/
theorem LooseEach.peek_ne {separator : Token} {ts : List Located} {entries : List (Option Nat)}
    {lists : List ChildList} (h : LooseEach separator ts entries lists) {token : Token}
    (hellipsis : token ≠ .ellipsis) (hstart : startsPattern token = false)
    (rest : List Located) : (peek (ts ++ rest)).token ≠ token := by
  cases h with
  | one h => exact h.peek_ne hellipsis hstart rest
  | more h _ _ =>
      rw [List.append_assoc]
      exact h.peek_ne hellipsis hstart _

/-! ## Patterns are accepted -/

theorem LooseEach.concat {separator : Token} {ts us : List Located} {t : Located}
    {entries : List (Option Nat)} {e : Option Nat} {lists others : List ChildList}
    (h : LooseEach separator ts entries lists) (ht : t.token = separator)
    (he : LooseEntry separator us e others) :
    LooseEach separator (ts ++ t :: us) (entries ++ [e]) (lists ++ others) :=
  match h with
  | .one h => .more h ht (.one he)
  | .more h hcomma hs => by
      rw [List.append_assoc, List.append_assoc, List.cons_append]
      exact .more h hcomma (hs.concat ht he)

theorem wellPlaced_items (items : List Pattern) (close : Nat) :
    (ChildList.mk (items.map fun _ => none) close).WellPlaced := by
  left
  simp [ChildList.ellipses, List.reduceOption]

theorem wellPlaced_items_ellipsis (items : List Pattern) (offset close : Nat) :
    (ChildList.mk ((items.map fun _ => none) ++ [some offset]) close).WellPlaced := by
  right
  refine ⟨offset, ?_, ?_⟩
  · simp [ChildList.ellipses, List.reduceOption]
  · simp

/-- Tokens between brackets, with the offsets they have in the text. -/
theorem exists_bracketed {used : List Located} {first last : Token} {ts : List Token}
    (h : words used = first :: (ts ++ [last])) :
    ∃ o us c, used = o :: (us ++ [c]) ∧ o.token = first ∧ words us = ts ∧ c.token = last := by
  obtain ⟨o, behind, rfl, ho, hbehind⟩ := List.map_eq_cons_iff.1 h
  obtain ⟨us, back, rfl, hus, hback⟩ := List.map_eq_append_iff.1 hbehind
  obtain ⟨c, rfl, hc⟩ := List.map_eq_singleton_iff.1 hback
  exact ⟨o, us, c, rfl, ho, hus, hc⟩

/-- The tokens are a pattern in which every `...` is well placed. -/
def Tidy (used : List Located) : Prop :=
  ∃ lists, Loose used lists ∧ ∀ l ∈ lists, l.WellPlaced

theorem tidy_single {used : List Located} {t : Token} (hused : words used = [t])
    (ht : isLiteral t = true ∨ takesChildren t = true) : Tidy used := by
  obtain ⟨t', rfl, rfl⟩ := List.map_eq_singleton_iff.1 hused
  rcases ht with ht | ht
  · exact ⟨[], .literal ht, by simp⟩
  · exact ⟨[], .plain ht, by simp⟩

theorem tidy_children {t o c : Located} {us : List Located} {entries : List (Option Nat)}
    {lists : List ChildList} (ht : takesChildren t.token = true) (ho : o.token = .openParen)
    (hc : c.token = .closeParen) (h : LooseEach .comma us entries lists)
    (hlists : ∀ l ∈ lists, l.WellPlaced)
    (hentries : (ChildList.mk entries c.offset).WellPlaced) :
    Tidy (t :: o :: (us ++ [c])) := by
  refine ⟨_, .children ht ho h hc, ?_⟩
  rw [List.forall_mem_append]
  exact ⟨hlists, by simpa using hentries⟩

mutual

theorem Denotes.tidy {ts : List Token} {p : Pattern} (h : Denotes ts p) {used : List Located}
    (hused : words used = ts) : Tidy used :=
  match h with
  | .not h => by
      obtain ⟨t, us, rfl, ht, hus⟩ := List.map_eq_cons_iff.1 hused
      obtain ⟨lists, hloose, hplaced⟩ := h.tidy hus
      exact ⟨lists, .operator (.inl ht) hloose, hplaced⟩
  | .anywhere h => by
      obtain ⟨t, us, rfl, ht, hus⟩ := List.map_eq_cons_iff.1 hused
      obtain ⟨lists, hloose, hplaced⟩ := h.tidy hus
      exact ⟨lists, .operator (.inr ht) hloose, hplaced⟩
  | .primary h => h.tidy hused

theorem DenotesPrimary.tidy {ts : List Token} {p : Pattern} (h : DenotesPrimary ts p)
    {used : List Located} (hused : words used = ts) : Tidy used :=
  match h with
  | .any => tidy_single hused (.inr rfl)
  | .kind _ => tidy_single hused (.inr rfl)
  | .string _ => tidy_single hused (.inl rfl)
  | .integer _ => tidy_single hused (.inl rfl)
  | .float _ => tidy_single hused (.inl rfl)
  | .true => tidy_single hused (.inl rfl)
  | .false => tidy_single hused (.inl rfl)
  | .nil => tidy_single hused (.inl rfl)
  | .children h => by
      obtain ⟨t, us, rfl, ht, hus⟩ := List.map_eq_cons_iff.1 hused
      exact h.tidy hus (by rw [ht]; rfl)
  | .node _ h => by
      obtain ⟨t, us, rfl, ht, hus⟩ := List.map_eq_cons_iff.1 hused
      exact h.tidy hus (by rw [ht]; rfl)
  | .braced h => by
      obtain ⟨o, us, c, rfl, ho, hus, hc⟩ := exists_bracketed hused
      obtain ⟨lists, hloose, hplaced⟩ := h.tidy hus
      exact ⟨lists, .braces ho hloose hc, hplaced⟩
  | .group h => by
      obtain ⟨o, us, c, rfl, ho, hus, hc⟩ := exists_bracketed hused
      obtain ⟨lists, hloose, hplaced⟩ := h.tidy hus
      exact ⟨lists, .group ho hloose hc, hplaced⟩
  | .choice h => by
      obtain ⟨o, us, c, rfl, ho, hus, hc⟩ := exists_bracketed hused
      obtain ⟨lists, hloose, hplaced⟩ := h.tidy hus
      exact ⟨lists, .group ho hloose hc, hplaced⟩

theorem DenotesEach.tidy {separator : Token} {ts : List Token} {ps : List Pattern}
    (h : DenotesEach separator ts ps) {used : List Located} (hused : words used = ts) :
    ∃ lists, LooseEach separator used (ps.map fun _ => none) lists ∧
      ∀ l ∈ lists, l.WellPlaced :=
  match h with
  | .one h => by
      obtain ⟨lists, hloose, hplaced⟩ := h.tidy hused
      exact ⟨lists, .one (.item hloose), hplaced⟩
  | .more h hs => by
      obtain ⟨front, back, rfl, hfront, hback⟩ := List.map_eq_append_iff.1 hused
      obtain ⟨t, us, rfl, ht, hus⟩ := List.map_eq_cons_iff.1 hback
      obtain ⟨lists, hloose, hplaced⟩ := h.tidy hfront
      obtain ⟨others, hlooses, hothers⟩ := hs.tidy hus
      refine ⟨lists ++ others, .more (.item hloose) ht hlooses, ?_⟩
      exact List.forall_mem_append.2 ⟨hplaced, hothers⟩

theorem DenotesChildren.tidy {ts : List Token} {items : List Pattern} {arity : Arity}
    (h : DenotesChildren ts items arity) {used : List Located} (hused : words used = ts)
    {t : Located} (ht : takesChildren t.token = true) : Tidy (t :: used) :=
  match h with
  | .none => by
      obtain ⟨o, behind, rfl, ho, hbehind⟩ := List.map_eq_cons_iff.1 hused
      obtain ⟨c, rfl, hc⟩ := List.map_eq_singleton_iff.1 hbehind
      refine ⟨_, .childless ht ho hc, ?_⟩
      exact List.forall_mem_singleton.2 (wellPlaced_items [] c.offset)
  | .anything => by
      have hsplit : words used = .openParen :: ([.ellipsis] ++ [.closeParen]) := hused
      obtain ⟨o, us, c, rfl, ho, hus, hc⟩ := exists_bracketed hsplit
      obtain ⟨e, rfl, he⟩ := List.map_eq_singleton_iff.1 hus
      exact tidy_children ht ho hc (.one (.ellipsis he)) (by simp)
        (wellPlaced_items_ellipsis [] e.offset c.offset)
  | .exact h => by
      obtain ⟨o, us, c, rfl, ho, hus, hc⟩ := exists_bracketed hused
      obtain ⟨lists, hloose, hplaced⟩ := h.tidy hus
      exact tidy_children ht ho hc hloose hplaced (wellPlaced_items items c.offset)
  | .atLeast h => by
      have hend : [Token.comma, .ellipsis, .closeParen] = [.comma, .ellipsis] ++ [.closeParen] :=
        rfl
      rw [hend, ← List.append_assoc] at hused
      obtain ⟨o, behind, c, rfl, ho, hbehind, hc⟩ := exists_bracketed hused
      obtain ⟨us, back, rfl, hus, hback⟩ := List.map_eq_append_iff.1 hbehind
      obtain ⟨comma, last, rfl, hcomma, hlast⟩ := List.map_eq_cons_iff.1 hback
      obtain ⟨e, rfl, he⟩ := List.map_eq_singleton_iff.1 hlast
      obtain ⟨lists, hloose, hplaced⟩ := h.tidy hus
      have hall := hloose.concat hcomma (.ellipsis he)
      rw [List.append_nil] at hall
      exact tidy_children ht ho hc hall hplaced
        (wellPlaced_items_ellipsis items e.offset c.offset)

end

end Pattern

end TreeLint
