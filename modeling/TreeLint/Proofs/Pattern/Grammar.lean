import TreeLint.Pattern.Parse

/-!
# The grammar of patterns

Which tokens denote which pattern, independent of the order in which a parser
looks at them.  The parsers agree with the grammar in both directions: what a
parser takes from the front of its tokens is a phrase of the grammar, and a
phrase is taken as a whole whenever the token behind it cannot extend it.
-/

namespace TreeLint

namespace Pattern

def words (tokens : List Located) : List Token :=
  tokens.map Located.token

@[simp] theorem words_nil : words [] = [] := rfl

@[simp] theorem words_cons (t : Located) (tokens : List Located) :
    words (t :: tokens) = t.token :: words tokens := rfl

@[simp] theorem words_append (xs ys : List Located) : words (xs ++ ys) = words xs ++ words ys :=
  List.map_append

/-! ## Phrases -/

mutual

/-- The tokens are a pattern: operators in front of a primary. -/
inductive Denotes : List Token → Pattern → Prop where
  | not {ts : List Token} {p : Pattern} : Denotes ts p → Denotes (.bang :: ts) (.not p)
  | anywhere {ts : List Token} {p : Pattern} :
      Denotes ts p → Denotes (.caret :: ts) (.anywhere p)
  | primary {ts : List Token} {p : Pattern} : DenotesPrimary ts p → Denotes ts p

inductive DenotesPrimary : List Token → Pattern → Prop where
  | any : DenotesPrimary [.underscore] .any
  | children {ts : List Token} {items : List Pattern} {arity : Arity} :
      DenotesChildren ts items arity →
        DenotesPrimary (.underscore :: ts) (.children items arity)
  | kind (k : String) : DenotesPrimary [.name k] (.kind k)
  | node (k : String) {ts : List Token} {items : List Pattern} {arity : Arity} :
      DenotesChildren ts items arity → DenotesPrimary (.name k :: ts) (.node k items arity)
  | string (s : String) : DenotesPrimary [.string s] (.literal (.string s))
  | integer (n : Int64) : DenotesPrimary [.integer n] (.literal (.integer n))
  | float (x : Binary64) : DenotesPrimary [.float x] (.literal (.float x))
  | true : DenotesPrimary [.true] (.literal (.boolean true))
  | false : DenotesPrimary [.false] (.literal (.boolean false))
  | nil : DenotesPrimary [.nil] (.literal .nil)
  | braced {ts : List Token} {members : List Pattern} :
      DenotesEach .bar ts members →
        DenotesPrimary (.openBrace :: (ts ++ [.closeBrace])) (.oneOf members)
  | group {ts : List Token} {p : Pattern} :
      DenotesEach .bar ts [p] → DenotesPrimary (.openParen :: (ts ++ [.closeParen])) p
  | choice {ts : List Token} {p q : Pattern} {rest : List Pattern} :
      DenotesEach .bar ts (p :: q :: rest) →
        DenotesPrimary (.openParen :: (ts ++ [.closeParen])) (.oneOf (p :: q :: rest))

inductive DenotesEach : Token → List Token → List Pattern → Prop where
  | one {separator : Token} {ts : List Token} {p : Pattern} :
      Denotes ts p → DenotesEach separator ts [p]
  | more {separator : Token} {ts us : List Token} {p : Pattern} {ps : List Pattern} :
      Denotes ts p → DenotesEach separator us ps →
        DenotesEach separator (ts ++ separator :: us) (p :: ps)

inductive DenotesChildren : List Token → List Pattern → Arity → Prop where
  | none : DenotesChildren [.openParen, .closeParen] [] .exact
  | anything : DenotesChildren [.openParen, .ellipsis, .closeParen] [] .atLeast
  | exact {ts : List Token} {items : List Pattern} :
      DenotesEach .comma ts items →
        DenotesChildren (.openParen :: (ts ++ [.closeParen])) items .exact
  | atLeast {ts : List Token} {items : List Pattern} :
      DenotesEach .comma ts items →
        DenotesChildren (.openParen :: (ts ++ [.comma, .ellipsis, .closeParen])) items .atLeast

end

/-! ## Entries of a child list -/

inductive ReadsEntry : List Located → Entry → Prop where
  | item {ts : List Located} {p : Pattern} : Denotes (words ts) p → ReadsEntry ts (.item p)
  | ellipsis {t : Located} : t.token = .ellipsis → ReadsEntry [t] (.ellipsis t.offset)

/-- The tokens are one or more entries with commas between them, and a closing parenthesis. -/
inductive ReadsEntries : List Located → List Entry → Prop where
  | last {ts : List Located} {t : Located} {e : Entry} :
      ReadsEntry ts e → t.token = .closeParen → ReadsEntries (ts ++ [t]) [e]
  | more {ts us : List Located} {t : Located} {e : Entry} {es : List Entry} :
      ReadsEntry ts e → t.token = .comma → ReadsEntries us es →
        ReadsEntries (ts ++ t :: us) (e :: es)

theorem ReadsEntries.ne_nil {ts : List Located} {es : List Entry} (h : ReadsEntries ts es) :
    es ≠ [] := by
  cases h <;> simp

/-- A list of items only is a separated list of patterns in front of the parenthesis. -/
theorem ReadsEntries.items {items : List Pattern} {ts : List Located}
    (h : ReadsEntries ts (items.map Entry.item)) :
    ∃ us, words ts = us ++ [.closeParen] ∧ DenotesEach .comma us items := by
  generalize hes : items.map Entry.item = es at h
  induction h generalizing items with
  | @last ts t e he ht =>
      obtain ⟨p, rfl, rfl⟩ := List.map_eq_singleton_iff.1 hes
      cases he with
      | item hp => exact ⟨words ts, by simp [ht], .one hp⟩
  | @more ts us t e es he ht _ ih =>
      obtain ⟨p, ps, rfl, rfl, rfl⟩ := List.map_eq_cons_iff.1 hes
      obtain ⟨vs, hvs, hps⟩ := ih rfl
      cases he with
      | item hp => exact ⟨words ts ++ .comma :: vs, by simp [ht, hvs], .more hp hps⟩

/-- Items with an ellipsis behind them. -/
theorem ReadsEntries.items_ellipsis {items : List Pattern} {offset : Nat} {ts : List Located}
    (h : ReadsEntries ts (items.map Entry.item ++ [.ellipsis offset])) :
    DenotesChildren (.openParen :: words ts) items .atLeast := by
  suffices hsplit : (items = [] ∧ words ts = [.ellipsis, .closeParen]) ∨
      ∃ us, words ts = us ++ [.comma, .ellipsis, .closeParen] ∧ DenotesEach .comma us items by
    rcases hsplit with ⟨rfl, hts⟩ | ⟨us, hts, hus⟩
    · rw [hts]
      exact .anything
    · rw [hts]
      exact .atLeast hus
  generalize hes : items.map Entry.item ++ [.ellipsis offset] = es at h
  induction h generalizing items with
  | @last ts t e he ht =>
      cases items with
      | cons p ps => simp at hes
      | nil =>
          simp only [List.map_nil, List.nil_append, List.cons.injEq, and_true] at hes
          subst hes
          cases he with
          | ellipsis hell => exact .inl ⟨rfl, by simp [hell, ht]⟩
  | @more ts us t e es he ht hrest ih =>
      cases items with
      | nil =>
          simp only [List.map_nil, List.nil_append, List.cons.injEq] at hes
          exact absurd hes.2.symm hrest.ne_nil
      | cons p ps =>
          simp only [List.map_cons, List.cons_append, List.cons.injEq] at hes
          obtain ⟨rfl, hes⟩ := hes
          cases he with
          | item hp =>
              refine .inr ?_
              rcases ih hes with ⟨rfl, hus⟩ | ⟨vs, hus, hps⟩
              · exact ⟨words ts, by simp [ht, hus], .one hp⟩
              · exact ⟨words ts ++ .comma :: vs, by simp [ht, hus], .more hp hps⟩

end Pattern

end TreeLint
