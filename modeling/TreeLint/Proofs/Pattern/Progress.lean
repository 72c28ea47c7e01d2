import TreeLint.Proofs.Pattern.Blame

/-!
# Progress of the parsers

No phrase of the grammar is empty, so that a parser that succeeds leaves fewer tokens than it
was given.  What it leaves still reaches to the end marker.
-/

namespace TreeLint

namespace Pattern

theorem not_denotes_nil {p : Pattern} : ¬ Denotes [] p := by
  intro h
  obtain ⟨t, us, heq, -⟩ := h.head
  cases heq

theorem not_denotesPrimary_nil {p : Pattern} : ¬ DenotesPrimary [] p := by
  intro h
  obtain ⟨t, us, heq, -⟩ := h.head
  cases heq

theorem not_denotesEach_nil {separator : Token} {ps : List Pattern} :
    ¬ DenotesEach separator [] ps := by
  intro h
  obtain ⟨t, us, heq, -⟩ := h.head
  cases heq

theorem not_denotesChildren_nil {items : List Pattern} {arity : Arity} :
    ¬ DenotesChildren [] items arity := by
  intro h
  obtain ⟨us, heq⟩ := h.head
  cases heq

theorem Took.shorter {before rest : List Located} {form : List Token → Prop}
    (h : Took before rest form) (hform : ¬ form []) : rest.length < before.length := by
  obtain ⟨used, rfl, -, hused⟩ := h
  cases used with
  | nil => exact absurd hused hform
  | cons t used =>
      rw [List.length_append, List.length_cons]
      omega

structure Advances (tokens before rest : List Located) : Prop where
  source : Remains tokens before
  target : Remains tokens rest
  shorter : rest.length < before.length

section Advances

variable {tokens before behind rest : List Located} {fuel : Nat}

theorem Remains.length_le (h : Remains tokens rest) : rest.length ≤ tokens.length :=
  h.isSuffix.length_le

theorem Remains.length_pos (h : Remains tokens rest) : 0 < rest.length := by
  obtain ⟨t, tail, rfl⟩ := exists_cons_of_stop h.stop
  exact Nat.succ_pos _

theorem Advances.trans (h : Advances tokens before behind) (h' : Advances tokens behind rest) :
    Advances tokens before rest :=
  ⟨h.source, h'.target, h'.shorter.trans h.shorter⟩

theorem Remains.advances_eat? {token : Token} (h : Remains tokens before)
    (heat : Pattern.eat? token before = some rest) (htoken : token ≠ .stop) :
    Advances tokens before rest := by
  refine ⟨h, h.of_eat? heat htoken, ?_⟩
  obtain ⟨t, rfl, -⟩ := eat?_eq_some.1 heat
  exact Nat.lt_succ_self _

theorem Remains.advances_pattern (h : Remains tokens before) {p : Pattern}
    (hparse : parsePattern fuel before = .ok (p, rest)) : Advances tokens before rest := by
  have htook := (soundAt fuel).pattern hparse
  exact ⟨h, h.took htook, htook.shorter not_denotes_nil⟩

theorem Remains.advances_members (h : Remains tokens before) {ps : List Pattern}
    (hparse : parseMembers fuel before = .ok (ps, rest)) : Advances tokens before rest := by
  have htook := (soundAt fuel).members hparse
  exact ⟨h, h.took htook, htook.shorter not_denotesEach_nil⟩

theorem Remains.advances_primary (h : Remains tokens before) {p : Pattern}
    (hparse : parsePrimary fuel before = .ok (p, rest)) : Advances tokens before rest := by
  have htook := (soundAt fuel).primary hparse
  exact ⟨h, h.took htook, htook.shorter not_denotesPrimary_nil⟩

theorem Remains.advances_children (h : Remains tokens before) {c : List Pattern × Arity}
    (hparse : parseChildren fuel before = .ok (c, rest)) : Advances tokens before rest := by
  have htook := (soundAt fuel).children hparse
  exact ⟨h, h.took htook, htook.shorter not_denotesChildren_nil⟩

theorem Remains.advances_entry (h : Remains tokens before) {e : Entry}
    (hparse : parseEntry fuel before = .ok (e, rest)) : Advances tokens before rest := by
  obtain ⟨used, rfl, hstop, hused⟩ := (soundAt fuel).entry hparse
  obtain ⟨t, us, rfl, -⟩ := hused.head
  refine ⟨h, h.drop hstop, ?_⟩
  rw [List.length_append, List.length_cons]
  omega

end Advances

end Pattern

end TreeLint
