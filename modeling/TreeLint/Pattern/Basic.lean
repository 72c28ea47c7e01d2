import TreeLint.Syntax.Tree

/-!
# Tree patterns

The operators of a pattern, and its canonical text.
-/

namespace TreeLint

/-- Whether a list of child patterns fixes the number of children. -/
inductive Arity where
  | exact
  | atLeast
deriving DecidableEq, Repr

inductive Pattern where
  /-- A node of the given kind. -/
  | kind (name : String)
  /-- Any slot, empty ones included. -/
  | any
  /-- A terminal with an equal value. -/
  | literal (value : Value)
  /-- A node whose first slots match the items, one by one. -/
  | children (items : List Pattern) (arity : Arity)
  /-- A node of the given kind whose first slots match the items, one by one. -/
  | node (kind : String) (items : List Pattern) (arity : Arity)
  /-- What some member matches. -/
  | oneOf (members : List Pattern)
  /-- What the inner pattern does not match. -/
  | not (inner : Pattern)
  /-- A slot that matches or has a matching non-empty slot beneath it. -/
  | anywhere (inner : Pattern)
deriving Repr, Inhabited

namespace Pattern

/-! ## Equality -/

mutual

def decEq (p q : Pattern) : Decidable (p = q) :=
  if h : p.ctorIdx = q.ctorIdx then
    match p, q, h with
    | .kind a, .kind b, _ => decidable_of_iff (a = b) (by simp)
    | .any, .any, _ => .isTrue rfl
    | .literal v, .literal w, _ => decidable_of_iff (v = w) (by simp)
    | .children ps a, .children qs b, _ =>
        have := decEqAll ps qs
        decidable_of_iff (ps = qs ∧ a = b) (by simp)
    | .node k ps a, .node l qs b, _ =>
        have := decEqAll ps qs
        decidable_of_iff (k = l ∧ ps = qs ∧ a = b) (by simp)
    | .oneOf ps, .oneOf qs, _ =>
        have := decEqAll ps qs
        decidable_of_iff (ps = qs) (by simp)
    | .not p, .not q, _ =>
        have := decEq p q
        decidable_of_iff (p = q) (by simp)
    | .anywhere p, .anywhere q, _ =>
        have := decEq p q
        decidable_of_iff (p = q) (by simp)
  else .isFalse fun heq => h (congrArg Pattern.ctorIdx heq)

def decEqAll : (ps qs : List Pattern) → Decidable (ps = qs)
  | [], [] => .isTrue rfl
  | [], _ :: _ => .isFalse nofun
  | _ :: _, [] => .isFalse nofun
  | p :: ps, q :: qs =>
      have := decEq p q
      have := decEqAll ps qs
      decidable_of_iff (p = q ∧ ps = qs) (by simp)

end

instance : DecidableEq Pattern :=
  decEq

/-! ## Canonical text -/

def listEnd (items : List Pattern) : Arity → List Char
  | .exact => [')']
  | .atLeast => if items.isEmpty then ['.', '.', '.', ')'] else [',', ' ', '.', '.', '.', ')']

mutual

def chars (hidden : Char → Bool) : Pattern → List Char
  | .kind name => name.toList
  | .any => ['_']
  | .literal v => v.chars hidden
  | .children items arity => '_' :: '(' :: (joined hidden [',', ' '] items ++ listEnd items arity)
  | .node k items arity =>
      k.toList ++ '(' :: (joined hidden [',', ' '] items ++ listEnd items arity)
  | .oneOf members => '\x7b' :: (joined hidden [' ', '|', ' '] members ++ ['\x7d'])
  | .not inner => '!' :: chars hidden inner
  | .anywhere inner => '^' :: chars hidden inner

def joined (hidden : Char → Bool) (separator : List Char) : List Pattern → List Char
  | [] => []
  | [p] => chars hidden p
  | p :: q :: rest => chars hidden p ++ separator ++ joined hidden separator (q :: rest)

end

def text (p : Pattern) : String :=
  String.ofList (p.chars Text.isHidden)

mutual

/-- Equality of patterns, where literals are compared by value. -/
def same : Pattern → Pattern → Bool
  | .kind a, .kind b => a == b
  | .any, .any => true
  | .literal v, .literal w => v.same w
  | .children ps a, .children qs b => a == b && sameAll ps qs
  | .node k ps a, .node l qs b => k == l && a == b && sameAll ps qs
  | .oneOf ps, .oneOf qs => sameAll ps qs
  | .not p, .not q => same p q
  | .anywhere p, .anywhere q => same p q
  | _, _ => false

def sameAll : List Pattern → List Pattern → Bool
  | [], [] => true
  | p :: ps, q :: qs => same p q && sameAll ps qs
  | _, _ => false

end

end Pattern

end TreeLint
