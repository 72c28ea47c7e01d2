/-!
# Expressions over bytes

The regular expressions that globs stand for.  An expression is matched by the
set of expressions that may still have to match the rest of the bytes.
-/

namespace TreeLint

structure ByteSet where
  negated : Bool
  ranges : List (UInt8 × UInt8)
deriving DecidableEq, Repr

def ByteSet.contains (s : ByteSet) (b : UInt8) : Bool :=
  s.ranges.any (fun r => r.1 ≤ b && b ≤ r.2) != s.negated

inductive ByteExpr where
  | empty
  | one (set : ByteSet)
  | anyRun
  | seq (first second : ByteExpr)
  | alt (left right : ByteExpr)
deriving DecidableEq, Repr

namespace ByteExpr

def byte (b : UInt8) : ByteExpr :=
  .one ⟨false, [(b, b)]⟩

def anyByte : ByteExpr :=
  .one ⟨true, []⟩

/-- One expression behind another; the empty expression is left out. -/
def chain (first second : ByteExpr) : ByteExpr :=
  if first = .empty then second
  else if second = .empty then first
  else .seq first second

def concat (es : List ByteExpr) : ByteExpr :=
  es.foldr chain .empty

def oneOf : List ByteExpr → ByteExpr
  | [] => .empty
  | [e] => e
  | e :: es => .alt e (oneOf es)

def nullable : ByteExpr → Bool
  | .empty => true
  | .one _ => false
  | .anyRun => true
  | .seq a b => nullable a && nullable b
  | .alt a b => nullable a || nullable b

def after (b : UInt8) : ByteExpr → List ByteExpr
  | .empty => []
  | .one set => if set.contains b then [.empty] else []
  | .anyRun => [.anyRun]
  | .seq first second =>
      (after b first).map (chain · second) ++
        (if nullable first then after b second else [])
  | .alt left right => after b left ++ after b right

def someAccepts (states : List ByteExpr) : List UInt8 → Bool
  | [] => states.any nullable
  | b :: bs => someAccepts (states.flatMap (after b)).eraseDups bs

def accepts (e : ByteExpr) (bytes : List UInt8) : Bool :=
  someAccepts [e] bytes

end ByteExpr

end TreeLint
