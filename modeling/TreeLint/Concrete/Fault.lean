import TreeLint.Concrete.Basic

/-!
# Errors in concrete trees

A tree holds its own errors: nodes that could not be parsed and tokens that are
missing.  The search for them enters only subtrees that say they hold one.
-/

namespace TreeLint

namespace Concrete

/-- An error or missing node of a source. -/
structure Fault where
  startByte : UInt64
  endByte : UInt64
  /-- Line and column of the start, counted from one. -/
  place : Nat × Nat
  context : String
  message : String
deriving DecidableEq, Repr

/-- Texts of more than fifty characters are cut to forty-seven and three points. -/
def shorten (cs : List Char) : List Char :=
  if cs.length > 50 then cs.take 47 ++ ['.', '.', '.'] else cs

def Head.isFaulty (h : Head) : Bool :=
  h.isError || h.isMissing

def Head.fault (source : String) (h : Head) : Fault :=
  { startByte := h.startByte
    endByte := h.endByte
    place := h.span.start.oneBased
    context := String.ofList (((h.span.text? source.toList).map shorten).getD [])
    message := if h.isMissing then "missing " ++ h.kind else "syntax error" }

def suspects (t : Concrete) : List Concrete :=
  if t.head.hasError then t.children else []

theorem sizeOfAll_suspects_lt (t : Concrete) : sizeOfAll t.suspects < t.size := by
  rw [size_eq]
  unfold suspects
  split
  · omega
  · simp only [sizeOfAll]
    omega

def faultsOf (source : String) (pending : List Concrete) : List Fault :=
  match pending with
  | [] => []
  | t :: rest =>
      let here := if t.head.isFaulty then [t.head.fault source] else []
      here ++ faultsOf source (t.suspects ++ rest)
termination_by sizeOfAll pending
decreasing_by
  have := sizeOfAll_suspects_lt t
  simp only [sizeOfAll_append, sizeOfAll]
  omega

def faults (source : String) (t : Concrete) : List Fault :=
  faultsOf source [t]

end Concrete

end TreeLint
