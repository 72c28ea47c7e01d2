import TreeLint.Text.Offset
import TreeLint.Text.Pieces

/-!
# File names

A file system knows names by their bytes.  Most names are the UTF-8 of some text, but none
has to be.
-/

namespace TreeLint

/-- What stands between two slashes of a path. -/
structure FileName where
  bytes : List UInt8
deriving DecidableEq, Repr

namespace FileName

def slash : UInt8 :=
  47

def point : UInt8 :=
  46

def ofText (text : String) : FileName :=
  ⟨Text.utf8 text⟩

instance : Coe String FileName :=
  ⟨ofText⟩

def text? (name : FileName) : Option String :=
  String.fromUTF8? name.bytes.toByteArray

def before (a b : FileName) : Bool :=
  decide (a.bytes < b.bytes)

/-- Does a name begin with a point?  Only a name that is text is asked. -/
def isHidden (name : FileName) : Bool :=
  name.text?.any fun text => text.toList.head? == some '.'

def stays (part : FileName) : Bool :=
  part.bytes = [] || part.bytes = [point]

def goesUp (part : FileName) : Bool :=
  part.bytes = [point, point]

def parts (path : List UInt8) : List FileName :=
  (Text.pieces slash path).map mk

theorem text?_eq_some_iff {name : FileName} {text : String} :
    name.text? = some text ↔ name = ofText text := by
  have hbytes : name = ofText text ↔ name.bytes.toByteArray = text.toByteArray := by
    rw [← Text.toByteArray_utf8, List.toByteArray_inj]
    exact ⟨congrArg bytes, fun h => congrArg mk h⟩
  rw [hbytes, text?, String.fromUTF8?]
  split
  · rw [Option.some.injEq, ← String.toByteArray_inj]
    rfl
  · rename_i hinvalid
    constructor
    · intro h
      cases h
    · intro h
      rw [h] at hinvalid
      exact absurd text.isValidUTF8 hinvalid

@[simp] theorem text?_ofText (text : String) : (ofText text).text? = some text :=
  text?_eq_some_iff.2 rfl

@[simp] theorem ofText_inj {a b : String} : ofText a = ofText b ↔ a = b := by
  rw [← Text.utf8_inj]
  exact ⟨congrArg bytes, fun h => congrArg mk h⟩

theorem isHidden_ofText (text : String) :
    (ofText text).isHidden = (text.toList.head? == some '.') := by
  rw [isHidden, text?_ofText, Option.any_some]

end FileName

end TreeLint
