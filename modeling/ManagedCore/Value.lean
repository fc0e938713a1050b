import ManagedCore.Word

/-!
# Tagged values

A value is one 64-bit word. A clear bit 0 marks a fixnum, whose number is the word shifted right by
one; the low bits `01` mark a reference, whose address is the word with these bits cleared. The
pattern `11` is not used. A collector only looks at references, and leaves fixnums as they are.
-/

namespace ManagedCore

/-- One cell: a fixnum or a reference. -/
structure Value where
  word : UInt64
  deriving DecidableEq, Inhabited

namespace Value

/-- The low bits that an address leaves free for a tag. -/
def tagMask : UInt64 := 3

/-- The tag of a fixnum. -/
def fixnumTag : UInt64 := 0

/-- The tag of a reference. -/
def referenceTag : UInt64 := 1

/-- The fixnum of an unsigned number; the top bit is dropped. -/
def ofUInt64 (n : UInt64) : Value := ⟨n <<< 1⟩

/-- The fixnum of a signed number; the top bit is dropped. -/
def ofFixnum (n : Int64) : Value := ofUInt64 n.toUInt64

/-- The fixnum of a size or an index. -/
def ofNat (n : Nat) : Value := ofUInt64 (UInt64.ofNat n)

/-- The fixnum zero, which fills a new frame. -/
def zero : Value := ⟨0⟩

/-- A reference to an address, which must be a multiple of four. -/
def ofAddress (address : UInt64) : Except Violation Value :=
  if address &&& tagMask = 0 then .ok ⟨address ||| referenceTag⟩
  else .error (.misalignedAddress (address &&& tagMask).toNat)

/-- Whether the word is tagged as a fixnum. -/
def isFixnum (v : Value) : Bool := v.word &&& 1 == fixnumTag

/-- Whether the word is tagged as a reference. -/
def isReference (v : Value) : Bool := v.word &&& tagMask == referenceTag

/-- The number of a fixnum. -/
def fixnum? (v : Value) : Option Int64 :=
  if v.isFixnum then some (v.word.toInt64 >>> 1) else none

/-- The address of a reference. -/
def address? (v : Value) : Option UInt64 :=
  if v.isReference then some (v.word &&& ~~~tagMask) else none

/-- The raw word inside the name of its kind. -/
def inspect (v : Value) : String := s!"Value({v.word})"

example : (ofFixnum (-5)).fixnum? = some (-5) := by decide

/-- The top bit of a fixnum is lost: `2 ^ 62` reads back as its negation. -/
example : (ofFixnum 4611686018427387904).fixnum? = some (-4611686018427387904) := by decide

end Value

end ManagedCore
