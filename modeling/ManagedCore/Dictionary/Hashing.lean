import ManagedCore.Value

/-!
# Hash functions

A key has a base hash that depends on its content alone. A dictionary may be given the base hash
itself or one of a few functions of it, which spread keys badly on purpose: they put many keys into
one bucket, or tell keys apart only by high bits.
-/

namespace ManagedCore

/-- The 64-bit hash that multiplies after mixing in each byte. -/
def fnv1a (bytes : List UInt8) : UInt64 :=
  bytes.foldl (fun hash byte => (hash ^^^ byte.toUInt64) * 0x100000001b3) 0xcbf29ce484222325

/-- Keys with a base hash. -/
class BaseHash (K : Type) where
  baseHash : K → UInt64

export BaseHash (baseHash)

/-- The bit pattern of a number. -/
instance : BaseHash Int64 where
  baseHash n := n.toUInt64

/-- The raw word of a value. -/
instance : BaseHash Value where
  baseHash v := v.word

/-- A byte that no encoding contains ends the text, so no text is the beginning of another. -/
instance : BaseHash String where
  baseHash text := fnv1a (text.toUTF8.toList ++ [0xff])

/-- A function of the base hash. -/
inductive HashSpread where
  | identity
  | constant (hash : UInt64)
  | modulo (divisor : UInt64)
  | shiftLeft (bits : Nat)
  | shiftRight (bits : Nat)

/-- The hash made from a base hash. Shifts fill with zeros. -/
def HashSpread.apply (spread : HashSpread) (hash : UInt64) : UInt64 :=
  match spread with
  | identity => hash
  | constant hash => hash
  | modulo divisor => hash % divisor
  | shiftLeft bits => if bits < 64 then hash <<< UInt64.ofNat bits else 0
  | shiftRight bits => if bits < 64 then hash >>> UInt64.ofNat bits else 0

end ManagedCore
