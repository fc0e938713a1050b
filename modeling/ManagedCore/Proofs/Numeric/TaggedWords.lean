import ManagedCore.Value
import Mathlib.Data.Int.ModEq

/-!
# Tagged words

A word is read in two ways: its low two bits are the tag, and all of it is a signed number of which
a fixnum is one half. The fixnum of a number keeps what the number is modulo `2 ^ 63`, and reads
back as the one number with this remainder between `-2 ^ 62` and `2 ^ 62`. A reference is its
address and one.

Main statement: every value that a client can make is a fixnum or a reference and not both, decoding
undoes encoding as far as the dropped bit allows, and encoding undoes decoding.
-/

namespace ManagedCore.Value

variable {v : Value}

/-- The word read as a signed number. -/
def signedWord (v : Value) : Int := v.word.toInt64.toInt

/-- The values that a client can make. A pointer stands for its address. -/
inductive Constructed : Value → Prop
  | zero : Constructed zero
  | fixnum (n : Int64) : Constructed (ofFixnum n)
  | unsigned (n : UInt64) : Constructed (ofUInt64 n)
  | size (n : Nat) : Constructed (ofNat n)
  | reference {address : UInt64} {v : Value} (h : ofAddress address = .ok v) : Constructed v

/-! ## Tags -/

/-- The tag bits of a word are its remainder by four. -/
theorem toNat_and_tagMask (w : UInt64) : (w &&& tagMask).toNat = w.toNat % 4 := by
  rw [UInt64.toNat_and]
  exact Nat.and_two_pow_sub_one_eq_mod _ 2

/-- A word without its tag bits is the multiple of four below it. -/
theorem toNat_and_not_tagMask (w : UInt64) :
    (w &&& ~~~tagMask).toNat = w.toNat - w.toNat % 4 := by
  have hmask : (~~~tagMask).toBitVec = BitVec.allOnes 64 <<< 2 := by decide
  have hshift : w.toBitVec &&& (~~~tagMask).toBitVec = w.toBitVec >>> 2 <<< 2 := by
    rw [hmask, BitVec.shiftLeft_ushiftRight]
  have hlt := w.toBitVec.isLt
  show (w.toBitVec &&& (~~~tagMask).toBitVec).toNat = w.toBitVec.toNat - w.toBitVec.toNat % 4
  rw [hshift, BitVec.toNat_shiftLeft, BitVec.toNat_ushiftRight, Nat.shiftLeft_eq,
    Nat.shiftRight_eq_div_pow]
  omega

/-- A word is tagged as a fixnum when it is even. -/
theorem isFixnum_iff : v.isFixnum = true ↔ v.word.toNat % 2 = 0 := by
  have hlow : (v.word &&& 1).toNat = v.word.toNat % 2 := by
    rw [UInt64.toNat_and]
    exact Nat.and_two_pow_sub_one_eq_mod _ 1
  rw [isFixnum, beq_iff_eq, ← UInt64.toNat_inj, hlow]
  rfl

/-- A word is tagged as a reference when it is one more than a multiple of four. -/
theorem isReference_iff : v.isReference = true ↔ v.word.toNat % 4 = 1 := by
  rw [isReference, beq_iff_eq, ← UInt64.toNat_inj, toNat_and_tagMask]
  rfl

/-! ## References -/

/-- The reference of an aligned address is the address and one. -/
theorem ofAddress_eq_ok_iff {address : UInt64} :
    ofAddress address = .ok v ↔ address.toNat % 4 = 0 ∧ v.word.toNat = address.toNat + 1 := by
  have haligned : address &&& tagMask = 0 ↔ address.toNat % 4 = 0 := by
    rw [← UInt64.toNat_inj, toNat_and_tagMask]
    rfl
  rw [ofAddress]
  by_cases h : address &&& tagMask = 0
  · -- no bit of the tag is set in the address, so setting it adds it
    have hsum : (address ||| referenceTag).toNat = address.toNat + 1 := by
      have hor := Nat.two_pow_add_eq_or_of_lt (show 1 < 2 ^ 2 by decide) (address.toNat / 4)
      rw [haligned] at h
      rw [show 2 ^ 2 * (address.toNat / 4) = address.toNat by omega] at hor
      rw [UInt64.toNat_or, hor]
      rfl
    rw [if_pos h, Except.ok.injEq, ← hsum, UInt64.toNat_inj, and_iff_right (haligned.mp h)]
    constructor
    · rintro rfl
      rfl
    · rintro hword
      rw [← hword]
  · rw [if_neg h]
    simp only [reduceCtorEq, false_iff]
    exact fun hboth => h (haligned.mpr hboth.1)

/-- The address of a reference is its word less one. -/
theorem address?_eq_some_iff {address : UInt64} :
    v.address? = some address ↔ address.toNat % 4 = 0 ∧ v.word.toNat = address.toNat + 1 := by
  rw [address?]
  by_cases h : v.isReference = true
  · rw [if_pos h, Option.some_inj, ← UInt64.toNat_inj, toNat_and_not_tagMask]
    rw [isReference_iff] at h
    omega
  · rw [if_neg h]
    rw [isReference_iff] at h
    simp only [reduceCtorEq, false_iff]
    omega

/-- Making a reference and taking its address undo each other. -/
theorem ofAddress_eq_ok_iff_address? {address : UInt64} :
    ofAddress address = .ok v ↔ v.address? = some address := by
  rw [ofAddress_eq_ok_iff, address?_eq_some_iff]

/-- The addresses that have a reference are the multiples of four. -/
theorem exists_ofAddress_iff {address : UInt64} :
    (∃ v, ofAddress address = .ok v) ↔ 4 ∣ address.toNat := by
  constructor
  · rintro ⟨v, hv⟩
    exact Nat.dvd_of_mod_eq_zero (ofAddress_eq_ok_iff.mp hv).1
  · intro hdvd
    have haligned := Nat.mod_eq_zero_of_dvd hdvd
    have hlt := address.toNat_lt
    have hword : (UInt64.ofNat (address.toNat + 1)).toNat = address.toNat + 1 := by
      rw [UInt64.toNat_ofNat']
      omega
    exact ⟨⟨UInt64.ofNat (address.toNat + 1)⟩, ofAddress_eq_ok_iff.mpr ⟨haligned, hword⟩⟩

/-! ## Fixnums -/

/-- A word is even in both readings or in none. -/
theorem signedWord_emod_two (v : Value) : v.signedWord % 2 = (v.word.toNat % 2 : Nat) := by
  have hlt := v.word.toBitVec.isLt
  show v.word.toBitVec.toInt % 2 = ((v.word.toBitVec.toNat % 2 : Nat) : Int)
  rw [BitVec.toInt_eq_toNat_bmod, Int.bmod_def]
  split <;> omega

/-- A signed word is one word. -/
theorem signedWord_inj {w : Value} : v.signedWord = w.signedWord ↔ v = w := by
  rw [signedWord, signedWord, Int64.toInt_inj]
  constructor
  · intro h
    have hword : v.word = w.word := congrArg Int64.toUInt64 h
    cases v
    cases w
    cases hword
    rfl
  · rintro rfl
    rfl

/-- Shifting a signed number right by one halves it towards lower numbers. -/
theorem toInt_shiftRight_one (n : Int64) : (n >>> 1).toInt = n.toInt / 2 := by
  show (n >>> 1).toBitVec.toInt = n.toBitVec.toInt / 2
  rw [Int64.toBitVec_shiftRight, show (1 : Int64).toBitVec.smod 64 = 1#64 by decide,
    BitVec.sshiftRight', BitVec.toInt_sshiftRight, Int.shiftRight_eq_div_pow]
  rfl

/-- The number of a fixnum is half of its signed word. -/
theorem fixnum?_eq_some_iff {n : Int64} : v.fixnum? = some n ↔ v.signedWord = 2 * n.toInt := by
  have hparity := signedWord_emod_two v
  rw [fixnum?]
  by_cases h : v.isFixnum = true
  · rw [if_pos h, Option.some_inj, ← Int64.toInt_inj, toInt_shiftRight_one]
    rw [isFixnum_iff] at h
    show v.signedWord / 2 = _ ↔ _
    omega
  · rw [if_neg h]
    rw [isFixnum_iff] at h
    simp only [reduceCtorEq, false_iff]
    omega

/-- The signed word of a fixnum is twice its number, as far as words go. -/
theorem signedWord_ofFixnum (n : Int64) :
    (ofFixnum n).signedWord = (2 * n.toInt).bmod (2 ^ 64) := by
  show (n.toBitVec <<< 1).toInt = (2 * n.toBitVec.toInt).bmod (2 ^ 64)
  rw [BitVec.toInt_shiftLeft, BitVec.toInt_eq_toNat_bmod, Int.mul_bmod_bmod, Nat.shiftLeft_eq,
    Nat.mul_comm]
  rfl

/-- A fixnum is half of an even word, so its number has one bit less than a word. -/
theorem signedWord_ofFixnum_eq_iff {n : Int64} {k : Int} :
    (ofFixnum n).signedWord = 2 * k ↔ -2 ^ 62 ≤ k ∧ k < 2 ^ 62 ∧ k ≡ n.toInt [ZMOD 2 ^ 63] := by
  rw [signedWord_ofFixnum, Int.bmod_def, Int.ModEq]
  split <;> omega

/-- A fixnum of an unsigned number is that of the signed number with the same bits. -/
theorem ofUInt64_eq_ofFixnum {n : Int64} {u : UInt64} (h : u.toBitVec = n.toBitVec) :
    ofUInt64 u = ofFixnum n ∧ ofNat u.toNat = ofFixnum n := by
  have hu : u = n.toUInt64 := UInt64.toBitVec_inj.mp h
  refine ⟨by rw [hu, ofFixnum], ?_⟩
  rw [ofNat, UInt64.ofNat_toNat, hu, ofFixnum]

/-- What is made as a fixnum is tagged as one. -/
theorem isFixnum_ofFixnum (n : Int64) : (ofFixnum n).isFixnum = true := by
  have hparity := signedWord_emod_two (ofFixnum n)
  rw [signedWord_ofFixnum, Int.bmod_def] at hparity
  rw [isFixnum_iff]
  split at hparity <;> omega

/-- The number that a fixnum is read as makes the same fixnum. -/
theorem ofFixnum_of_fixnum? {n : Int64} (h : v.fixnum? = some n) : ofFixnum n = v := by
  have hhalf := fixnum?_eq_some_iff.mp h
  have hlow : -2 ^ 63 ≤ v.signedWord := Int64.le_toInt _
  have hhigh : v.signedWord < 2 ^ 63 := Int64.toInt_lt _
  rw [← signedWord_inj, hhalf, signedWord_ofFixnum_eq_iff]
  exact ⟨by omega, by omega, rfl⟩

/-- A fixnum of a number reads back as the number with the same remainder that a fixnum can hold. -/
theorem fixnum?_ofFixnum_iff {n m : Int64} :
    (ofFixnum n).fixnum? = some m ↔
      -2 ^ 62 ≤ m.toInt ∧ m.toInt < 2 ^ 62 ∧ m.toInt ≡ n.toInt [ZMOD 2 ^ 63] := by
  rw [fixnum?_eq_some_iff, signedWord_ofFixnum_eq_iff]

/-- Every fixnum reads back as some number, and no other number has its remainder in the range. -/
theorem exists_fixnum?_ofFixnum (n : Int64) :
    ∃ m : Int64, (ofFixnum n).fixnum? = some m ∧
      ∀ k : Int, k = m.toInt ↔ -2 ^ 62 ≤ k ∧ k < 2 ^ 62 ∧ k ≡ n.toInt [ZMOD 2 ^ 63] := by
  obtain ⟨m, hm⟩ : ∃ m, (ofFixnum n).fixnum? = some m := ⟨_, if_pos (isFixnum_ofFixnum n)⟩
  refine ⟨m, hm, fun k => ?_⟩
  rw [← signedWord_ofFixnum_eq_iff, fixnum?_eq_some_iff.mp hm]
  omega

/-- Numbers with one remainder have one fixnum. -/
theorem ofFixnum_eq_iff {a b : Int64} :
    ofFixnum a = ofFixnum b ↔ a.toInt ≡ b.toInt [ZMOD 2 ^ 63] := by
  rw [← signedWord_inj, signedWord_ofFixnum, signedWord_ofFixnum, Int.bmod_def, Int.bmod_def,
    Int.ModEq]
  split <;> split <;> omega

/-! ## Values that can be made -/

/-- The values that can be made are those without the unused tag. -/
theorem constructed_iff : v.Constructed ↔ v.word.toNat % 4 ≠ 3 := by
  constructor
  · intro h
    have heven (u : UInt64) : (ofUInt64 u).word.toNat % 4 ≠ 3 := by
      have hfixnum := isFixnum_iff.mp (isFixnum_ofFixnum u.toInt64)
      have hsame : ofUInt64 u = ofFixnum u.toInt64 := (ofUInt64_eq_ofFixnum rfl).1
      rw [hsame]
      omega
    cases h with
    | zero => decide
    | fixnum n => exact heven n.toUInt64
    | unsigned n => exact heven n
    | size n => exact heven (UInt64.ofNat n)
    | reference h =>
      have hword := ofAddress_eq_ok_iff.mp h
      omega
  · intro h
    by_cases hfixnum : v.isFixnum = true
    · exact ofFixnum_of_fixnum? (if_pos hfixnum) ▸ .fixnum _
    · rw [isFixnum_iff] at hfixnum
      have hreference : v.isReference = true := isReference_iff.mpr (by omega)
      obtain ⟨address, haddress⟩ : ∃ address, v.address? = some address := ⟨_, if_pos hreference⟩
      exact .reference (ofAddress_eq_ok_iff_address?.mpr haddress)

/-- What the tag of a value that can be made says of it. -/
theorem Constructed.tagged (h : v.Constructed) :
    v.isFixnum = (!v.isReference) ∧ v.fixnum?.isSome = v.isFixnum ∧
      v.address?.isSome = v.isReference := by
  rw [constructed_iff] at h
  refine ⟨?_, ?_, ?_⟩
  · rw [Bool.eq_iff_iff, Bool.not_eq_true', ← Bool.not_eq_true, isFixnum_iff, isReference_iff]
    omega
  · rw [fixnum?]
    split <;> simp_all
  · rw [address?]
    split <;> simp_all

/--
The values that can be made are those without the unused tag, and each is a fixnum or a reference
and not both; what is decoded from it encodes to it again. A fixnum reads back as its number modulo
`2 ^ 63`, which is all that it keeps. An address has a reference exactly if it is a multiple of four,
and reads back as it is; no fixnum is a reference.
-/
theorem constructed_decodes :
    (∀ v : Value, v.Constructed ↔ v.word &&& tagMask ≠ 3) ∧
    (∀ v : Value, v.Constructed →
      v.isFixnum = (!v.isReference) ∧ v.fixnum?.isSome = v.isFixnum ∧
      v.address?.isSome = v.isReference ∧
      (∀ n, v.fixnum? = some n → ofFixnum n = v) ∧
      ∀ address, v.address? = some address → ofAddress address = .ok v) ∧
    (∀ n : Int64,
      (∃ m : Int64, (ofFixnum n).fixnum? = some m ∧
        ∀ k : Int, k = m.toInt ↔ -2 ^ 62 ≤ k ∧ k < 2 ^ 62 ∧ k ≡ n.toInt [ZMOD 2 ^ 63]) ∧
      ((ofFixnum n).fixnum? = some n ↔ -2 ^ 62 ≤ n.toInt ∧ n.toInt < 2 ^ 62) ∧
      ∀ u : UInt64, u.toBitVec = n.toBitVec →
        ofUInt64 u = ofFixnum n ∧ ofNat u.toNat = ofFixnum n) ∧
    (∀ a b : Int64, ofFixnum a = ofFixnum b ↔ a.toInt ≡ b.toInt [ZMOD 2 ^ 63]) ∧
    ∀ address : UInt64,
      ((∃ v, ofAddress address = .ok v) ↔ 4 ∣ address.toNat) ∧
      ∀ v, ofAddress address = .ok v →
        v.address? = some address ∧ (∀ other, ofAddress other = .ok v → other = address) ∧
        ∀ n, v ≠ ofFixnum n := by
  refine ⟨fun v => ?_, fun v h => ⟨h.tagged.1, h.tagged.2.1, h.tagged.2.2,
      fun n => ofFixnum_of_fixnum?, fun address => ofAddress_eq_ok_iff_address?.mpr⟩,
    fun n => ⟨exists_fixnum?_ofFixnum n, ?_, fun u => ofUInt64_eq_ofFixnum⟩,
    fun a b => ofFixnum_eq_iff,
    fun address => ⟨exists_ofAddress_iff, fun v hv => ⟨ofAddress_eq_ok_iff_address?.mp hv, ?_, ?_⟩⟩⟩
  · rw [constructed_iff, Ne, Ne, ← UInt64.toNat_inj, toNat_and_tagMask]
    rfl
  · rw [fixnum?_ofFixnum_iff]
    exact ⟨fun h => ⟨h.1, h.2.1⟩, fun h => ⟨h.1, h.2, rfl⟩⟩
  · intro other hother
    rw [ofAddress_eq_ok_iff_address?] at hv hother
    exact Option.some.inj (hother.symm.trans hv)
  · rintro n rfl
    have hfixnum := isFixnum_iff.mp (isFixnum_ofFixnum n)
    have hword := ofAddress_eq_ok_iff.mp hv
    omega

/--
At the end of the range a fixnum reads back as a negative number, which makes it again, and so does
the unsigned number with its top bit set. A reference reads back as its address, and an address that
is no multiple of four has none.
-/
theorem constructed_decodes_wrapped :
    (ofFixnum 0x4000000000000000).fixnum? = some (-0x4000000000000000) ∧
      (ofFixnum 0x4000000000000000).Constructed ∧
      ofFixnum (-0x4000000000000000) = ofFixnum 0x4000000000000000 ∧
      (ofUInt64 0x8000000000000005 = ofFixnum (-0x7ffffffffffffffb) ∧
        ofFixnum (-0x7ffffffffffffffb) = ofFixnum 5) ∧
      (∃ v, ofAddress 0xfffffffffffffffc = .ok v ∧ v.address? = some 0xfffffffffffffffc ∧
        v.isFixnum = false ∧ v ≠ ofFixnum (-2)) ∧
      ¬∃ v, ofAddress 0xfffffffffffffffe = .ok v := by
  obtain ⟨-, hconstructed, hfixnums, hequal, hreferences⟩ := constructed_decodes
  have hdecoded : (ofFixnum 0x4000000000000000).fixnum? = some (-0x4000000000000000) := by
    decide +kernel
  have hmade : (ofFixnum 0x4000000000000000).Constructed := .fixnum _
  obtain ⟨v, hv⟩ := (hreferences 0xfffffffffffffffc).1.mpr (by decide +kernel)
  obtain ⟨haddress, -, hapart⟩ := (hreferences 0xfffffffffffffffc).2 v hv
  have htag := (hconstructed v (.reference hv)).2.2.1
  rw [haddress] at htag
  refine ⟨hdecoded, hmade, (hconstructed _ hmade).2.2.2.1 _ hdecoded,
    ⟨((hfixnums (-0x7ffffffffffffffb)).2.2 0x8000000000000005 (by decide +kernel)).1,
      (hequal _ _).mpr (by decide +kernel)⟩,
    ⟨v, hv, haddress, ?_, hapart (-2)⟩, fun h => absurd ((hreferences _).1.mp h) (by decide +kernel)⟩
  rw [(hconstructed v (.reference hv)).1, ← htag]
  rfl

end ManagedCore.Value
