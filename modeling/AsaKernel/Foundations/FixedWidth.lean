import Mathlib.Algebra.GroupWithZero.Nat
import Mathlib.Tactic.Common

/-
  Conversions between fixed-width integers, read through
  their mathematical values.

  Signed and unsigned words of one width share their bits, so
  a conversion is the identity up to a multiple of 2^32.  The
  lemmas give the value of a conversion or of an operation
  when no wrap-around takes place.
-/

------------------------------------------------------------
-- Words Without Wrap-Around
------------------------------------------------------------

namespace AsaKernel

namespace FixedWidth

theorem bmod_of_range
    {x : Int}
    (hLow : -2147483648 ≤ x)
    (hHigh : x < 2147483648) :
    x.bmod 4294967296 = x := by
  apply Int.bmod_eq_of_le <;> omega

/- A sum that wraps around once is negative. -/
theorem bmod_of_nonneg
    {x : Int}
    (hLow : -2147483648 ≤ x)
    (hHigh : x < 4294967296)
    (hNonneg : 0 ≤ x.bmod 4294967296) :
    x.bmod 4294967296 = x := by
  by_cases hSmall : x < 2147483648
  · exact bmod_of_range hLow hSmall
  · have hMod : x % 4294967296 = x :=
      Int.emod_eq_of_lt (by omega) hHigh
    rw [Int.bmod_def] at hNonneg
    split at hNonneg <;> omega

theorem toInt_range
    (x : Int32) :
    -2147483648 ≤ x.toInt ∧ x.toInt < 2147483648 := by
  have hLow := x.le_toInt
  have hHigh := x.toInt_lt
  omega

theorem toNat_range
    (x : UInt32) :
    x.toNat < 4294967296 :=
  x.toNat_lt

/- Reading an unsigned word as signed wraps above 2^31. -/
theorem toInt_toInt32
    (x : UInt32) :
    x.toInt32.toInt = (x.toNat : Int).bmod 4294967296 :=
  BitVec.toInt_eq_toNat_bmod x.toBitVec

theorem toInt_toInt32_of_lt
    {x : UInt32}
    (hx : x.toNat < 2147483648) :
    x.toInt32.toInt = x.toNat := by
  rw [toInt_toInt32]
  exact bmod_of_range (by omega) (by omega)

/- Reading a signed word as unsigned adds 2^32 below zero. -/
theorem toNat_toUInt32
    (x : Int32) :
    (x.toUInt32.toNat : Int) = x.toInt % 4294967296 := by
  have hBits : x.toUInt32.toInt32 = x := rfl
  have hValue := toInt_toInt32 x.toUInt32
  have hRange := toNat_range x.toUInt32
  rw [hBits] at hValue
  rw [hValue, show (4294967296 : Int) =
    ((4294967296 : Nat) : Int) from rfl, Int.bmod_emod]
  omega

theorem toNat_toUInt32_of_nonneg
    {x : Int32}
    (hx : 0 ≤ x.toInt) :
    (x.toUInt32.toNat : Int) = x.toInt := by
  have hValue := toNat_toUInt32 x
  have hRange := toInt_range x
  omega

theorem toInt_add
    {x y : Int32}
    (hLow : -2147483648 ≤ x.toInt + y.toInt)
    (hHigh : x.toInt + y.toInt < 2147483648) :
    (x + y).toInt = x.toInt + y.toInt := by
  rw [Int32.toInt_add]
  exact bmod_of_range hLow hHigh

theorem toInt_sub
    {x y : Int32}
    (hLow : -2147483648 ≤ x.toInt - y.toInt)
    (hHigh : x.toInt - y.toInt < 2147483648) :
    (x - y).toInt = x.toInt - y.toInt := by
  rw [Int32.toInt_sub]
  exact bmod_of_range hLow hHigh

/- Narrowing to 16 bits keeps the value modulo 2^16. -/
theorem toNat_toUInt16
    (x : Int32) :
    (x.toUInt32.toUInt16.toNat : Int) =
      x.toInt % 65536 := by
  have hValue := toNat_toUInt32 x
  rw [UInt32.toNat_toUInt16]
  omega

/- An arithmetic shift by less than the width of a word. -/
theorem toBitVec_shiftRight
    (x : Int32)
    {k : Nat}
    (hShift : k < 32) :
    (x >>> Int32.ofNat k).toUInt32.toBitVec =
      x.toBitVec.sshiftRight k := by
  have hAmount :
      ∀ k : Fin 32,
        ((Int32.ofNat k).toBitVec.smod 32).toNat = k := by
    decide
  have hThis := hAmount ⟨k, hShift⟩
  change x.toBitVec.sshiftRight' _ = _
  unfold BitVec.sshiftRight'
  rw [hThis]

/-
  The low bits of an arithmetic shift are those of the shifted
  unsigned word, as long as none is a copy of the sign.
-/
theorem toNat_shiftRight_mod
    (x : Int32)
    {k w : Nat}
    (hShift : k < 32)
    (hWidth : k + w ≤ 32) :
    (x >>> Int32.ofNat k).toUInt32.toNat % 2 ^ w =
      x.toUInt32.toNat / 2 ^ k % 2 ^ w := by
  apply Nat.eq_of_testBit_eq
  intro i
  rw [Nat.testBit_mod_two_pow, Nat.testBit_mod_two_pow,
    ← Nat.shiftRight_eq_div_pow, Nat.testBit_shiftRight]
  have hBit :
      (x >>> Int32.ofNat k).toUInt32.toNat.testBit i =
        (x.toBitVec.sshiftRight k).getLsbD i := by
    rw [← toBitVec_shiftRight x hShift]
    rfl
  rw [hBit, BitVec.getLsbD_sshiftRight]
  by_cases hi : i < w
  · have hInside : ¬ 32 ≤ i := by omega
    have hBelow : k + i < 32 := by omega
    simp only [hi, hInside, hBelow, decide_true,
      decide_false, Bool.true_and, Bool.not_false, if_true]
    rfl
  · simp [hi]

/- A mask of low bits is a remainder. -/
theorem toNat_and_mask
    (x : Int32)
    {w : Nat}
    (hWidth : w < 32) :
    (x &&& Int32.ofNat (2 ^ w - 1)).toUInt32.toNat =
      x.toUInt32.toNat % 2 ^ w := by
  have hFits : 2 ^ w - 1 < 2 ^ 32 := by
    have hPow : 2 ^ w < 2 ^ 32 :=
      Nat.pow_lt_pow_right (by decide) hWidth
    omega
  have hMask :
      (Int32.ofNat (2 ^ w - 1)).toUInt32.toNat = 2 ^ w - 1 :=
    Nat.mod_eq_of_lt hFits
  have hBits :
      (x &&& Int32.ofNat (2 ^ w - 1)).toUInt32.toNat =
        x.toUInt32.toNat &&&
          (Int32.ofNat (2 ^ w - 1)).toUInt32.toNat :=
    BitVec.toNat_and x.toBitVec _
  rw [hBits, hMask, Nat.and_two_pow_sub_one_eq_mod]

/- A byte of a word, shifted down and masked. -/
theorem toNat_byte
    (x : Int32)
    {k : Nat}
    (hWidth : k + 8 ≤ 32) :
    ((x >>> Int32.ofNat k) &&& 0xFF).toUInt32.toUInt8.toNat =
      x.toUInt32.toNat / 2 ^ k % 256 := by
  have hMask :=
    toNat_and_mask (x >>> Int32.ofNat k) (w := 8) (by decide)
  have hBits :=
    toNat_shiftRight_mod x (k := k) (w := 8) (by omega) hWidth
  have hByte :
      ((x >>> Int32.ofNat k) &&&
          0xFF).toUInt32.toUInt8.toNat =
        ((x >>> Int32.ofNat k) &&&
          Int32.ofNat (2 ^ 8 - 1)).toUInt32.toNat % 256 :=
    UInt32.toNat_toUInt8 _
  rw [hByte, hMask, hBits]
  exact Nat.mod_mod _ 256

/- The result of a signed operation, if it does not overflow. -/
def ofInt?
    (x : Int) : Option Int32 :=
  if -2147483648 ≤ x ∧ x < 2147483648 then
    some (Int32.ofInt x)
  else none

theorem toInt_of_ofInt?
    {x : Int}
    {y : Int32}
    (hValue : ofInt? x = some y) :
    y.toInt = x := by
  rw [ofInt?, Option.ite_none_right_eq_some,
    Option.some.injEq] at hValue
  rcases hValue with ⟨⟨hLow, hHigh⟩, rfl⟩
  exact Int32.toInt_ofInt_of_le hLow hHigh

end FixedWidth

end AsaKernel
