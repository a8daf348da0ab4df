import Mathlib.Tactic.Ring

/-
  Bit-fields packed into a word.

  The fields follow each other from the least significant bit
  on.  Fields that are next to each other can be read back as
  one number, at the width of the fields before them.

  Main declarations:
    * `BitField`, `BitFields.pack`
    * `BitFields.read`, `BitFields.read_pack`
-/

------------------------------------------------------------
-- Packing
------------------------------------------------------------

namespace AsaKernel

/- Some bits, and how many they are. -/
structure BitField where
  {width : Nat}
  bits : BitVec width

namespace BitFields

/- The number of bits of all fields. -/
def width
    (fields : List BitField) : Nat :=
  (fields.map BitField.width).sum

/- The word of the fields, the lowest first. -/
def pack : List BitField → Nat
| [] => 0
| field :: fields =>
    field.bits.toNat + 2 ^ field.width * pack fields

/- The number in some bits of a word. -/
def read
    (word offset width : Nat) : Nat :=
  word / 2 ^ offset % 2 ^ width

variable (field : BitField) (fields : List BitField)

theorem width_cons :
    width (field :: fields) = field.width + width fields :=
  List.sum_cons

theorem pack_lt :
    pack fields < 2 ^ width fields := by
  induction fields with
  | nil => decide
  | cons field fields ih =>
      have hField := field.bits.isLt
      have hRest :
          2 ^ field.width * (pack fields + 1) ≤
            2 ^ field.width * 2 ^ width fields :=
        Nat.mul_le_mul_left _ ih
      rw [width_cons, Nat.pow_add]
      unfold pack
      rw [Nat.mul_add, Nat.mul_one] at hRest
      omega

theorem pack_append
    (before after : List BitField) :
    pack (before ++ after) =
      pack before + 2 ^ width before * pack after := by
  induction before with
  | nil => simp [pack, width]
  | cons field before ih =>
      rw [List.cons_append, pack, pack, ih, width_cons,
        Nat.pow_add]
      ring

/- Fields next to each other are read back as their word. -/
theorem read_pack
    (before middle after : List BitField) :
    read (pack (before ++ middle ++ after)) (width before)
        (width middle) =
      pack middle := by
  have hBefore := pack_lt before
  have hMiddle := pack_lt middle
  unfold read
  rw [List.append_assoc, pack_append, pack_append,
    Nat.add_mul_div_left _ _ (Nat.two_pow_pos _),
    Nat.div_eq_of_lt hBefore, Nat.zero_add,
    Nat.add_mul_mod_self_left, Nat.mod_eq_of_lt hMiddle]

end BitFields

end AsaKernel
