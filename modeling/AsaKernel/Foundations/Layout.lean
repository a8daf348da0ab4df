import Mathlib.Data.Vector.Basic
import Mathlib.Tactic.Common

/-
  Fixed-size memory images of values.

  A `Layout α` says how a value of type `α` is laid out in
  memory: a number of bytes, the bytes of a value, and how a
  value is read back from memory that starts with them.  The
  laws are fields, so every layout built here round-trips by
  construction.

  Main declarations:
    * `littleEndian`, `ofLittleEndian`
    * `Layout`
    * `Layout.word8`, `Layout.word16`, `Layout.word32`
    * `Layout.int32`, `Layout.word64`
    * `Layout.bytes`, `Layout.prod`, `Layout.array`
    * `Layout.map`
-/

------------------------------------------------------------
-- Little-Endian Numbers
------------------------------------------------------------

namespace AsaKernel

/- The `k` low-order bytes of a number, lowest first. -/
def littleEndian :
    Nat → Nat → List UInt8
| 0, _ => []
| k + 1, n => UInt8.ofNat n :: littleEndian k (n / 256)

/- The number that the first `k` bytes spell, lowest first. -/
def ofLittleEndian :
    Nat → List UInt8 → Nat
| 0, _ => 0
| _ + 1, [] => 0
| k + 1, b :: bs => b.toNat + 256 * ofLittleEndian k bs

@[simp] theorem length_littleEndian
    (k n : Nat) :
    (littleEndian k n).length = k := by
  induction k generalizing n with
  | zero => rfl
  | succ k ih => simp [littleEndian, ih]

theorem ofLittleEndian_append
    (k n : Nat)
    (rest : List UInt8) :
    ofLittleEndian k (littleEndian k n ++ rest) =
      n % 256 ^ k := by
  induction k generalizing n with
  | zero => simp [ofLittleEndian, Nat.mod_one]
  | succ k ih =>
      have hByte : (UInt8.ofNat n).toNat = n % 256 := by
        simp
      simp only [littleEndian, List.cons_append,
        ofLittleEndian, hByte, ih]
      rw [Nat.pow_succ, Nat.mul_comm (256 ^ k) 256,
        Nat.mod_mul]

------------------------------------------------------------
-- Layouts
------------------------------------------------------------

/- How the values of a type are laid out in memory. -/
structure Layout (α : Type) where
  size : Nat
  encode : α → List UInt8
  decode : List UInt8 → α
  length_encode : ∀ a, (encode a).length = size
  decode_encode :
    ∀ a rest, decode (encode a ++ rest) = a

namespace Layout

variable {α β : Type}

attribute [simp] length_encode decode_encode

/- An unsigned 8-bit word. -/
def word8 : Layout UInt8 where
  size := 1
  encode x := littleEndian 1 x.toNat
  decode bs := UInt8.ofNat (ofLittleEndian 1 bs)
  length_encode x := length_littleEndian 1 x.toNat
  decode_encode x rest := by
    have hFits : x.toNat < 256 ^ 1 := x.toNat_lt
    rw [ofLittleEndian_append, Nat.mod_eq_of_lt hFits]
    exact UInt8.ofNat_toNat

/- An unsigned 16-bit word. -/
def word16 : Layout UInt16 where
  size := 2
  encode x := littleEndian 2 x.toNat
  decode bs := UInt16.ofNat (ofLittleEndian 2 bs)
  length_encode x := length_littleEndian 2 x.toNat
  decode_encode x rest := by
    have hFits : x.toNat < 256 ^ 2 := x.toNat_lt
    rw [ofLittleEndian_append, Nat.mod_eq_of_lt hFits]
    exact UInt16.ofNat_toNat

/- An unsigned 32-bit word. -/
def word32 : Layout UInt32 where
  size := 4
  encode x := littleEndian 4 x.toNat
  decode bs := UInt32.ofNat (ofLittleEndian 4 bs)
  length_encode x := length_littleEndian 4 x.toNat
  decode_encode x rest := by
    have hFits : x.toNat < 256 ^ 4 := x.toNat_lt
    rw [ofLittleEndian_append, Nat.mod_eq_of_lt hFits]
    exact UInt32.ofNat_toNat

/- An unsigned 64-bit word, such as a pointer. -/
def word64 : Layout UInt64 where
  size := 8
  encode x := littleEndian 8 x.toNat
  decode bs := UInt64.ofNat (ofLittleEndian 8 bs)
  length_encode x := length_littleEndian 8 x.toNat
  decode_encode x rest := by
    have hFits : x.toNat < 256 ^ 8 := x.toNat_lt
    rw [ofLittleEndian_append, Nat.mod_eq_of_lt hFits]
    exact UInt64.ofNat_toNat

/- An array of bytes, such as a character buffer. -/
def bytes
    (n : Nat) : Layout (List.Vector UInt8 n) where
  size := n
  encode v := v.toList
  decode bs := List.Vector.ofFn fun i => bs.getD i 0
  length_encode v := v.toList_length
  decode_encode v rest := by
    apply List.Vector.ext
    intro i
    have hi : i.val < v.toList.length := by
      rw [v.toList_length]
      exact i.isLt
    rw [List.Vector.get_ofFn, List.getD_eq_getElem?_getD,
      List.getElem?_append_left hi,
      List.getElem?_eq_getElem hi]
    exact (List.Vector.get_eq_get_toList v i).symm

/- Two values laid out one after the other. -/
def prod
    (first : Layout α)
    (second : Layout β) : Layout (α × β) where
  size := first.size + second.size
  encode p := first.encode p.1 ++ second.encode p.2
  decode bs :=
    (first.decode bs,
      second.decode (bs.drop first.size))
  length_encode p := by simp
  decode_encode p rest := by
    have hDrop :
        (first.encode p.1 ++ second.encode p.2 ++
            rest).drop first.size =
          second.encode p.2 ++ rest := by
      rw [List.append_assoc,
        List.drop_left' (first.length_encode p.1)]
    rw [hDrop, List.append_assoc]
    simp

/- A value of `β` laid out as the value of `α` it stands for. -/
def map
    (layout : Layout α)
    (into : β → α)
    (back : α → β)
    (hBack : ∀ b, back (into b) = b) : Layout β where
  size := layout.size
  encode b := layout.encode (into b)
  decode bs := back (layout.decode bs)
  length_encode b := layout.length_encode (into b)
  decode_encode b rest := by
    rw [layout.decode_encode, hBack]

/- A signed 32-bit word, stored by its bits. -/
def int32 : Layout Int32 :=
  word32.map Int32.toUInt32 UInt32.toInt32 fun _ => rfl

/- The values of a list, one after the other. -/
def encodeAll
    (layout : Layout α)
    (values : List α) : List UInt8 :=
  values.flatMap layout.encode

/- Read `n` values laid out one after the other. -/
def decodeAll
    (layout : Layout α) :
    Nat → List UInt8 → List α
| 0, _ => []
| n + 1, bs =>
    layout.decode bs ::
      decodeAll layout n (bs.drop layout.size)

theorem length_encodeAll
    (layout : Layout α)
    (values : List α) :
    (layout.encodeAll values).length =
      values.length * layout.size := by
  induction values with
  | nil => simp [encodeAll]
  | cons a values ih =>
      have hCons :
          layout.encodeAll (a :: values) =
            layout.encode a ++ layout.encodeAll values :=
        rfl
      rw [hCons, List.length_append, ih,
        layout.length_encode, List.length_cons,
        Nat.succ_mul, Nat.add_comm]

theorem decodeAll_encodeAll
    (layout : Layout α)
    (values : List α)
    (rest : List UInt8) :
    layout.decodeAll values.length
      (layout.encodeAll values ++ rest) = values := by
  induction values with
  | nil => rfl
  | cons a values ih =>
      have hCons :
          layout.encodeAll (a :: values) ++ rest =
            layout.encode a ++
              (layout.encodeAll values ++ rest) := by
        simp [encodeAll]
      rw [hCons]
      simp only [List.length_cons, decodeAll,
        decode_encode]
      rw [List.drop_left' (layout.length_encode a), ih]

theorem length_decodeAll
    (layout : Layout α)
    (n : Nat)
    (bs : List UInt8) :
    (layout.decodeAll n bs).length = n := by
  induction n generalizing bs with
  | zero => rfl
  | succ n ih => simp [decodeAll, ih]

/- An array of `n` values. -/
def array
    (layout : Layout α)
    (n : Nat) : Layout (Vector α n) where
  size := n * layout.size
  encode v := layout.encodeAll v.toList
  decode bs :=
    ⟨(layout.decodeAll n bs).toArray, by
      simp [length_decodeAll]⟩
  length_encode v := by
    simp [length_encodeAll]
  decode_encode v rest := by
    have hRead :=
      layout.decodeAll_encodeAll v.toList rest
    rw [Vector.length_toList] at hRead
    apply Vector.toList_inj.mp
    simpa [Vector.toList] using hRead

end Layout

end AsaKernel
