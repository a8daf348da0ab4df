import AsaKernel.Foundations.BitFields
import AsaKernel.Foundations.FixedWidth

/-
  Segment descriptors (my-kernel-asa: gdt.h, gdt.c).

  A descriptor is filled by an initializer, when the table is
  declared, or field by field at run time.  The processor
  reads it as one word of 64 bits, of which the base and the
  limit each take several parts.

  Main declarations:
    * `GdtEntry`, `GdtEntry.word`
    * `gdtCodeSegment`, `gdtDataSegment`
    * `gdtSetCodesegmentEntry`, `gdtSetDatasegmentEntry`
    * `Describes`, `segment_descriptors`
-/

------------------------------------------------------------
-- Entries
------------------------------------------------------------

namespace AsaKernel

open BitFields FixedWidth

/- struct gdt_entry_s -/
structure GdtEntry where
  limitLow : BitVec 16
  baseLow : BitVec 16
  baseMiddle : BitVec 8
  accessAc : BitVec 1
  accessRW : BitVec 1
  accessDC : BitVec 1
  accessEx : BitVec 1
  accessOne : BitVec 1
  accessPrivl : BitVec 2
  accessPr : BitVec 1
  limitHigh : BitVec 4
  flagsZero : BitVec 1
  flagsL : BitVec 1
  flagsSz : BitVec 1
  flagsGr : BitVec 1
  baseHigh : BitVec 8
deriving DecidableEq, Repr

/- What a bit-field keeps of an unsigned value. -/
def ofUnsigned
    {w : Nat}
    (x : UInt32) : BitVec w :=
  x.toBitVec.setWidth w

/- What an unsigned bit-field keeps of an `int`. -/
def ofSigned
    {w : Nat}
    (x : Int32) : BitVec w :=
  ofUnsigned x.toUInt32

/- GDT_CODE_SEGMENT -/
def gdtCodeSegment
    (base limit : UInt32)
    (limitGr accessible conforming ringLevel : Int32) :
    GdtEntry :=
  ⟨ofUnsigned (limit &&& 0xFFFF),
    ofUnsigned (base &&& 0xFFFF),
    ofUnsigned ((base >>> 16) &&& 0xFF),
    0,
    ofSigned accessible,
    ofSigned conforming,
    1,
    1,
    ofSigned ringLevel,
    1,
    ofUnsigned ((limit >>> 16) &&& 0x0F),
    0,
    0,
    1,
    ofSigned limitGr,
    ofUnsigned ((base >>> 24) &&& 0xFF)⟩

/- GDT_DATA_SEGMENT -/
def gdtDataSegment
    (base limit : UInt32)
    (limitGr accessible direction ringLevel : Int32) :
    GdtEntry :=
  ⟨ofUnsigned (limit &&& 0xFFFF),
    ofUnsigned (base &&& 0xFFFF),
    ofUnsigned ((base >>> 16) &&& 0xFF),
    0,
    ofSigned accessible,
    ofSigned direction,
    0,
    1,
    ofSigned ringLevel,
    1,
    ofUnsigned ((limit >>> 16) &&& 0x0F),
    0,
    0,
    1,
    ofSigned limitGr,
    ofUnsigned ((base >>> 24) &&& 0xFF)⟩

/- gdt_set_codesegment_entry -/
def gdtSetCodesegmentEntry
    (entry : GdtEntry)
    (base limit : UInt32)
    (limitGranularity accessible conforming
      ringLevel : Int32) :
    GdtEntry :=
  { entry with
    baseLow := ofUnsigned (base &&& 0xFFFF)
    baseMiddle := ofUnsigned ((base >>> 16) &&& 0xFF)
    baseHigh := ofUnsigned ((base >>> 24) &&& 0xFF)
    limitLow := ofUnsigned (limit &&& 0xFFFF)
    limitHigh := ofUnsigned ((limit >>> 16) &&& 0x0F)
    flagsZero := 0
    flagsL := 0
    flagsSz := 1
    flagsGr := ofSigned limitGranularity
    accessAc := 0
    accessRW := ofSigned accessible
    accessDC := ofSigned conforming
    accessEx := 1
    accessOne := 1
    accessPrivl := ofSigned ringLevel
    accessPr := 1 }

/- gdt_set_datasegment_entry -/
def gdtSetDatasegmentEntry
    (entry : GdtEntry)
    (base limit : UInt32)
    (limitGranularity accessible direction
      ringLevel : Int32) :
    GdtEntry :=
  { entry with
    baseLow := ofUnsigned (base &&& 0xFFFF)
    baseMiddle := ofUnsigned ((base >>> 16) &&& 0xFF)
    baseHigh := ofUnsigned ((base >>> 24) &&& 0xFF)
    limitLow := ofUnsigned (limit &&& 0xFFFF)
    limitHigh := ofUnsigned ((limit >>> 16) &&& 0x0F)
    flagsZero := 0
    flagsL := 0
    flagsSz := 1
    flagsGr := ofSigned limitGranularity
    accessAc := 0
    accessRW := ofSigned accessible
    accessDC := ofSigned direction
    accessEx := 0
    accessOne := 1
    accessPrivl := ofSigned ringLevel
    accessPr := 1 }

namespace GdtEntry

/- The fields, in the order of their declaration. -/
def fields
    (e : GdtEntry) : List BitField :=
  [⟨e.limitLow⟩, ⟨e.baseLow⟩, ⟨e.baseMiddle⟩, ⟨e.accessAc⟩,
    ⟨e.accessRW⟩, ⟨e.accessDC⟩, ⟨e.accessEx⟩, ⟨e.accessOne⟩,
    ⟨e.accessPrivl⟩, ⟨e.accessPr⟩, ⟨e.limitHigh⟩,
    ⟨e.flagsZero⟩, ⟨e.flagsL⟩, ⟨e.flagsSz⟩, ⟨e.flagsGr⟩,
    ⟨e.baseHigh⟩]

/- The entry as the processor reads it. -/
def word
    (e : GdtEntry) : Nat :=
  pack e.fields

end GdtEntry

------------------------------------------------------------
-- Descriptors of the Processor
------------------------------------------------------------

/- The numbers of a descriptor, at the positions of Intel. -/
namespace Descriptor

def limit
    (word : Nat) : Nat :=
  read word 0 16 + read word 48 4 * 2 ^ 16

def base
    (word : Nat) : Nat :=
  read word 16 16 + read word 32 8 * 2 ^ 16 +
    read word 56 8 * 2 ^ 24

def type
    (word : Nat) : Nat :=
  read word 40 4

def privilege
    (word : Nat) : Nat :=
  read word 45 2

def present
    (word : Nat) : Nat :=
  read word 47 1

def size
    (word : Nat) : Nat :=
  read word 54 1

def granularity
    (word : Nat) : Nat :=
  read word 55 1

end Descriptor

/- The two kinds of segments. -/
inductive SegmentKind where
  | code
  | data
deriving DecidableEq, Repr

/-
  What is asked of a segment; the fourth number tells whether
  code is conforming, and the direction of data.
-/
@[ext] structure SegmentParams where
  base : UInt32
  limit : { limit : UInt32 // limit.toNat < 2 ^ 20 }
  limitGranularity :
    { flag : Int32 // 0 ≤ flag.toInt ∧ flag.toInt ≤ 1 }
  accessible :
    { flag : Int32 // 0 ≤ flag.toInt ∧ flag.toInt ≤ 1 }
  conformingOrDirection :
    { flag : Int32 // 0 ≤ flag.toInt ∧ flag.toInt ≤ 1 }
  ringLevel :
    { ring : Int32 // 0 ≤ ring.toInt ∧ ring.toInt ≤ 3 }

namespace SegmentKind

/- The executable bit of the type. -/
def executable : SegmentKind → Nat
| .code => 1
| .data => 0

/- The initializer of a segment. -/
def initializer
    (p : SegmentParams) : SegmentKind → GdtEntry
| .code =>
    gdtCodeSegment p.base p.limit p.limitGranularity
      p.accessible p.conformingOrDirection p.ringLevel
| .data =>
    gdtDataSegment p.base p.limit p.limitGranularity
      p.accessible p.conformingOrDirection p.ringLevel

/- The entry that is left by setting it at run time. -/
def set
    (entry : GdtEntry)
    (p : SegmentParams) : SegmentKind → GdtEntry
| .code =>
    gdtSetCodesegmentEntry entry p.base p.limit
      p.limitGranularity p.accessible
      p.conformingOrDirection p.ringLevel
| .data =>
    gdtSetDatasegmentEntry entry p.base p.limit
      p.limitGranularity p.accessible
      p.conformingOrDirection p.ringLevel

end SegmentKind

/- The word is read back as what was asked for. -/
structure Describes
    (word : Nat)
    (kind : SegmentKind)
    (p : SegmentParams) : Prop where
  base : Descriptor.base word = p.base.toNat
  limit : Descriptor.limit word = p.limit.val.toNat
  type :
    (Descriptor.type word : Int) =
      p.accessible.val.toInt * 2 +
        p.conformingOrDirection.val.toInt * 4 +
        kind.executable * 8
  privilege :
    (Descriptor.privilege word : Int) =
      p.ringLevel.val.toInt
  present : Descriptor.present word = 1
  size : Descriptor.size word = 1
  granularity :
    (Descriptor.granularity word : Int) =
      p.limitGranularity.val.toInt

------------------------------------------------------------
-- Reading an Entry Back
------------------------------------------------------------

namespace GdtEntry

variable (e : GdtEntry)

/- Some of the fields of an entry, next to each other. -/
theorem read_fields
    (i n : Nat) :
    read e.word (width (e.fields.take i))
        (width ((e.fields.drop i).take n)) =
      pack ((e.fields.drop i).take n) := by
  have hFields :
      e.fields.take i ++ (e.fields.drop i).take n ++
          (e.fields.drop i).drop n = e.fields := by
    rw [List.append_assoc, List.take_append_drop,
      List.take_append_drop]
  have hRead :=
    read_pack (e.fields.take i) ((e.fields.drop i).take n)
      ((e.fields.drop i).drop n)
  rwa [hFields] at hRead

/- The widths of the fields. -/
def widths : List Nat :=
  [16, 16, 8, 1, 1, 1, 1, 1, 2, 1, 4, 1, 1, 1, 1, 8]

theorem width_take
    (i : Nat) :
    width (e.fields.take i) = (widths.take i).sum := by
  have hWidths : e.fields.map BitField.width = widths := rfl
  unfold width
  rw [List.map_take, hWidths]

/- One field of an entry, at the width of those before it. -/
theorem read_field
    {i offset w : Nat}
    {bits : BitVec w}
    (hField : (e.fields.drop i).take 1 = [⟨bits⟩])
    (hOffset : (widths.take i).sum = offset) :
    read e.word offset w = bits.toNat := by
  have hRead := e.read_fields i 1
  rw [hField, width_take, hOffset] at hRead
  exact hRead

theorem limit_word :
    Descriptor.limit e.word =
      e.limitLow.toNat + e.limitHigh.toNat * 2 ^ 16 := by
  have hLow : read e.word 0 16 = e.limitLow.toNat :=
    e.read_field (i := 0) rfl (by decide)
  have hHigh : read e.word 48 4 = e.limitHigh.toNat :=
    e.read_field (i := 10) rfl (by decide)
  unfold Descriptor.limit
  rw [hLow, hHigh]

theorem base_word :
    Descriptor.base e.word =
      e.baseLow.toNat + e.baseMiddle.toNat * 2 ^ 16 +
        e.baseHigh.toNat * 2 ^ 24 := by
  have hLow : read e.word 16 16 = e.baseLow.toNat :=
    e.read_field (i := 1) rfl (by decide)
  have hMiddle : read e.word 32 8 = e.baseMiddle.toNat :=
    e.read_field (i := 2) rfl (by decide)
  have hHigh : read e.word 56 8 = e.baseHigh.toNat :=
    e.read_field (i := 15) rfl (by decide)
  unfold Descriptor.base
  rw [hLow, hMiddle, hHigh]

theorem type_word :
    Descriptor.type e.word =
      e.accessAc.toNat + e.accessRW.toNat * 2 +
        e.accessDC.toNat * 4 + e.accessEx.toNat * 8 := by
  have hOffset : width (e.fields.take 3) = 40 := by
    rw [width_take]
    decide
  have hWidth :
      width ((e.fields.drop 3).take 4) = 4 := rfl
  have hBits :
      pack ((e.fields.drop 3).take 4) =
        e.accessAc.toNat + e.accessRW.toNat * 2 +
          e.accessDC.toNat * 4 + e.accessEx.toNat * 8 := by
    simp only [fields, List.drop_succ_cons, List.drop_zero,
      List.take_succ_cons, List.take_zero, pack]
    omega
  have hRead := e.read_fields 3 4
  rwa [hOffset, hWidth, hBits] at hRead

theorem flags_word :
    Descriptor.privilege e.word = e.accessPrivl.toNat ∧
      Descriptor.present e.word = e.accessPr.toNat ∧
      Descriptor.size e.word = e.flagsSz.toNat ∧
      Descriptor.granularity e.word = e.flagsGr.toNat :=
  ⟨e.read_field (i := 8) rfl (by decide),
    e.read_field (i := 9) rfl (by decide),
    e.read_field (i := 13) rfl (by decide),
    e.read_field (i := 14) rfl (by decide)⟩

end GdtEntry

------------------------------------------------------------
-- Encoders
------------------------------------------------------------

/- The bits of a word that a field keeps of its mask. -/
theorem toNat_part
    (x : UInt32)
    {k w : Nat}
    (hShift : k < 32)
    (hWidth : w < 32) :
    (ofUnsigned ((x >>> UInt32.ofNat k) &&&
        UInt32.ofNat (2 ^ w - 1)) : BitVec w).toNat =
      x.toNat / 2 ^ k % 2 ^ w := by
  have hPow : 2 ^ w < 2 ^ 32 :=
    Nat.pow_lt_pow_right (by decide) hWidth
  have hMask : (UInt32.ofNat (2 ^ w - 1)).toNat = 2 ^ w - 1 :=
    Nat.mod_eq_of_lt (by omega)
  have hAmount : (UInt32.ofNat k).toNat % 32 = k := by
    rw [UInt32.toNat_ofNat']
    omega
  have hField :
      (ofUnsigned ((x >>> UInt32.ofNat k) &&&
          UInt32.ofNat (2 ^ w - 1)) : BitVec w).toNat =
        ((x >>> UInt32.ofNat k) &&&
          UInt32.ofNat (2 ^ w - 1)).toNat % 2 ^ w :=
    BitVec.toNat_setWidth _ _
  rw [hField, UInt32.toNat_and, hMask,
    Nat.and_two_pow_sub_one_eq_mod, Nat.mod_mod,
    UInt32.toNat_shiftRight, hAmount,
    Nat.shiftRight_eq_div_pow]

theorem toNat_low
    (x : UInt32) :
    (ofUnsigned (x &&& 0xFFFF) : BitVec 16).toNat =
      x.toNat / 2 ^ 0 % 2 ^ 16 := by
  have hPart := toNat_part x (k := 0) (w := 16)
  rw [show UInt32.ofNat 0 = 0 from rfl,
    UInt32.shiftRight_zero] at hPart
  exact hPart (by decide) (by decide)

/- The parts of a base are the base. -/
theorem base_parts
    (base : UInt32) :
    (ofUnsigned (base &&& 0xFFFF) : BitVec 16).toNat +
        (ofUnsigned ((base >>> 16) &&& 0xFF) :
          BitVec 8).toNat * 2 ^ 16 +
        (ofUnsigned ((base >>> 24) &&& 0xFF) :
          BitVec 8).toNat * 2 ^ 24 =
      base.toNat := by
  have hMiddle :
      (ofUnsigned ((base >>> 16) &&& 0xFF) :
          BitVec 8).toNat =
        base.toNat / 2 ^ 16 % 2 ^ 8 :=
    toNat_part base (by decide) (by decide)
  have hHigh :
      (ofUnsigned ((base >>> 24) &&& 0xFF) :
          BitVec 8).toNat =
        base.toNat / 2 ^ 24 % 2 ^ 8 :=
    toNat_part base (by decide) (by decide)
  have hRange := base.toNat_lt
  rw [toNat_low, hMiddle, hHigh]
  omega

/- The parts of a limit below 2^20 are the limit. -/
theorem limit_parts
    {limit : UInt32}
    (hFits : limit.toNat < 2 ^ 20) :
    (ofUnsigned (limit &&& 0xFFFF) : BitVec 16).toNat +
        (ofUnsigned ((limit >>> 16) &&& 0x0F) :
          BitVec 4).toNat * 2 ^ 16 =
      limit.toNat := by
  have hHigh :
      (ofUnsigned ((limit >>> 16) &&& 0x0F) :
          BitVec 4).toNat =
        limit.toNat / 2 ^ 16 % 2 ^ 4 :=
    toNat_part limit (by decide) (by decide)
  rw [toNat_low, hHigh]
  omega

/- A field that is wide enough keeps the whole number. -/
theorem toNat_ofSigned
    {x : Int32}
    {w : Nat}
    (hLow : 0 ≤ x.toInt)
    (hHigh : x.toInt < ((2 ^ w : Nat) : Int)) :
    ((ofSigned x : BitVec w).toNat : Int) = x.toInt := by
  have hValue := toNat_toUInt32_of_nonneg hLow
  have hField :
      (ofSigned x : BitVec w).toNat =
        x.toUInt32.toNat % 2 ^ w :=
    BitVec.toNat_setWidth _ _
  rw [hField, Nat.mod_eq_of_lt (by omega), hValue]

theorem toNat_flag
    (flag : { flag : Int32 //
      0 ≤ flag.toInt ∧ flag.toInt ≤ 1 }) :
    ((ofSigned flag.val : BitVec 1).toNat : Int) =
      flag.val.toInt := by
  have hRange := flag.property
  exact toNat_ofSigned hRange.1 (by omega)

/- Both ways to fill an entry leave the same fields. -/
theorem set_eq_initializer
    (entry : GdtEntry)
    (p : SegmentParams)
    (kind : SegmentKind) :
    kind.set entry p = kind.initializer p := by
  cases kind with
  | code => rfl
  | data => rfl

/- The processor reads what was asked for. -/
theorem initializer_describes
    (p : SegmentParams)
    (kind : SegmentKind) :
    Describes (kind.initializer p).word kind p := by
  rcases (kind.initializer p).flags_word with
    ⟨hPrivilege, hPresent, hSize, hGranularity⟩
  constructor
  · rw [GdtEntry.base_word]
    cases kind with
    | code => exact base_parts p.base
    | data => exact base_parts p.base
  · rw [GdtEntry.limit_word]
    cases kind with
    | code => exact limit_parts p.limit.property
    | data => exact limit_parts p.limit.property
  · have hAccessible := toNat_flag p.accessible
    have hDirection := toNat_flag p.conformingOrDirection
    rw [GdtEntry.type_word]
    cases kind with
    | code =>
        simp [SegmentKind.initializer, gdtCodeSegment,
          SegmentKind.executable, hAccessible, hDirection]
    | data =>
        simp [SegmentKind.initializer, gdtDataSegment,
          SegmentKind.executable, hAccessible, hDirection]
  · rw [hPrivilege]
    have hRing := p.ringLevel.property
    have hValue :
        ((ofSigned p.ringLevel.val : BitVec 2).toNat : Int) =
          p.ringLevel.val.toInt :=
      toNat_ofSigned hRing.1 (by omega)
    cases kind with
    | code => exact hValue
    | data => exact hValue
  · rw [hPresent]
    cases kind with
    | code => rfl
    | data => rfl
  · rw [hSize]
    cases kind with
    | code => rfl
    | data => rfl
  · rw [hGranularity]
    cases kind with
    | code => exact toNat_flag p.limitGranularity
    | data => exact toNat_flag p.limitGranularity

/- A word describes one segment. -/
theorem Describes.inj
    {word : Nat}
    {kind kind' : SegmentKind}
    {p p' : SegmentParams}
    (hThis : Describes word kind p)
    (hOther : Describes word kind' p') :
    kind = kind' ∧ p = p' := by
  have hAccessible := p.accessible.property
  have hAccessible' := p'.accessible.property
  have hDirection := p.conformingOrDirection.property
  have hDirection' := p'.conformingOrDirection.property
  have hType := hThis.type
  rw [hOther.type] at hType
  have hBits :
      kind.executable = kind'.executable ∧
        p.accessible.val.toInt = p'.accessible.val.toInt ∧
        p.conformingOrDirection.val.toInt =
          p'.conformingOrDirection.val.toInt := by
    cases kind with
    | code =>
        cases kind' with
        | code =>
            refine ⟨rfl, ?_⟩
            omega
        | data =>
            simp only [SegmentKind.executable] at hType ⊢
            omega
    | data =>
        cases kind' with
        | code =>
            simp only [SegmentKind.executable] at hType ⊢
            omega
        | data =>
            refine ⟨rfl, ?_⟩
            omega
  rcases hBits with ⟨hKind, hRW, hDC⟩
  constructor
  · cases kind with
    | code =>
        cases kind' with
        | code => rfl
        | data => cases hKind
    | data =>
        cases kind' with
        | code => cases hKind
        | data => rfl
  · apply SegmentParams.ext
    · exact UInt32.toNat_inj.mp
        (hThis.base.symm.trans hOther.base)
    · exact Subtype.ext (UInt32.toNat_inj.mp
        (hThis.limit.symm.trans hOther.limit))
    · exact Subtype.ext (Int32.toInt_inj.mp
        (hThis.granularity.symm.trans hOther.granularity))
    · exact Subtype.ext (Int32.toInt_inj.mp hRW)
    · exact Subtype.ext (Int32.toInt_inj.mp hDC)
    · exact Subtype.ext (Int32.toInt_inj.mp
        (hThis.privilege.symm.trans hOther.privilege))

/-
  The initializers and the functions fill an entry alike, the
  processor reads back what was asked for, and different
  segments have different words.
-/
theorem segment_descriptors :
    (∀ (kind : SegmentKind) (p : SegmentParams)
        (entry : GdtEntry),
      kind.set entry p = kind.initializer p) ∧
    (∀ (kind : SegmentKind) (p : SegmentParams),
      Describes (kind.initializer p).word kind p) ∧
    Function.Injective
      fun segment : SegmentKind × SegmentParams =>
        (segment.1.initializer segment.2).word := by
  refine ⟨?_, ?_, ?_⟩
  · intro kind p entry
    exact set_eq_initializer entry p kind
  · intro kind p
    exact initializer_describes p kind
  · intro segment other hWord
    have hThis := initializer_describes segment.2 segment.1
    have hOther := initializer_describes other.2 other.1
    dsimp only at hWord
    rw [hWord] at hThis
    have hSame := hThis.inj hOther
    exact Prod.ext hSame.1 hSame.2

/- The code segment of the default table. -/
example :
    (gdtCodeSegment 0 0xFFFFF 1 1 0 0).word =
      0x00CF9A000000FFFF := by
  decide

end AsaKernel
