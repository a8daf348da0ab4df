import AsaKernel.Foundations.Layout
import Mathlib.Logic.Function.Basic

/-
  Sectors and the sector-level interface of the disk driver
  (hwconfig.h, drive.h).

  `Drive δ` is what volume.c uses of a drive whose state has
  type `δ`: transfer of one sector in either direction, and
  the formatting of one sector that `format_sector` repeats.
  `Disk` is the sector-level disk, on which a transfer returns
  or replaces exactly the addressed sector.

  Main declarations:
    * `Sector`, `Sector.memcpy`, `Sector.filled`
    * `Drive`, `Drive.formatSector`
    * `Disk`
-/

------------------------------------------------------------
-- Geometry and Sector Contents
------------------------------------------------------------

namespace AsaKernel

/- HDA_MAXCYLINDER -/
abbrev hdaMaxCylinder : Nat := 16

/- HDA_MAXSECTOR -/
abbrev hdaMaxSector : Nat := 16

/- HDA_SECTORSIZE -/
abbrev hdaSectorSize : Nat := 256

/- The content of one sector, or of a buffer of that size. -/
abbrev Sector := List.Vector UInt8 hdaSectorSize

namespace Sector

/-
  `memcpy(dst, src, n)` into a sector-sized buffer: the `n`
  bytes of `src` replace the first ones of `dst`.
-/
def memcpy
    (dst : Sector)
    (src : List UInt8) : Sector :=
  ⟨src.take hdaSectorSize ++ dst.toList.drop src.length, by
    rw [List.length_append, List.length_take,
      List.length_drop, dst.toList_length]
    omega⟩

/- A structure copied into a buffer is read back unchanged. -/
theorem decode_memcpy
    {α : Type}
    (layout : Layout α)
    (hFits : layout.size ≤ hdaSectorSize)
    (dst : Sector)
    (a : α) :
    layout.decode
      (memcpy dst (layout.encode a)).toList = a := by
  have hTake :
      (layout.encode a).take hdaSectorSize =
        layout.encode a := by
    apply List.take_of_length_le
    rw [layout.length_encode]
    exact hFits
  change layout.decode
    ((layout.encode a).take hdaSectorSize ++ _) = a
  rw [hTake, layout.decode_encode]

/- The buffer then begins with the structure's bytes. -/
theorem encode_prefix_memcpy
    {α : Type}
    (layout : Layout α)
    (hFits : layout.size ≤ hdaSectorSize)
    (dst : Sector)
    (a : α) :
    layout.encode a <+:
      (memcpy dst (layout.encode a)).toList := by
  have hTake :
      (layout.encode a).take hdaSectorSize =
        layout.encode a := by
    apply List.take_of_length_le
    rw [layout.length_encode]
    exact hFits
  refine ⟨dst.toList.drop (layout.encode a).length, ?_⟩
  change _ = (layout.encode a).take hdaSectorSize ++ _
  rw [hTake]

/-
  The bytes that are copied hide the first ones of the buffer
  and no others.
-/
theorem memcpy_eq_iff
    {dst dst' : Sector}
    {src : List UInt8} :
    memcpy dst src = memcpy dst' src ↔
      dst.toList.drop src.length =
        dst'.toList.drop src.length := by
  have hBytes :
      memcpy dst src = memcpy dst' src ↔
        (memcpy dst src).toList = (memcpy dst' src).toList :=
    ⟨congrArg List.Vector.toList, List.Vector.eq _ _⟩
  exact hBytes.trans (List.append_right_inj _)

/- A sector that repeats four bytes. -/
def pattern
    (b₀ b₁ b₂ b₃ : UInt8) : Sector :=
  ⟨(List.replicate 64 [b₀, b₁, b₂, b₃]).flatten, by
    rw [List.length_flatten, List.map_replicate,
      List.sum_replicate]
    rfl⟩

/- A sector formatted with a 32-bit value, high byte first. -/
def filled
    (value : UInt32) : Sector :=
  pattern (value >>> 24).toUInt8 (value >>> 16).toUInt8
    (value >>> 8).toUInt8 value.toUInt8

end Sector

------------------------------------------------------------
-- Drives
------------------------------------------------------------

/- What volume.c uses of a drive. -/
class Drive (δ : Type) where
  readSector :
    (ncyl nsect : UInt16) → δ → Sector × δ
  writeSector :
    (ncyl nsect : UInt16) → (buffer : Sector) → δ → δ
  formatOne :
    (cylinder sector value : UInt32) → δ → δ

namespace Drive

variable {δ : Type} [Drive δ]

/-
  The loop of `format_sector`, with the number of iterations
  left: format the sector at hand, then step to the next one
  and carry into the cylinder.
-/
def formatLoop
    (value : UInt32) :
    Nat → (newcyl newsect : UInt32) → δ → δ
| 0, _, _, dev => dev
| k + 1, newcyl, newsect, dev =>
    let dev := formatOne newcyl newsect value dev
    let newsect :=
      (newsect + 1) % UInt32.ofNat hdaMaxSector
    let newcyl :=
      if newsect = 0 then newcyl + 1 else newcyl
    formatLoop value k newcyl newsect dev

/- format_sector -/
def formatSector
    (cylinder sector nsector value : UInt32)
    (dev : δ) : δ :=
  formatLoop value nsector.toNat cylinder sector dev

end Drive

------------------------------------------------------------
-- The Sector-Level Disk
------------------------------------------------------------

/- A cylinder and a sector as the driver declares them. -/
abbrev SectorAddr := UInt16 × UInt16

/- The sector-level disk. -/
abbrev Disk := SectorAddr → Sector

instance : Drive Disk where
  readSector ncyl nsect disk :=
    (disk (ncyl, nsect), disk)
  writeSector ncyl nsect buffer disk :=
    Function.update disk (ncyl, nsect) buffer
  formatOne cylinder sector value disk :=
    Function.update disk
      (cylinder.toUInt16, sector.toUInt16)
      (Sector.filled value)

namespace Disk

@[simp] theorem readSector_eq
    (ncyl nsect : UInt16)
    (disk : Disk) :
    Drive.readSector ncyl nsect disk =
      (disk (ncyl, nsect), disk) := rfl

@[simp] theorem writeSector_eq
    (ncyl nsect : UInt16)
    (buffer : Sector)
    (disk : Disk) :
    Drive.writeSector ncyl nsect buffer disk =
      Function.update disk (ncyl, nsect) buffer := rfl

@[simp] theorem formatOne_eq
    (cylinder sector value : UInt32)
    (disk : Disk) :
    Drive.formatOne cylinder sector value disk =
      Function.update disk
        (cylinder.toUInt16, sector.toUInt16)
        (Sector.filled value) := rfl

end Disk

end AsaKernel
