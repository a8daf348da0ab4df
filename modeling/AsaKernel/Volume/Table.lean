import AsaKernel.Drive.Sectors
import AsaKernel.Foundations.FixedWidth

/-
  The volume table and the block interface (volume.h,
  volume.c).

  An access to `mbr->volumes[i]` outside the array has no
  defined result; such accesses are `none` here, and so is
  every operation that makes one.

  Main declarations:
    * `Volume`, `Mbr`, `Mbr.layout`
    * `Mbr.volume?`, `Mbr.setVolume?`
    * `Mbr.cytToSect`
    * `Mbr.readBloc`, `Mbr.writeBloc`, `Mbr.formatVol`
    * `loadMbr`, `saveMbr`, `loadMbr_saveMbr`
    * `Volume.lin_locate`
-/

------------------------------------------------------------
-- Volumes and the Master Boot Record
------------------------------------------------------------

namespace AsaKernel

/-
  The code of a `type_e`.  A table read from the disk may hold
  any word in such a field, so the type is not restricted to
  the four named codes.
-/
abbrev TypeE := UInt32

/- BASE -/
def TypeE.base : TypeE := 0

/- volume_t -/
structure Volume where
  type : TypeE
  debutCyl : Int32
  debutSect : Int32
  nbBlocs : Int32
deriving DecidableEq, Repr

/- mbr_t -/
structure Mbr where
  nbVolume : UInt32
  volumes : Vector Volume 8
deriving DecidableEq, Repr

/- The memory image of a `volume_t`. -/
def Volume.layout : Layout Volume :=
  (Layout.word32.prod
    (Layout.int32.prod
      (Layout.int32.prod Layout.int32))).map
    (fun v => (v.type, v.debutCyl, v.debutSect, v.nbBlocs))
    (fun p => ⟨p.1, p.2.1, p.2.2.1, p.2.2.2⟩)
    (fun _ => rfl)

namespace Mbr

/- The memory image of an `mbr_t`. -/
def layout : Layout Mbr :=
  (Layout.word32.prod (Volume.layout.array 8)).map
    (fun m => (m.nbVolume, m.volumes))
    (fun p => ⟨p.1, p.2⟩)
    (fun _ => rfl)

/- sizeof(mbr_t) -/
theorem size_layout :
    layout.size = 132 := rfl

/- Read `mbr->volumes[i]`. -/
def volume?
    (mbr : Mbr)
    (i : Int) : Option Volume :=
  if 0 ≤ i then mbr.volumes[i.toNat]? else none

/- Assign `mbr->volumes[i]`. -/
def setVolume?
    (mbr : Mbr)
    (i : Int)
    (volume : Volume) : Option Mbr :=
  if h : 0 ≤ i ∧ i.toNat < 8 then
    some { mbr with
      volumes := mbr.volumes.set i.toNat volume h.2 }
  else none

end Mbr

------------------------------------------------------------
-- Block Translation
------------------------------------------------------------

/-
  The arithmetic of `cytToSect`: the block number is added to
  the start sector as an unsigned word, and a sum of at least
  HDA_MAXSECTOR is carried into the cylinder.
-/
def Volume.locate
    (volume : Volume)
    (nbloc : UInt32) : Int32 × Int32 :=
  let res0 := volume.debutCyl
  let res1 := (volume.debutSect.toUInt32 + nbloc).toInt32
  if Int32.ofNat hdaMaxSector ≤ res1 then
    (res0 + res1 / Int32.ofNat hdaMaxSector,
      res1 % Int32.ofNat hdaMaxSector)
  else (res0, res1)

/- An `int` passed where an `unsigned short` is declared. -/
def toUShort
    (x : Int32) : UInt16 :=
  x.toUInt32.toUInt16

/- The sector that the driver is asked for. -/
def sectorAddr
    (cylSect : Int32 × Int32) : SectorAddr :=
  (toUShort cylSect.1, toUShort cylSect.2)

namespace Mbr

variable {δ : Type} [Drive δ]

/- cytToSect -/
def cytToSect
    (mbr : Mbr)
    (vol nbloc : UInt32) : Option (Int32 × Int32) := do
  let volume ← mbr.volume? vol.toNat
  some (volume.locate nbloc)

/- The address of a block of a volume in the table. -/
theorem cytToSect_eq
    {mbr : Mbr}
    {vol : UInt32}
    {v : Volume}
    (hSlot : mbr.volume? vol.toNat = some v)
    (nbloc : UInt32) :
    mbr.cytToSect vol nbloc = some (v.locate nbloc) := by
  simp [cytToSect, hSlot]

/- read_bloc -/
def readBloc
    (mbr : Mbr)
    (vol nbloc : UInt32)
    (dev : δ) : Option (Sector × δ) := do
  let cylSect ← mbr.cytToSect vol nbloc
  some (Drive.readSector (toUShort cylSect.1)
    (toUShort cylSect.2) dev)

/- write_bloc -/
def writeBloc
    (mbr : Mbr)
    (vol nbloc : UInt32)
    (buffer : Sector)
    (dev : δ) : Option δ := do
  let cylSect ← mbr.cytToSect vol nbloc
  some (Drive.writeSector (toUShort cylSect.1)
    (toUShort cylSect.2) buffer dev)

/- format_vol -/
def formatVol
    (mbr : Mbr)
    (vol value : UInt32)
    (dev : δ) : Option δ := do
  let volume ← mbr.volume? vol.toNat
  some (Drive.formatSector volume.debutCyl.toUInt32
    volume.debutSect.toUInt32 volume.nbBlocs.toUInt32
    value dev)

end Mbr

/- load_mbr -/
def loadMbr
    {δ : Type} [Drive δ]
    (dev : δ) : Mbr × δ :=
  let (buffer, dev) := Drive.readSector 0 0 dev
  (Mbr.layout.decode buffer.toList, dev)

/-
  save_mbr.  `buffer` is what the freshly allocated buffer
  holds; the table covers only its first bytes.
-/
def saveMbr
    {δ : Type} [Drive δ]
    (buffer : Sector)
    (mbr : Mbr)
    (dev : δ) : δ :=
  Drive.writeSector 0 0
    (buffer.memcpy (Mbr.layout.encode mbr)) dev

/- A saved table is loaded again. -/
theorem loadMbr_saveMbr
    (buffer : Sector)
    (mbr : Mbr)
    (disk : Disk) :
    (loadMbr (saveMbr buffer mbr disk)).1 = mbr := by
  have hFits : Mbr.layout.size ≤ hdaSectorSize := by decide
  simp only [loadMbr, saveMbr, Disk.writeSector_eq,
    Disk.readSector_eq, Function.update_self]
  exact Sector.decode_memcpy Mbr.layout hFits buffer mbr

------------------------------------------------------------
-- Linear Addresses
------------------------------------------------------------

/- The linear number of a sector. -/
def lin
    (cylSect : Int32 × Int32) : Int :=
  16 * cylSect.1.toInt + cylSect.2.toInt

namespace Volume

/- The linear number of the first sector of a volume. -/
def start
    (v : Volume) : Int :=
  lin (v.debutCyl, v.debutSect)

/- The linear number of the sector after the last one. -/
def fin
    (v : Volume) : Int :=
  v.start + v.nbBlocs.toInt

/- The start of the volume is a sector of a cylinder. -/
structure Placed
    (v : Volume) : Prop where
  cyl_nonneg : 0 ≤ v.debutCyl.toInt
  sect_nonneg : 0 ≤ v.debutSect.toInt
  sect_lt : v.debutSect.toInt < 16

/- No `int` overflows in the translation of block number `b`. -/
def Reaches
    (v : Volume)
    (b : Int) : Prop :=
  v.debutSect.toInt + b < 2147483648 ∧
    v.debutCyl.toInt + (v.debutSect.toInt + b) / 16 <
      2147483648

/- Linear numbers below 2^31 are reached without overflow. -/
theorem Placed.reaches
    {v : Volume}
    (hPlaced : v.Placed)
    {b : Int}
    (hBound : v.start + b < 2147483648) :
    v.Reaches b := by
  have hCyl := hPlaced.cyl_nonneg
  have hSect := hPlaced.sect_nonneg
  simp only [start, lin] at hBound
  constructor <;> omega

/- The quotient and the remainder that the carry computes. -/
theorem locate_eq
    {v : Volume}
    {nbloc : UInt32}
    (hPlaced : v.Placed)
    (hReaches : v.Reaches nbloc.toNat) :
    (v.locate nbloc).1.toInt =
        v.debutCyl.toInt +
          (v.debutSect.toInt + nbloc.toNat) / 16 ∧
      (v.locate nbloc).2.toInt =
        (v.debutSect.toInt + nbloc.toNat) % 16 := by
  rcases hReaches with ⟨hSum, hCarry⟩
  have hCyl := hPlaced.cyl_nonneg
  have hSect := hPlaced.sect_nonneg
  have hBlock : nbloc.toInt32.toInt = nbloc.toNat :=
    FixedWidth.toInt_toInt32_of_lt (by omega)
  have hRes1 :
      (v.debutSect.toUInt32 + nbloc).toInt32.toInt =
        v.debutSect.toInt + nbloc.toNat := by
    rw [UInt32.toInt32_add, Int32.toInt32_toUInt32,
      FixedWidth.toInt_add (by omega) (by omega), hBlock]
  have hMax : (Int32.ofNat hdaMaxSector).toInt = 16 := by
    decide
  have hNeg : Int32.ofNat hdaMaxSector ≠ -1 := by decide
  simp only [locate, Int32.le_iff_toInt_le, hRes1, hMax]
  split
  · have hQuot :
        ((v.debutSect.toUInt32 + nbloc).toInt32 /
            Int32.ofNat hdaMaxSector).toInt =
          (v.debutSect.toInt + nbloc.toNat) / 16 := by
      rw [Int32.toInt_div_of_ne_right _ _ hNeg, hRes1,
        hMax, Int.tdiv_eq_ediv_of_nonneg (by omega)]
    constructor
    · rw [FixedWidth.toInt_add (by omega) (by omega),
        hQuot]
    · rw [Int32.toInt_mod, hRes1, hMax,
        Int.tmod_eq_emod_of_nonneg (by omega)]
  · simp only [hRes1]
    omega

/- Block 0 lies on the first sector. -/
theorem locate_zero
    {v : Volume}
    (hPlaced : v.Placed) :
    v.locate 0 = (v.debutCyl, v.debutSect) := by
  have hSect := hPlaced.sect_lt
  have hMax : (Int32.ofNat hdaMaxSector).toInt = 16 := by
    decide
  have hRes1 :
      (v.debutSect.toUInt32 + 0).toInt32 = v.debutSect := by
    simp
  simp only [locate, hRes1]
  rw [if_neg]
  rw [Int32.le_iff_toInt_le, hMax]
  omega

/- Block `b` lies `b` sectors after the start. -/
theorem lin_locate
    {v : Volume}
    {nbloc : UInt32}
    (hPlaced : v.Placed)
    (hReaches : v.Reaches nbloc.toNat) :
    lin (v.locate nbloc) = v.start + nbloc.toNat := by
  rcases locate_eq hPlaced hReaches with ⟨hCyl, hSect⟩
  simp only [lin, start, hCyl, hSect]
  omega

end Volume

end AsaKernel
