import AsaKernel.Volume.DiskBounds

/-
  Block-level read-after-write and isolation of volumes on
  the sector-level disk.

  Main declarations:
    * `Volume.LiesOnDisk`
    * `Mbr.HasBlock`, `Mbr.blockAddr_inj`
    * `Mbr.sectors`, `Volume.firstSector`
    * `Mbr.DiskPacked.disjoint_sectors`,
      `Mbr.DiskPacked.ne_firstSector`
    * `Mbr.Packed.diskPacked`
    * `Mbr.Isolated`
    * `Mbr.isolated_in_every_run`
-/

------------------------------------------------------------
-- Blocks and Their Sectors
------------------------------------------------------------

namespace AsaKernel

open Transition

theorem toNat_toUShort
    {x : Int32}
    (hLow : 0 ≤ x.toInt)
    (hHigh : x.toInt < 65536) :
    ((toUShort x).toNat : Int) = x.toInt := by
  rw [toUShort, FixedWidth.toNat_toUInt16]
  omega

/- Numbers of 16 bits are told apart by the driver. -/
theorem lin_eq_of_sectorAddr_eq
    {p q : Int32 × Int32}
    (hp : 0 ≤ p.1.toInt ∧ p.1.toInt < 65536 ∧
      0 ≤ p.2.toInt ∧ p.2.toInt < 65536)
    (hq : 0 ≤ q.1.toInt ∧ q.1.toInt < 65536 ∧
      0 ≤ q.2.toInt ∧ q.2.toInt < 65536)
    (hEq : sectorAddr p = sectorAddr q) :
    lin p = lin q := by
  rcases hp with ⟨hp1, hp2, hp3, hp4⟩
  rcases hq with ⟨hq1, hq2, hq3, hq4⟩
  rw [sectorAddr, sectorAddr, Prod.mk.injEq] at hEq
  have hCyl := congrArg UInt16.toNat hEq.1
  have hSect := congrArg UInt16.toNat hEq.2
  have hpCyl := toNat_toUShort hp1 hp2
  have hqCyl := toNat_toUShort hq1 hq2
  have hpSect := toNat_toUShort hp3 hp4
  have hqSect := toNat_toUShort hq3 hq4
  unfold lin
  omega

namespace Volume

variable {v : Volume} {b b' : UInt32}

/- Every block of the volume is a sector of the disk. -/
def LiesOnDisk
    (v : Volume) : Prop :=
  ∀ b : UInt32, (b.toNat : Int) < v.nbBlocs.toInt →
    0 ≤ (v.locate b).1.toInt ∧
      (v.locate b).1.toInt < hdaMaxCylinder ∧
      0 ≤ (v.locate b).2.toInt ∧
      (v.locate b).2.toInt < hdaMaxSector

/- A placed volume that ends on the disk lies on it. -/
theorem Placed.liesOnDisk
    (hPlaced : v.Placed)
    (hFin : v.fin ≤ diskSectors) :
    v.LiesOnDisk := by
  intro b hBlock
  rcases locate_range hPlaced hFin hBlock with
    ⟨hc1, hc2, hs1, hs2, _⟩
  exact ⟨hc1, hc2, hs1, hs2⟩

/- An address that did not wrap around is `b` sectors on. -/
theorem lin_locate_of_nonneg
    (hb : b.toNat < 2147483648)
    (hCyl : 0 ≤ (v.locate b).1.toInt)
    (hSect : 0 ≤ (v.locate b).2.toInt) :
    lin (v.locate b) = v.start + b.toNat := by
  have hCylRange := FixedWidth.toInt_range v.debutCyl
  have hSectRange := FixedWidth.toInt_range v.debutSect
  have hBlock : b.toInt32.toInt = b.toNat :=
    FixedWidth.toInt_toInt32_of_lt hb
  have hMax : (Int32.ofNat hdaMaxSector).toInt = 16 := by
    decide
  have hNeg : Int32.ofNat hdaMaxSector ≠ -1 := by decide
  generalize hRes :
    (v.debutSect.toUInt32 + b).toInt32 = res1
  have hValue :
      res1.toInt =
        (v.debutSect.toInt + b.toNat).bmod 4294967296 := by
    rw [← hRes, UInt32.toInt32_add, Int32.toInt32_toUInt32,
      Int32.toInt_add, hBlock]
  have hExact (hNonneg : 0 ≤ res1.toInt) :
      res1.toInt = v.debutSect.toInt + b.toNat := by
    rw [hValue] at hNonneg ⊢
    exact FixedWidth.bmod_of_nonneg (by omega) (by omega)
      hNonneg
  simp only [lin, start, locate, hRes] at hCyl hSect ⊢
  by_cases hCarry : Int32.ofNat hdaMaxSector ≤ res1
  · rw [if_pos hCarry] at hCyl hSect ⊢
    rw [Int32.le_iff_toInt_le, hMax] at hCarry
    have hSum := hExact (by omega)
    have hQuot :
        (res1 / Int32.ofNat hdaMaxSector).toInt =
          res1.toInt / 16 := by
      rw [Int32.toInt_div_of_ne_right _ _ hNeg, hMax,
        Int.tdiv_eq_ediv_of_nonneg (by omega)]
    have hRem :
        (res1 % Int32.ofNat hdaMaxSector).toInt =
          res1.toInt % 16 := by
      rw [Int32.toInt_mod, hMax,
        Int.tmod_eq_emod_of_nonneg (by omega)]
    have hCyl' :
        (v.debutCyl +
            res1 / Int32.ofNat hdaMaxSector).toInt =
          v.debutCyl.toInt + res1.toInt / 16 := by
      rw [Int32.toInt_add, hQuot] at hCyl ⊢
      exact FixedWidth.bmod_of_nonneg (by omega) (by omega)
        hCyl
    rw [hCyl', hRem]
    omega
  · rw [if_neg hCarry] at hSect ⊢
    have hSum := hExact hSect
    dsimp only
    omega

/- Two blocks have different sectors. -/
theorem LiesOnDisk.sectorAddr_inj
    (hLies : v.LiesOnDisk)
    (hBlock : (b.toNat : Int) < v.nbBlocs.toInt)
    (hBlock' : (b'.toNat : Int) < v.nbBlocs.toInt)
    (hEq :
      sectorAddr (v.locate b) = sectorAddr (v.locate b')) :
    b = b' := by
  have hRange := FixedWidth.toInt_range v.nbBlocs
  have hLimit : (hdaMaxCylinder : Int) = 16 := rfl
  have hLimit' : (hdaMaxSector : Int) = 16 := rfl
  rcases hLies b hBlock with ⟨hc1, hc2, hs1, hs2⟩
  rcases hLies b' hBlock' with ⟨hc1', hc2', hs1', hs2'⟩
  have hLin :=
    lin_eq_of_sectorAddr_eq
      ⟨hc1, by omega, hs1, by omega⟩
      ⟨hc1', by omega, hs1', by omega⟩ hEq
  rw [lin_locate_of_nonneg (by omega) hc1 hs1,
    lin_locate_of_nonneg (by omega) hc1' hs1'] at hLin
  apply UInt32.toNat_inj.mp
  omega

end Volume

namespace Mbr

variable {mbr : Mbr}

/- The pair names a block of an existing volume. -/
def HasBlock
    (mbr : Mbr)
    (vol b : UInt32) : Prop :=
  vol.toNat < mbr.nbVolume.toNat ∧
    ∃ v, mbr.volume? vol.toNat = some v ∧
      (b.toNat : Int) < v.nbBlocs.toInt

/- A block of an existing volume has an address. -/
theorem HasBlock.cytToSect
    {vol b : UInt32}
    (hCount : mbr.nbVolume.toNat ≤ 8)
    (hBlock : mbr.HasBlock vol b) :
    ∃ (h : vol.toNat < mbr.entries.length),
      (b.toNat : Int) <
          mbr.entries[vol.toNat].nbBlocs.toInt ∧
        mbr.cytToSect vol b =
          some (mbr.entries[vol.toNat].locate b) := by
  rcases hBlock with ⟨hVol, v, hEntry, hSize⟩
  rcases volume?_existing hCount hVol with
    ⟨hLength, hSlot⟩
  rw [hSlot, Option.some.injEq] at hEntry
  subst hEntry
  exact ⟨hLength, hSize, cytToSect_eq hSlot b⟩

/- Two blocks with one address are the same block. -/
theorem blockAddr_inj
    (hDisk : mbr.DiskPacked)
    {vol b vol' b' : UInt32}
    (hBlock : mbr.HasBlock vol b)
    (hBlock' : mbr.HasBlock vol' b')
    {p p' : Int32 × Int32}
    (hAddr : mbr.cytToSect vol b = some p)
    (hAddr' : mbr.cytToSect vol' b' = some p')
    (hEq : sectorAddr p = sectorAddr p') :
    vol = vol' ∧ b = b' := by
  have hCount := hDisk.packed.count_le
  rcases hBlock.cytToSect hCount with
    ⟨hLength, hSize, hLocate⟩
  rcases hBlock'.cytToSect hCount with
    ⟨hLength', hSize', hLocate'⟩
  cases hLocate.symm.trans hAddr
  cases hLocate'.symm.trans hAddr'
  rcases hDisk.locate_range (List.getElem_mem hLength) hSize
    with ⟨hc1, hc2, hs1, hs2, hLin⟩
  rcases hDisk.locate_range (List.getElem_mem hLength')
    hSize' with ⟨hc1', hc2', hs1', hs2', hLin'⟩
  have hSame :=
    lin_eq_of_sectorAddr_eq
      ⟨hc1, by omega, hs1, by omega⟩
      ⟨hc1', by omega, hs1', by omega⟩ hEq
  have hVolEq : vol = vol' := by
    by_contra hNe
    have hApart :=
      hDisk.packed.sorted.disjoint hLength hLength'
        fun hIdx => hNe (UInt32.toNat_inj.mp hIdx)
    have hLeft :
        lin (mbr.entries[vol.toNat].locate b) ∈
          Set.Ico mbr.entries[vol.toNat].start
            mbr.entries[vol.toNat].fin := by
      simp only [Set.mem_Ico, Volume.fin]
      omega
    have hRight :
        lin (mbr.entries[vol.toNat].locate b) ∈
          Set.Ico mbr.entries[vol'.toNat].start
            mbr.entries[vol'.toNat].fin := by
      rw [hSame]
      simp only [Set.mem_Ico, Volume.fin]
      omega
    exact Set.disjoint_left.mp hApart hLeft hRight
  subst hVolEq
  refine ⟨rfl, UInt32.toNat_inj.mp ?_⟩
  omega

------------------------------------------------------------
-- Sectors That the Driver Addresses
------------------------------------------------------------

/- The sectors of a volume, as the driver is asked for them. -/
def sectors
    (mbr : Mbr)
    (vol : UInt32) : Set SectorAddr :=
  Set.image sectorAddr (mbr.sectorSet vol)

/- Writing a block replaces the sector at its address. -/
theorem writeBloc_eq
    {vol b : UInt32}
    {p : Int32 × Int32}
    (hAddr : mbr.cytToSect vol b = some p)
    (disk : Disk)
    (d : Sector) :
    mbr.writeBloc vol b d disk =
      some (Function.update disk (sectorAddr p) d) := by
  simp [writeBloc, hAddr, sectorAddr]

/- Reading a block returns the sector at its address. -/
theorem readBloc_eq
    {vol b : UInt32}
    {p : Int32 × Int32}
    (hAddr : mbr.cytToSect vol b = some p)
    (disk : Disk) :
    mbr.readBloc vol b disk =
      some (disk (sectorAddr p), disk) := by
  simp [readBloc, hAddr, sectorAddr]

/- A sector of a volume is the address of one of its blocks. -/
theorem exists_block_of_mem_sectors
    {vol : UInt32}
    (hVol : vol.toNat < mbr.nbVolume.toNat)
    {addr : SectorAddr}
    (hMem : addr ∈ mbr.sectors vol) :
    ∃ b p,
      mbr.HasBlock vol b ∧ mbr.cytToSect vol b = some p ∧
      sectorAddr p = addr := by
  rcases hMem with ⟨p, ⟨v, b, hSlot, hSize, hAddr⟩, hEq⟩
  exact ⟨b, p, ⟨hVol, v, hSlot, hSize⟩, hAddr, hEq⟩

theorem HasBlock.addr_mem_sectors
    {vol b : UInt32}
    (hBlock : mbr.HasBlock vol b)
    {p : Int32 × Int32}
    (hAddr : mbr.cytToSect vol b = some p) :
    sectorAddr p ∈ mbr.sectors vol := by
  rcases hBlock with ⟨_, v, hSlot, hSize⟩
  exact ⟨p, ⟨v, b, hSlot, hSize, hAddr⟩, rfl⟩

/- Two existing volumes share no sector of the drive. -/
theorem DiskPacked.disjoint_sectors
    (hDisk : mbr.DiskPacked)
    {vol vol' : UInt32}
    (hVol : vol.toNat < mbr.nbVolume.toNat)
    (hVol' : vol'.toNat < mbr.nbVolume.toNat)
    (hNe : vol ≠ vol') :
    Disjoint (mbr.sectors vol) (mbr.sectors vol') := by
  rw [Set.disjoint_left]
  intro addr hLeft hRight
  rcases exists_block_of_mem_sectors hVol hLeft with
    ⟨b, p, hBlock, hAddr, hEq⟩
  rcases exists_block_of_mem_sectors hVol' hRight with
    ⟨b', p', hBlock', hAddr', hEq'⟩
  exact hNe
    (blockAddr_inj hDisk hBlock hBlock' hAddr hAddr'
      (hEq.trans hEq'.symm)).1

/- No existing volume has the sector of the boot record. -/
theorem DiskPacked.mbr_notMem_sectors
    (hDisk : mbr.DiskPacked)
    {vol : UInt32}
    (hVol : vol.toNat < mbr.nbVolume.toNat) :
    (0, 0) ∉ mbr.sectors vol := by
  intro hMem
  rcases exists_block_of_mem_sectors hVol hMem with
    ⟨b, p, hBlock, hAddr, hEq⟩
  rcases hBlock.cytToSect hDisk.packed.count_le with
    ⟨hLength, hSize, hLocate⟩
  cases hLocate.symm.trans hAddr
  have hEntry := List.getElem_mem hLength
  rcases hDisk.locate_range hEntry hSize with
    ⟨hc1, hc2, hs1, hs2, hLin⟩
  have hOrigin : lin (0, 0) = 0 := by decide
  have hSame :=
    lin_eq_of_sectorAddr_eq
      ⟨hc1, by omega, hs1, by omega⟩
      (q := (0, 0)) (by decide) hEq
  have hStart := hDisk.packed.after_mbr _ hEntry
  omega

end Mbr

/- The sector of block 0, which holds the superblock. -/
def Volume.firstSector
    (v : Volume) : SectorAddr :=
  sectorAddr (v.debutCyl, v.debutSect)

namespace Mbr

variable {mbr : Mbr}

/- Block 0 of a placed volume is its first sector. -/
theorem cytToSect_zero
    {vol : UInt32}
    {v : Volume}
    (hSlot : mbr.volume? vol.toNat = some v)
    (hPlaced : v.Placed) :
    mbr.cytToSect vol 0 =
      some (v.debutCyl, v.debutSect) := by
  rw [cytToSect_eq hSlot, Volume.locate_zero hPlaced]

theorem DiskPacked.firstSector_mem
    (hDisk : mbr.DiskPacked)
    {vol : UInt32}
    {v : Volume}
    (hVol : vol.toNat < mbr.nbVolume.toNat)
    (hSlot : mbr.volume? vol.toNat = some v) :
    v.firstSector ∈ mbr.sectors vol := by
  rcases volume?_existing hDisk.packed.count_le hVol with
    ⟨hLength, hEntry⟩
  cases hEntry.symm.trans hSlot
  have hMem := List.getElem_mem hLength
  have hSize := hDisk.packed.occupied _ hMem
  have hZero : (0 : UInt32).toNat = 0 := rfl
  exact HasBlock.addr_mem_sectors
    ⟨hVol, _, hSlot, by omega⟩
    (cytToSect_zero hSlot (hDisk.packed.placed _ hMem))

/- The first sector of an existing volume is its own. -/
theorem DiskPacked.firstSector_mem_sectors
    (hDisk : mbr.DiskPacked)
    {vol : Int32}
    {v : Volume}
    (hExists : mbr.Exists vol)
    (hSlot : mbr.volume? vol.toInt = some v) :
    v.firstSector ∈ mbr.sectors vol.toUInt32 := by
  apply hDisk.firstSector_mem hExists.toNat_lt
  rw [volume?_toUInt32]
  exact hSlot

theorem DiskPacked.firstSector_ne_mbr
    (hDisk : mbr.DiskPacked)
    {vol : Int32}
    {v : Volume}
    (hExists : mbr.Exists vol)
    (hSlot : mbr.volume? vol.toInt = some v) :
    v.firstSector ≠ (0, 0) := by
  intro hEq
  apply hDisk.mbr_notMem_sectors hExists.toNat_lt
  rw [← hEq]
  exact hDisk.firstSector_mem_sectors hExists hSlot

/- Sectors of one volume are not the first one of another. -/
theorem DiskPacked.ne_firstSector
    (hDisk : mbr.DiskPacked)
    {vol vol' : Int32}
    {v : Volume}
    (hExists : mbr.Exists vol)
    (hSlot : mbr.volume? vol.toInt = some v)
    (hExists' : mbr.Exists vol')
    (hNe : vol' ≠ vol)
    {addr : SectorAddr}
    (hMem : addr ∈ mbr.sectors vol'.toUInt32) :
    addr ≠ v.firstSector := by
  rintro rfl
  have hApart :
      Disjoint (mbr.sectors vol'.toUInt32)
        (mbr.sectors vol.toUInt32) :=
    hDisk.disjoint_sectors hExists'.toNat_lt
      hExists.toNat_lt
      fun hEq => hNe (by
        simpa using congrArg UInt32.toInt32 hEq)
  exact Set.disjoint_left.mp hApart hMem
    (hDisk.firstSector_mem_sectors hExists hSlot)

/-
  An initialisation writes at most the sector after a volume
  of one block; when this is not the first sector of another
  volume, that sector is not written.
-/
theorem DiskPacked.locate_ne_firstSector
    (hDisk : mbr.DiskPacked)
    {vol vol' : Int32}
    {v w : Volume}
    (hExists : mbr.Exists vol)
    (hSlot : mbr.volume? vol.toInt = some v)
    (hExists' : mbr.Exists vol')
    (hSlot' : mbr.volume? vol'.toInt = some w)
    (hNe : vol' ≠ vol)
    (hAfter : 2 ≤ w.nbBlocs.toInt ∨ w.fin ≠ v.start)
    {b : UInt32}
    (hBlock : (b.toNat : Int) < max w.nbBlocs.toInt 2) :
    sectorAddr (w.locate b) ≠ v.firstSector := by
  have hMem := hDisk.mem_entries hExists hSlot
  have hMem' := hDisk.mem_entries hExists' hSlot'
  have hOccupied := hDisk.packed.occupied w hMem'
  by_cases hInside : (b.toNat : Int) < w.nbBlocs.toInt
  · have hSlot'' := hSlot'
    rw [← volume?_toUInt32] at hSlot''
    have hHas : mbr.HasBlock vol'.toUInt32 b :=
      ⟨hExists'.toNat_lt, w, hSlot'', hInside⟩
    exact hDisk.ne_firstSector hExists hSlot hExists' hNe
      (hHas.addr_mem_sectors (cytToSect_eq hSlot'' b))
  · -- The block is the one after a volume of one block.
    intro hEq
    have hPlaced := hDisk.packed.placed v hMem
    have hZero :=
      hDisk.locate_range hMem (b := 0) (by
        have hSize := hDisk.packed.occupied v hMem
        simp
        omega)
    rw [Volume.locate_zero hPlaced] at hZero
    rcases hZero with ⟨hc1, hc2, hs1, hs2, _⟩
    rcases Volume.locate_end
        (hDisk.packed.placed w hMem')
        (hDisk.fin_le w hMem') (b := b) (by omega) with
      ⟨hc1', hc2', hs1', hs2', hLin⟩
    have hSame :=
      lin_eq_of_sectorAddr_eq
        ⟨hc1', by omega, hs1', by omega⟩
        ⟨hc1, by omega, hs1, by omega⟩ hEq
    have hFin : w.fin = w.start + w.nbBlocs.toInt := rfl
    have hStart : v.start =
        lin (v.debutCyl, v.debutSect) := rfl
    omega

------------------------------------------------------------
-- Tables on the Disk
------------------------------------------------------------

/-
  A packed table whose blocks are all sectors of the disk ends
  before the end of the disk: the block that would be sector
  256 has a cylinder that does not exist.
-/
theorem Packed.diskPacked
    (hPacked : mbr.Packed)
    (hOnDisk : mbr.AllOnDisk) :
    mbr.DiskPacked where
  packed := hPacked
  fin_le v hMem := by
    rcases List.getElem_of_mem hMem with ⟨i, hi, rfl⟩
    have hCount := hPacked.count_le
    have hExisting : i < mbr.nbVolume.toNat := by
      rw [← length_entries hCount]
      exact hi
    have hIndex : (UInt32.ofNat i).toNat = i := by
      rw [UInt32.toNat_ofNat']
      exact Nat.mod_eq_of_lt (by omega)
    rcases hOnDisk (UInt32.ofNat i) (by omega) with
      ⟨v, hEntry, hSize, hBlocks⟩
    rcases volume?_existing hCount hExisting with
      ⟨_, hSlot⟩
    rw [hIndex, hSlot, Option.some.injEq] at hEntry
    subst hEntry
    have hPlaced := hPacked.placed _ hMem
    have hStart := hPacked.after_mbr _ hMem
    have hAddr (b : UInt32) :
        mbr.cytToSect (UInt32.ofNat i) b =
          some (mbr.entries[i].locate b) :=
      cytToSect_eq (by rw [hIndex, hSlot]) b
    have hRange (b : UInt32)
        (hb : (b.toNat : Int) <
          mbr.entries[i].nbBlocs.toInt)
        (hReaches : mbr.entries[i].Reaches b.toNat) :
        mbr.entries[i].start + b.toNat < 256 := by
      rcases hBlocks b hb with
        ⟨p, hp, _, hCyl, _, hSect, _⟩
      cases (hAddr b).symm.trans hp
      have hLin := Volume.lin_locate hPlaced hReaches
      simp only [lin, hdaMaxCylinder, hdaMaxSector]
        at hLin hCyl hSect
      omega
    have hSect := hPlaced.sect_lt
    have hWord := FixedWidth.toInt_range
      mbr.entries[i].debutCyl
    have hFirst : mbr.entries[i].start < 256 := by
      have hZero : (0 : UInt32).toNat = 0 := rfl
      have hStep := hRange 0 (by omega)
        ⟨by omega, by omega⟩
      omega
    -- The block that would be sector 256 does not exist.
    by_contra hLong
    simp only [diskSectors, hdaMaxCylinder, hdaMaxSector,
      Volume.fin] at hLong
    have hNat :
        (UInt32.ofNat
          (256 - mbr.entries[i].start).toNat).toNat =
          (256 - mbr.entries[i].start).toNat := by
      rw [UInt32.toNat_ofNat']
      exact Nat.mod_eq_of_lt (by omega)
    have hPast := hRange
      (UInt32.ofNat (256 - mbr.entries[i].start).toNat)
      (by omega) (hPlaced.reaches (by omega))
    omega

------------------------------------------------------------
-- Isolation
------------------------------------------------------------

/-
  Writing a block is seen by the next read of that block and
  by no read of another block of any volume.
-/
def Isolated
    (mbr : Mbr) : Prop :=
  ∀ (disk : Disk) (d : Sector) (vol b vol' b' : UInt32),
    mbr.HasBlock vol b → mbr.HasBlock vol' b' →
      ∃ after content,
        mbr.writeBloc vol b d disk = some after ∧
        mbr.readBloc vol' b' disk =
          some (content, disk) ∧
        mbr.readBloc vol' b' after =
          some (if vol' = vol ∧ b' = b then d else content,
            after)

theorem DiskPacked.isolated
    (hDisk : mbr.DiskPacked) :
    mbr.Isolated := by
  intro disk d vol b vol' b' hBlock hBlock'
  have hCount := hDisk.packed.count_le
  rcases hBlock.cytToSect hCount with ⟨_, _, hAddr⟩
  rcases hBlock'.cytToSect hCount with ⟨_, _, hAddr'⟩
  refine ⟨_, _, writeBloc_eq hAddr disk d,
    readBloc_eq hAddr' disk, ?_⟩
  rw [readBloc_eq hAddr']
  by_cases hSame : vol' = vol ∧ b' = b
  · rcases hSame with ⟨rfl, rfl⟩
    cases hAddr.symm.trans hAddr'
    simp
  · have hNe :
        sectorAddr (mbr.entries[vol'.toNat].locate b') ≠
          sectorAddr (mbr.entries[vol.toNat].locate b) :=
      fun hEq => hSame
        (blockAddr_inj hDisk hBlock' hBlock hAddr' hAddr hEq)
    rw [Function.update_of_ne hNe, if_neg hSame]

/-
  Isolation of the volumes of every table on the disk that a
  run reaches without an overflow in the computation of a
  start.
-/
theorem isolated_in_every_run
    (cmds : List TableCmd)
    (hEmpty : mbr.nbVolume = 0)
    (hDels : mbr.ValidDels cmds)
    (hNews : mbr.PositiveNews cmds)
    (hStarts : mbr.FittingStarts cmds) :
    Throughout TableCmd.step mbr cmds fun t =>
      t.AllOnDisk → t.Isolated := by
  rcases packed_of_run cmds hEmpty hDels hNews
    (fun t cmd hPerforms _ => hStarts t cmd hPerforms) with
    ⟨_, hPacked⟩
  intro t hReached hOnDisk
  exact ((hPacked t hReached).diskPacked hOnDisk).isolated

theorem isolated_in_sample :
    Throughout TableCmd.step emptyTable sampleCmds
      Isolated := by
  have hEmpty : emptyTable.nbVolume = 0 := rfl
  rcases diskPacked_of_run sampleCmds hEmpty (by decide)
    (by decide) with ⟨_, hDisk⟩
  intro t hReached
  exact isolated_in_every_run sampleCmds hEmpty (by decide)
    (by decide) (by decide) t hReached
    (hDisk t hReached).allOnDisk

/-
  A run in which the start of the third volume overflows: once
  the two oversized volumes are deleted, the remaining ones
  are (0,1) with 4 blocks and (0,3) with 3 blocks.
-/
def overflowCmds : List TableCmd :=
  [.new 4, .new 2147483647, .new 2147483647, .new 3,
    .del 1, .del 1]

/- The table that this run ends with. -/
def overlappingTable : Mbr where
  nbVolume := 2
  volumes :=
    #v[⟨TypeE.base, 0, 1, 4⟩, ⟨TypeE.base, 0, 3, 3⟩,
      ⟨TypeE.base, 0, 3, 3⟩, ⟨TypeE.base, 0, 3, 3⟩,
      ⟨TypeE.base, 0, 0, 0⟩, ⟨TypeE.base, 0, 0, 0⟩,
      ⟨TypeE.base, 0, 0, 0⟩, ⟨TypeE.base, 0, 0, 0⟩]

theorem overflow_overlaps :
    emptyTable.ValidDels overflowCmds ∧
      emptyTable.PositiveNews overflowCmds ∧
      run TableCmd.step emptyTable overflowCmds =
        some overlappingTable ∧
      overlappingTable.AllOnDisk ∧
      ¬ overlappingTable.Isolated := by
  refine ⟨by decide, by decide, by decide, ?_, ?_⟩
  · intro vol hVol
    have hVolume :
        overlappingTable.volume? vol.toNat =
            some ⟨TypeE.base, 0, 1, 4⟩ ∨
          overlappingTable.volume? vol.toNat =
            some ⟨TypeE.base, 0, 3, 3⟩ := by
      have hTwo : vol.toNat < 2 := hVol
      have hCases : vol.toNat = 0 ∨ vol.toNat = 1 := by
        omega
      rcases hCases with hZero | hOne
      · exact Or.inl (by rw [hZero]; rfl)
      · exact Or.inr (by rw [hOne]; rfl)
    rcases hVolume with hSlot | hSlot
    · exact ⟨_, hSlot, onDisk_of_fin hSlot
        ⟨by decide, by decide, by decide⟩ (by decide)
        (by decide) (by decide)⟩
    · exact ⟨_, hSlot, onDisk_of_fin hSlot
        ⟨by decide, by decide, by decide⟩ (by decide)
        (by decide) (by decide)⟩
  · intro hIsolated
    -- Block 2 of the first volume is block 0 of the second.
    have hAddr :
        overlappingTable.cytToSect 0 2 = some (0, 3) := by
      decide
    have hAddr' :
        overlappingTable.cytToSect 1 0 = some (0, 3) := by
      decide
    rcases hIsolated (fun _ => Sector.filled 0)
        (Sector.filled 1) 0 2 1 0
        ⟨by decide, _, rfl, by decide⟩
        ⟨by decide, _, rfl, by decide⟩ with
      ⟨after, content, hWrite, hRead, hReread⟩
    rw [writeBloc_eq hAddr] at hWrite
    rw [readBloc_eq hAddr'] at hRead
    cases hWrite
    cases hRead
    rw [readBloc_eq hAddr', Function.update_self,
      Option.some.injEq, Prod.mk.injEq] at hReread
    exact absurd hReread.1 (by decide)

end Mbr

end AsaKernel
