import AsaKernel.Foundations.Regions
import AsaKernel.Volume.Formatting
import AsaKernel.Volume.Isolation

/-
  The volumes of a table as arrays of sectors.

  The sectors of a volume, in the order of its blocks, are a
  region of the disk.  On a packed table the regions are apart
  from each other and from the boot record, so the functions
  of volume.h act on the contents as on a list of arrays.

  Main declarations:
    * `Volume.region`, `Mbr.regions`, `Mbr.contents`
    * `Mbr.DiskPacked.apart`
    * `Mbr.DiskPacked.readBloc_contents`,
      `Mbr.DiskPacked.writeBloc_contents`,
      `Mbr.DiskPacked.formatVol_contents`
    * `Mbr.DiskPacked.new_contents`,
      `Mbr.DiskPacked.del_contents`
-/

------------------------------------------------------------
-- Regions of the Disk
------------------------------------------------------------

namespace AsaKernel

namespace Volume

/- The sectors of the volume, in the order of its blocks. -/
def region
    (v : Volume) : List SectorAddr :=
  (List.range v.nbBlocs.toInt.toNat).map fun j =>
    sectorAddr (v.locate (UInt32.ofNat j))

variable {v : Volume}

@[simp] theorem length_region :
    v.region.length = v.nbBlocs.toInt.toNat := by
  simp [region]

/- A block number below the size counts sectors. -/
theorem toNat_ofNat_of_lt
    {j : Nat}
    (hj : j < v.nbBlocs.toInt.toNat) :
    (UInt32.ofNat j).toNat = j := by
  have hRange := FixedWidth.toInt_range v.nbBlocs
  rw [UInt32.toNat_ofNat']
  exact Nat.mod_eq_of_lt (by omega)

/- Block `b` is the sector at position `b`. -/
theorem getElem?_region
    {b : UInt32}
    (hBlock : (b.toNat : Int) < v.nbBlocs.toInt) :
    v.region[b.toNat]? = some (sectorAddr (v.locate b)) := by
  have hIndex : b.toNat < v.nbBlocs.toInt.toNat := by omega
  rw [region, List.getElem?_map,
    List.getElem?_range hIndex, Option.map_some,
    UInt32.ofNat_toNat]

theorem mem_region
    {addr : SectorAddr} :
    addr ∈ v.region ↔
      ∃ b : UInt32, (b.toNat : Int) < v.nbBlocs.toInt ∧
        sectorAddr (v.locate b) = addr := by
  constructor
  · intro hMem
    rcases List.mem_map.mp hMem with ⟨j, hj, rfl⟩
    rw [List.mem_range] at hj
    have hIndex := toNat_ofNat_of_lt hj
    exact ⟨UInt32.ofNat j, by omega, rfl⟩
  · rintro ⟨b, hBlock, rfl⟩
    exact List.mem_of_getElem? (getElem?_region hBlock)

/- Two blocks have different sectors. -/
theorem LiesOnDisk.nodup_region
    (hLies : v.LiesOnDisk) :
    v.region.Nodup := by
  rw [region, List.nodup_map_iff_inj_on List.nodup_range]
  intro j hj k hk hEq
  rw [List.mem_range] at hj hk
  have hj' := toNat_ofNat_of_lt hj
  have hk' := toNat_ofNat_of_lt hk
  have hSame :=
    hLies.sectorAddr_inj (by omega) (by omega) hEq
  have hNat := congrArg UInt32.toNat hSame
  omega

end Volume

namespace Mbr

/- The regions of the existing volumes, in their order. -/
def regions
    (mbr : Mbr) : List (List SectorAddr) :=
  mbr.entries.map Volume.region

/- What the disk holds in the blocks of the volumes. -/
def contents
    (mbr : Mbr)
    (disk : Disk) : List (List Sector) :=
  Regions.contents mbr.regions disk

variable {mbr : Mbr} {vol : Int32} {v : Volume}

theorem Exists.getElem?_regions
    (hExists : mbr.Exists vol)
    (hSlot : mbr.volume? vol.toInt = some v) :
    mbr.regions[vol.toInt.toNat]? = some v.region := by
  rw [hExists.volume?_eq] at hSlot
  rw [regions, List.getElem?_map, hSlot, Option.map_some]

theorem Exists.getElem?_contents
    (hExists : mbr.Exists vol)
    (hSlot : mbr.volume? vol.toInt = some v)
    (disk : Disk) :
    (mbr.contents disk)[vol.toInt.toNat]? =
      some (v.region.map disk) := by
  rw [contents, Regions.getElem?_contents,
    hExists.getElem?_regions hSlot, Option.map_some]

/- Block 0 of a placed volume that is not empty. -/
theorem head_region
    (hPlaced : v.Placed)
    (hSize : 1 ≤ v.nbBlocs.toInt) :
    v.region[0]? = some v.firstSector := by
  have hZero : (0 : UInt32).toNat = 0 := rfl
  have hHead := Volume.getElem?_region (v := v) (b := 0)
    (by omega)
  rw [Volume.locate_zero hPlaced] at hHead
  exact hHead

/- An entry and the block numbers below its size. -/
theorem hasBlock_entry
    (hCount : mbr.nbVolume.toNat ≤ 8)
    {i : Nat}
    (hi : i < mbr.entries.length)
    {b : UInt32}
    (hBlock : (b.toNat : Int) < mbr.entries[i].nbBlocs.toInt) :
    (UInt32.ofNat i).toNat = i ∧
      mbr.HasBlock (UInt32.ofNat i) b ∧
      mbr.cytToSect (UInt32.ofNat i) b =
        some (mbr.entries[i].locate b) := by
  have hLength := length_entries hCount
  have hIndex : (UInt32.ofNat i).toNat = i := by
    rw [UInt32.toNat_ofNat']
    exact Nat.mod_eq_of_lt (by omega)
  rcases volume?_existing hCount (i := i) (by omega) with
    ⟨_, hVolume⟩
  have hSlot :
      mbr.volume? (UInt32.ofNat i).toNat =
        some mbr.entries[i] := by
    rw [hIndex, hVolume]
  exact
    ⟨hIndex, ⟨by omega, _, hSlot, hBlock⟩,
      cytToSect_eq hSlot b⟩

namespace DiskPacked

variable (hDisk : mbr.DiskPacked)

include hDisk

/- No sector belongs to two blocks. -/
theorem apart :
    Regions.Apart mbr.regions := by
  have hCount := hDisk.packed.count_le
  rw [Regions.Apart, List.nodup_flatten]
  constructor
  · intro region hRegion
    rcases List.mem_map.mp hRegion with ⟨v, hMem, rfl⟩
    have hLies :=
      (hDisk.packed.placed v hMem).liesOnDisk
        (hDisk.fin_le v hMem)
    exact hLies.nodup_region
  · rw [regions, List.pairwise_map]
    apply List.pairwise_iff_getElem.mpr
    intro i j hi hj hLt
    rw [List.disjoint_left]
    intro addr hLeft hRight
    rcases Volume.mem_region.mp hLeft with ⟨b, hb, rfl⟩
    rcases Volume.mem_region.mp hRight with
      ⟨b', hb', hEq⟩
    rcases hasBlock_entry hCount hi hb with
      ⟨hIndex, hBlock, hAddr⟩
    rcases hasBlock_entry hCount hj hb' with
      ⟨hIndex', hBlock', hAddr'⟩
    have hSame :=
      blockAddr_inj hDisk hBlock hBlock' hAddr hAddr'
        hEq.symm
    have hNat := congrArg UInt32.toNat hSame.1
    rw [hIndex, hIndex'] at hNat
    omega

/- No block is the boot record. -/
theorem mbr_notMem_regions :
    ∀ region ∈ mbr.regions, (0, 0) ∉ region := by
  intro region hRegion hMem
  rcases List.mem_map.mp hRegion with ⟨v, hEntry, rfl⟩
  rcases Volume.mem_region.mp hMem with ⟨b, hb, hEq⟩
  rcases List.getElem_of_mem hEntry with ⟨i, hi, rfl⟩
  rcases hasBlock_entry hDisk.packed.count_le hi hb with
    ⟨_, hBlock, hAddr⟩
  apply hDisk.mbr_notMem_sectors hBlock.1
  rw [← hEq]
  exact hBlock.addr_mem_sectors hAddr

/- The contents do not depend on the boot record. -/
theorem contents_update_mbr
    (disk : Disk)
    (image : Sector) :
    mbr.contents (Function.update disk (0, 0) image) =
      mbr.contents disk := by
  apply Regions.contents_congr
  intro region hRegion addr hMem
  apply Function.update_of_ne
  rintro rfl
  exact hDisk.mbr_notMem_regions region hRegion hMem

/- Formatting fills the region of the volume. -/
theorem formatted_eq_region
    (hMem : v ∈ mbr.entries) :
    formatted v = v.region := by
  have hSize := hDisk.packed.occupied v hMem
  exact formatted_eq (hDisk.packed.placed v hMem)
    (by omega) (hDisk.fin_le v hMem)

------------------------------------------------------------
-- The Functions of volume.h
------------------------------------------------------------

variable {bloc : Int32} {disk : Disk}
variable (hExists : mbr.Exists vol)
variable (hSlot : mbr.volume? vol.toInt = some v)

omit hDisk in
include hExists hSlot in
/- The sector of a block, as the block functions find it. -/
theorem locate_block
    (hLow : 0 ≤ bloc.toInt)
    (hHigh : bloc.toInt < v.nbBlocs.toInt) :
    ∃ p,
      mbr.cytToSect vol.toUInt32 bloc.toUInt32 = some p ∧
      mbr.regions[vol.toInt.toNat]? = some v.region ∧
      v.region[bloc.toInt.toNat]? = some (sectorAddr p) := by
  have hBloc := FixedWidth.toNat_toUInt32_of_nonneg hLow
  have hIndex : bloc.toUInt32.toNat = bloc.toInt.toNat := by
    omega
  have hRegion := hExists.getElem?_regions hSlot
  rw [← volume?_toUInt32] at hSlot
  refine ⟨_, cytToSect_eq hSlot _, hRegion, ?_⟩
  rw [← hIndex]
  exact Volume.getElem?_region (by omega)

variable (disk)

omit hDisk in
include hExists hSlot in
/- A read returns the element of the array. -/
theorem readBloc_contents
    (hLow : 0 ≤ bloc.toInt)
    (hHigh : bloc.toInt < v.nbBlocs.toInt) :
    ∃ content,
      mbr.readBloc vol.toUInt32 bloc.toUInt32 disk =
        some (content, disk) ∧
      (mbr.contents disk)[vol.toInt.toNat]?.bind
        (fun blocks => blocks[bloc.toInt.toNat]?) =
          some content := by
  rcases locate_block hExists hSlot hLow hHigh with
    ⟨p, hAddr, hRegion, hBlock⟩
  refine ⟨_, readBloc_eq hAddr disk, ?_⟩
  rw [hExists.getElem?_contents hSlot, Option.bind_some,
    List.getElem?_map, hBlock, Option.map_some]

include hExists hSlot

/- A write replaces the element of the array. -/
theorem writeBloc_contents
    (hLow : 0 ≤ bloc.toInt)
    (hHigh : bloc.toInt < v.nbBlocs.toInt)
    (buffer : Sector) :
    ∃ after : Disk,
      mbr.writeBloc vol.toUInt32 bloc.toUInt32 buffer disk =
        some after ∧
      after (0, 0) = disk (0, 0) ∧
      mbr.contents after =
        (mbr.contents disk).modify vol.toInt.toNat
          fun blocks => blocks.set bloc.toInt.toNat buffer := by
  rcases locate_block hExists hSlot hLow hHigh with
    ⟨p, hAddr, hRegion, hBlock⟩
  refine ⟨_, writeBloc_eq hAddr disk buffer, ?_,
    Regions.contents_update hDisk.apart hRegion hBlock _⟩
  apply Function.update_of_ne
  intro hEq
  apply hDisk.mbr_notMem_regions _
    (List.mem_of_getElem? hRegion)
  rw [hEq]
  exact List.mem_of_getElem? hBlock

/- A formatted volume is an array of one pattern. -/
theorem formatVol_contents
    (value : UInt32) :
    ∃ after : Disk,
      mbr.formatVol vol.toUInt32 value disk = some after ∧
      after (0, 0) = disk (0, 0) ∧
      mbr.contents after =
        (mbr.contents disk).modify vol.toInt.toNat
          fun blocks =>
            List.replicate blocks.length
              (Sector.filled value) := by
  have hRegion := hExists.getElem?_regions hSlot
  have hMem := hDisk.mem_entries hExists hSlot
  rw [← volume?_toUInt32] at hSlot
  rcases formatVol_spec hSlot value disk with
    ⟨after, hFormat, hAfter⟩
  rw [hDisk.formatted_eq_region hMem] at hAfter
  have hOutside :
      ∀ addr, addr ∉ v.region → after addr = disk addr :=
    fun addr hAddr => by rw [hAfter, if_neg hAddr]
  refine ⟨after, hFormat, hOutside _ ?_, ?_⟩
  · exact hDisk.mbr_notMem_regions _
      (List.mem_of_getElem? hRegion)
  · apply Regions.contents_fill hDisk.apart hRegion
    · intro addr hAddr
      rw [hAfter, if_pos hAddr]
    · exact hOutside

omit hExists hSlot

/- A new volume is one more array, after the others. -/
theorem new_contents
    {nbloc : Int32}
    (hFits : TableCmd.SizeFits mbr (.new nbloc))
    (disk : Disk) :
    ∃ after,
      mbr.new nbloc = some after ∧ after.DiskPacked ∧
      if mbr.nbVolume.toNat = 8 then after = mbr
      else
        ∃ blocks,
          blocks.length = nbloc.toInt.toNat ∧
          after.contents disk =
            mbr.contents disk ++ [blocks] := by
  have hCount := hDisk.packed.count_le
  by_cases hFull : mbr.nbVolume.toNat = 8
  · exact ⟨mbr, new_full hFull nbloc, hDisk, by
      rw [if_pos hFull]⟩
  · have hRoom : mbr.nbVolume.toNat < 8 := by omega
    rcases hDisk.new hRoom (hFits hRoom) with
      ⟨after, v, hNew, hAfter, _, hEntries, hSize, _⟩
    refine ⟨after, hNew, hAfter, ?_⟩
    rw [if_neg hFull]
    refine ⟨v.region.map disk, by simp [hSize], ?_⟩
    rw [contents, regions, hEntries, List.map_append,
      Regions.contents_append]
    rfl

/- A deleted volume is one array less. -/
theorem del_contents
    (hExists : mbr.Exists vol)
    (disk : Disk) :
    ∃ after,
      mbr.del vol = some after ∧ after.DiskPacked ∧
      after.contents disk =
        (mbr.contents disk).eraseIdx vol.toInt.toNat := by
  rcases hDisk.del hExists.1 hExists.2 with
    ⟨after, hDel, hAfter, _, hEntries⟩
  refine ⟨after, hDel, hAfter, ?_⟩
  rw [contents, regions, hEntries, ← List.eraseIdx_map,
    Regions.contents_eraseIdx]
  rfl

end DiskPacked

end Mbr

end AsaKernel
