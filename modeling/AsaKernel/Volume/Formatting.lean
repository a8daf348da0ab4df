import AsaKernel.Volume.Isolation

/-
  The sectors that `format_vol` fills on the sector-level
  disk.

  Main declarations:
    * `formatTrail`, `formatTrail_eq`
    * `formatLoop_apply`
    * `Volume.Addressable`
    * `Mbr.formatted`, `Mbr.formatVol_spec`
    * `Mbr.formatted_eq_locate`
    * `Mbr.formatted_eq`, `Mbr.formatted_subset_sectors`
-/

------------------------------------------------------------
-- The Format Loop
------------------------------------------------------------

namespace AsaKernel

/- The sectors that the loop of `format_sector` seeks. -/
def formatTrail :
    Nat → UInt32 → UInt32 → List SectorAddr
| 0, _, _ => []
| k + 1, newcyl, newsect =>
    let next := (newsect + 1) % UInt32.ofNat hdaMaxSector
    (newcyl.toUInt16, newsect.toUInt16) ::
      formatTrail k
        (if next = 0 then newcyl + 1 else newcyl) next

/- Formatting fills the sectors of the trail. -/
theorem formatLoop_apply
    (value : UInt32)
    (k : Nat)
    (newcyl newsect : UInt32)
    (disk : Disk)
    (addr : SectorAddr) :
    Drive.formatLoop value k newcyl newsect disk addr =
      if addr ∈ formatTrail k newcyl newsect then
        Sector.filled value
      else disk addr := by
  induction k generalizing newcyl newsect disk with
  | zero => rfl
  | succ k ih =>
      simp only [Drive.formatLoop, Disk.formatOne_eq, ih,
        formatTrail, List.mem_cons]
      by_cases hHere :
          addr = (newcyl.toUInt16, newsect.toUInt16)
      · simp [hHere]
      · simp [hHere]

/- The trail steps to the next sector, with carry. -/
theorem formatTrail_eq
    (k : Nat)
    (cyl sect : UInt32)
    (hSect : sect.toNat < 16) :
    formatTrail k cyl sect =
      (List.range k).map fun j =>
        ((cyl + UInt32.ofNat ((sect.toNat + j) / 16)
            ).toUInt16,
          (UInt32.ofNat ((sect.toNat + j) % 16)
            ).toUInt16) := by
  induction k generalizing cyl sect with
  | zero => rfl
  | succ k ih =>
      have hNext :
          ((sect + 1) % UInt32.ofNat hdaMaxSector).toNat =
            (sect.toNat + 1) % 16 := by
        rw [UInt32.toNat_mod, UInt32.toNat_add]
        have hMax : (UInt32.ofNat hdaMaxSector).toNat = 16 :=
          rfl
        have hOne : (1 : UInt32).toNat = 1 := rfl
        rw [hMax, hOne]
        omega
      have hZero :
          (sect + 1) % UInt32.ofNat hdaMaxSector = 0 ↔
            sect.toNat = 15 := by
        rw [← UInt32.toNat_inj, hNext]
        have hNil : (0 : UInt32).toNat = 0 := rfl
        omega
      have hSelf :
          UInt32.ofNat (sect.toNat % 16) = sect := by
        rw [Nat.mod_eq_of_lt hSect, UInt32.ofNat_toNat]
      have hStay : sect.toNat / 16 = 0 :=
        Nat.div_eq_of_lt hSect
      rw [formatTrail, List.range_succ_eq_map,
        List.map_cons, List.map_map,
        ih _ _ (by rw [hNext]; omega), hNext]
      congr 1
      · simp [hSelf, hStay]
      · apply List.map_congr_left
        intro j _
        simp only [Function.comp, Prod.mk.injEq]
        have hMod :
            ((sect.toNat + 1) % 16 + j) % 16 =
              (sect.toNat + j.succ) % 16 := by
          omega
        rw [hMod]
        refine ⟨?_, rfl⟩
        by_cases hCarry : sect.toNat = 15
        · have hDiv :
              (sect.toNat + j.succ) / 16 =
                1 + ((sect.toNat + 1) % 16 + j) / 16 := by
            omega
          rw [if_pos (hZero.mpr hCarry), hDiv,
            UInt32.ofNat_add, UInt32.add_assoc]
          rfl
        · have hDiv :
              (sect.toNat + j.succ) / 16 =
                ((sect.toNat + 1) % 16 + j) / 16 := by
            omega
          rw [if_neg (fun hEq => hCarry (hZero.mp hEq)),
            hDiv]

------------------------------------------------------------
-- Addresses Below the Driver
------------------------------------------------------------

namespace Volume

/-
  The start is a sector of a cylinder, no `int` overflows, and
  the cylinders of the blocks are numbers of 16 bits.
-/
structure Addressable
    (v : Volume) : Prop where
  placed : v.Placed
  size_nonneg : 0 ≤ v.nbBlocs.toInt
  sum_lt :
    v.debutSect.toInt + v.nbBlocs.toInt < 2147483648
  cyl_lt :
    ∀ b : Int, 0 ≤ b → b < v.nbBlocs.toInt →
      v.debutCyl.toInt + (v.debutSect.toInt + b) / 16 < 65536

variable {v : Volume} {b b' : UInt32}

/- Such a block has its sector on such a cylinder. -/
theorem Addressable.locate_range
    (hAddressable : v.Addressable)
    (hBlock : (b.toNat : Int) < v.nbBlocs.toInt) :
    0 ≤ (v.locate b).1.toInt ∧
      (v.locate b).1.toInt < 65536 ∧
      (v.locate b).1.toInt =
        v.debutCyl.toInt +
          (v.debutSect.toInt + b.toNat) / 16 ∧
      (v.locate b).2.toInt =
        (v.debutSect.toInt + b.toNat) % 16 := by
  have hCyl := hAddressable.placed.cyl_nonneg
  have hSect := hAddressable.placed.sect_nonneg
  have hSum := hAddressable.sum_lt
  have hLimit :=
    hAddressable.cyl_lt b.toNat (by omega) hBlock
  have hReaches : v.Reaches b.toNat := by
    constructor <;> omega
  rcases locate_eq hAddressable.placed hReaches with
    ⟨hCyl', hSect'⟩
  refine ⟨?_, ?_, hCyl', hSect'⟩ <;> omega

/- Two blocks have different sectors. -/
theorem Addressable.sectorAddr_inj
    (hAddressable : v.Addressable)
    (hBlock : (b.toNat : Int) < v.nbBlocs.toInt)
    (hBlock' : (b'.toNat : Int) < v.nbBlocs.toInt)
    (hEq :
      sectorAddr (v.locate b) = sectorAddr (v.locate b')) :
    b = b' := by
  rcases hAddressable.locate_range hBlock with
    ⟨hLow, hHigh, hCyl, hSect⟩
  rcases hAddressable.locate_range hBlock' with
    ⟨hLow', hHigh', hCyl', hSect'⟩
  have hLin :=
    lin_eq_of_sectorAddr_eq
      ⟨hLow, hHigh, by omega, by omega⟩
      ⟨hLow', hHigh', by omega, by omega⟩ hEq
  apply UInt32.toNat_inj.mp
  simp only [lin, hCyl, hSect, hCyl', hSect'] at hLin
  omega

end Volume

------------------------------------------------------------
-- Formatting a Volume
------------------------------------------------------------

namespace Mbr

variable {mbr : Mbr}

/- The sectors that `format_vol` seeks for a table entry. -/
def formatted
    (v : Volume) : List SectorAddr :=
  formatTrail v.nbBlocs.toUInt32.toNat
    v.debutCyl.toUInt32 v.debutSect.toUInt32

/- `format_vol` fills these sectors and no other. -/
theorem formatVol_spec
    {vol : UInt32}
    {v : Volume}
    (hSlot : mbr.volume? vol.toNat = some v)
    (value : UInt32)
    (disk : Disk) :
    ∃ after : Disk,
      mbr.formatVol vol value disk = some after ∧
      ∀ addr,
        after addr =
          if addr ∈ formatted v then Sector.filled value
          else disk addr := by
  refine ⟨_, by simp only [formatVol, hSlot]; rfl, ?_⟩
  intro addr
  exact formatLoop_apply value _ _ _ disk addr

/- They are the sectors that `cytToSect` finds, in order. -/
theorem formatted_eq_locate
    {v : Volume}
    (hAddressable : v.Addressable) :
    formatted v =
      (List.range v.nbBlocs.toInt.toNat).map fun j =>
        sectorAddr (v.locate (UInt32.ofNat j)) := by
  have hPlaced := hAddressable.placed
  have hSize := hAddressable.size_nonneg
  have hCyl := hPlaced.cyl_nonneg
  have hSect := hPlaced.sect_nonneg
  have hSectLt := hPlaced.sect_lt
  have hSum := hAddressable.sum_lt
  have hCount :=
    FixedWidth.toNat_toUInt32_of_nonneg hSize
  have hCylNat :=
    FixedWidth.toNat_toUInt32_of_nonneg hCyl
  have hSectNat :=
    FixedWidth.toNat_toUInt32_of_nonneg hSect
  have hLength :
      v.nbBlocs.toUInt32.toNat = v.nbBlocs.toInt.toNat := by
    omega
  rw [formatted, formatTrail_eq _ _ _ (by omega), hLength]
  apply List.map_congr_left
  intro j hj
  rw [List.mem_range] at hj
  have hIndex : (UInt32.ofNat j).toNat = j := by
    rw [UInt32.toNat_ofNat']
    exact Nat.mod_eq_of_lt (by omega)
  have hBlock :
      ((UInt32.ofNat j).toNat : Int) < v.nbBlocs.toInt := by
    omega
  rcases hAddressable.locate_range hBlock with
    ⟨hLow, hHigh, hCyl', hSect'⟩
  rw [hIndex] at hCyl' hSect'
  have hCylAddr := toNat_toUShort hLow hHigh
  have hSectAddr :=
    toNat_toUShort
      (x := (v.locate (UInt32.ofNat j)).2) (by omega)
      (by omega)
  simp only [sectorAddr, Prod.mk.injEq]
  constructor
  · apply UInt16.toNat_inj.mp
    rw [UInt32.toNat_toUInt16, UInt32.toNat_add,
      UInt32.toNat_ofNat']
    omega
  · apply UInt16.toNat_inj.mp
    rw [UInt32.toNat_toUInt16, UInt32.toNat_ofNat']
    omega

/- For a volume on the disk they are the sectors of its blocks. -/
theorem formatted_eq
    {v : Volume}
    (hPlaced : v.Placed)
    (hSize : 0 ≤ v.nbBlocs.toInt)
    (hFin : v.fin ≤ diskSectors) :
    formatted v =
      (List.range v.nbBlocs.toInt.toNat).map fun j =>
        sectorAddr (v.locate (UInt32.ofNat j)) := by
  have hCyl := hPlaced.cyl_nonneg
  have hSect := hPlaced.sect_nonneg
  simp only [diskSectors, hdaMaxCylinder, hdaMaxSector,
    Volume.fin, Volume.start, lin] at hFin
  refine formatted_eq_locate ⟨hPlaced, hSize, ?_, ?_⟩
  · omega
  · intro b hLow hHigh
    omega

/- Formatting a volume on the disk seeks its own sectors. -/
theorem formatted_subset_sectors
    {vol : UInt32}
    {v : Volume}
    (hVol : vol.toNat < mbr.nbVolume.toNat)
    (hSlot : mbr.volume? vol.toNat = some v)
    (hPlaced : v.Placed)
    (hSize : 0 ≤ v.nbBlocs.toInt)
    (hFin : v.fin ≤ diskSectors) :
    ∀ addr ∈ formatted v, addr ∈ mbr.sectors vol := by
  have hRange := FixedWidth.toInt_range v.nbBlocs
  intro addr hAddr
  rw [formatted_eq hPlaced hSize hFin, List.mem_map]
    at hAddr
  rcases hAddr with ⟨j, hj, rfl⟩
  rw [List.mem_range] at hj
  have hIndex : (UInt32.ofNat j).toNat = j := by
    rw [UInt32.toNat_ofNat']
    exact Nat.mod_eq_of_lt (by omega)
  have hBlock : mbr.HasBlock vol (UInt32.ofNat j) :=
    ⟨hVol, _, hSlot, by omega⟩
  exact hBlock.addr_mem_sectors
    (Mbr.cytToSect_eq hSlot _)

theorem DiskPacked.formatted_subset
    (hDisk : mbr.DiskPacked)
    {vol : UInt32}
    {v : Volume}
    (hVol : vol.toNat < mbr.nbVolume.toNat)
    (hSlot : mbr.volume? vol.toNat = some v) :
    ∀ addr ∈ formatted v, addr ∈ mbr.sectors vol := by
  rcases volume?_existing hDisk.packed.count_le hVol with
    ⟨hLength, hEntry⟩
  cases hEntry.symm.trans hSlot
  have hMem := List.getElem_mem hLength
  have hSize := hDisk.packed.occupied _ hMem
  exact formatted_subset_sectors hVol hSlot
    (hDisk.packed.placed _ hMem) (by omega)
    (hDisk.fin_le _ hMem)

end Mbr

end AsaKernel
