import AsaKernel.Volume.TableRuns

/-
  Sizes typed at `new` and the bounds of the disk.

  `new` records any size.  Its volumes exist on the disk
  exactly when every size that is typed while the table has
  room is positive and fits between the last volume and the
  end of the disk.

  Main declarations:
    * `Mbr.FitsDisk`, `Mbr.FittingSizes`
    * `Mbr.OnDisk`, `Mbr.DiskPacked`
    * `Mbr.Confined`
    * `Mbr.confined_iff`
-/

------------------------------------------------------------
-- Tables on the Disk
------------------------------------------------------------

namespace AsaKernel

open Transition

/- The number of sectors of the disk. -/
def diskSectors : Int :=
  hdaMaxCylinder * hdaMaxSector

/- A size is positive and fits after the last volume. -/
def Mbr.FitsDisk
    (mbr : Mbr)
    (nbloc : Int32) : Prop :=
  1 ≤ nbloc.toInt ∧
    mbr.frontier + nbloc.toInt ≤ diskSectors

instance (mbr : Mbr) (nbloc : Int32) :
    Decidable (mbr.FitsDisk nbloc) :=
  inferInstanceAs (Decidable (_ ∧ _))

/- A `new` that finds room asks for a size that fits. -/
def TableCmd.SizeFits
    (mbr : Mbr) : TableCmd → Prop
| .new nbloc =>
    mbr.nbVolume.toNat < 8 → mbr.FitsDisk nbloc
| .del _ => True

instance (mbr : Mbr) (cmd : TableCmd) :
    Decidable (cmd.SizeFits mbr) :=
  match cmd with
  | .new _ => inferInstanceAs (Decidable (_ → _))
  | .del _ => isTrue trivial

/-
  The address of a block of a volume that ends on the disk, or
  of the block after its last one.
-/
theorem Volume.locate_end
    {v : Volume}
    (hPlaced : v.Placed)
    (hFin : v.fin ≤ diskSectors)
    {b : UInt32}
    (hBlock : (b.toNat : Int) ≤ v.nbBlocs.toInt) :
    0 ≤ (v.locate b).1.toInt ∧
      (v.locate b).1.toInt ≤ 16 ∧
      0 ≤ (v.locate b).2.toInt ∧
      (v.locate b).2.toInt < 16 ∧
      lin (v.locate b) = v.start + b.toNat := by
  have hCyl := hPlaced.cyl_nonneg
  have hSect := hPlaced.sect_nonneg
  simp only [diskSectors, hdaMaxCylinder, hdaMaxSector,
    Volume.fin] at hFin
  have hReaches : v.Reaches b.toNat :=
    hPlaced.reaches (by omega)
  rcases Volume.locate_eq hPlaced hReaches with
    ⟨hCyl', hSect'⟩
  have hStart : v.start =
      16 * v.debutCyl.toInt + v.debutSect.toInt := rfl
  refine ⟨?_, ?_, ?_, ?_,
    Volume.lin_locate hPlaced hReaches⟩
  all_goals omega

/- Its blocks themselves are sectors of the disk. -/
theorem Volume.locate_range
    {v : Volume}
    (hPlaced : v.Placed)
    (hFin : v.fin ≤ diskSectors)
    {b : UInt32}
    (hBlock : (b.toNat : Int) < v.nbBlocs.toInt) :
    0 ≤ (v.locate b).1.toInt ∧ (v.locate b).1.toInt < 16 ∧
      0 ≤ (v.locate b).2.toInt ∧
      (v.locate b).2.toInt < 16 ∧
      lin (v.locate b) = v.start + b.toNat := by
  have hEnd : (b.toNat : Int) ≤ v.nbBlocs.toInt := by
    omega
  rcases Volume.locate_end hPlaced hFin hEnd with
    ⟨hCylLow, _, hSectLow, hSectHigh, hLin⟩
  have hValue := hLin
  simp only [diskSectors, hdaMaxCylinder, hdaMaxSector,
    Volume.fin] at hFin
  unfold lin at hValue
  exact ⟨hCylLow, by omega, hSectLow, hSectHigh, hLin⟩

namespace Mbr

variable {mbr : Mbr}
variable (cmds : List TableCmd)

/- Every size that `new` records fits the disk. -/
abbrev FittingSizes
    (mbr : Mbr)
    (cmds : List TableCmd) : Prop :=
  Always TableCmd.step mbr cmds
    fun t cmd => cmd.SizeFits t

/- Every block of the volume is a sector from 1 to 255. -/
def OnDisk
    (mbr : Mbr)
    (vol : UInt32)
    (v : Volume) : Prop :=
  1 ≤ v.nbBlocs.toInt ∧
    ∀ b : UInt32, (b.toNat : Int) < v.nbBlocs.toInt →
      ∃ cylSect,
        mbr.cytToSect vol b = some cylSect ∧
        0 ≤ cylSect.1.toInt ∧
        cylSect.1.toInt < hdaMaxCylinder ∧
        0 ≤ cylSect.2.toInt ∧
        cylSect.2.toInt < hdaMaxSector ∧
        1 ≤ lin cylSect

/- A placed volume that ends on the disk lies on the disk. -/
theorem onDisk_of_fin
    {vol : UInt32}
    {v : Volume}
    (hSlot : mbr.volume? vol.toNat = some v)
    (hPlaced : v.Placed)
    (hSize : 1 ≤ v.nbBlocs.toInt)
    (hStart : 1 ≤ v.start)
    (hFin : v.fin ≤ diskSectors) :
    mbr.OnDisk vol v := by
  refine ⟨hSize, fun b hBlock => ?_⟩
  rcases Volume.locate_range hPlaced hFin hBlock with
    ⟨hCylLow, hCylHigh, hSectLow, hSectHigh, hLin⟩
  refine ⟨_, cytToSect_eq hSlot b, hCylLow,
    hCylHigh, hSectLow, hSectHigh, ?_⟩
  omega

/- Every existing volume lies on the disk. -/
def AllOnDisk
    (mbr : Mbr) : Prop :=
  ∀ vol : UInt32, vol.toNat < mbr.nbVolume.toNat →
    ∃ v, mbr.volume? vol.toNat = some v ∧
      mbr.OnDisk vol v

/- The existing volumes are packed before the disk's end. -/
structure DiskPacked
    (mbr : Mbr) : Prop where
  packed : mbr.Packed
  fin_le : ∀ v ∈ mbr.entries, v.fin ≤ diskSectors

theorem diskPacked_of_empty
    (hEmpty : mbr.nbVolume = 0) :
    mbr.DiskPacked where
  packed := packed_of_empty hEmpty
  fin_le := by simp [entries_eq_nil hEmpty]

namespace DiskPacked

theorem endFits
    (hDisk : mbr.DiskPacked) :
    mbr.EndFits := by
  apply hDisk.packed.endFits
  intro v hMem
  have hFin := hDisk.fin_le v hMem
  simp only [diskSectors, hdaMaxCylinder, hdaMaxSector]
    at hFin
  omega

/- The address of a block inside a volume on the disk. -/
theorem locate_range
    (hDisk : mbr.DiskPacked)
    {v : Volume}
    (hMem : v ∈ mbr.entries)
    {b : UInt32}
    (hBlock : (b.toNat : Int) < v.nbBlocs.toInt) :
    0 ≤ (v.locate b).1.toInt ∧ (v.locate b).1.toInt < 16 ∧
      0 ≤ (v.locate b).2.toInt ∧
      (v.locate b).2.toInt < 16 ∧
      lin (v.locate b) = v.start + b.toNat :=
  Volume.locate_range (hDisk.packed.placed v hMem)
    (hDisk.fin_le v hMem) hBlock

/- The entry of an existing volume. -/
theorem exists_volume
    (hDisk : mbr.DiskPacked)
    {vol : Int32}
    (hExists : mbr.Exists vol) :
    ∃ v, mbr.volume? vol.toInt = some v ∧
      v ∈ mbr.entries := by
  have hLength : vol.toInt.toNat < mbr.entries.length := by
    rw [length_entries hDisk.packed.count_le]
    rcases hExists with ⟨hLow, hHigh⟩
    omega
  refine ⟨_, ?_, List.getElem_mem hLength⟩
  rw [hExists.volume?_eq, List.getElem?_eq_getElem hLength]

/- The slot of an existing volume holds an entry. -/
theorem mem_entries
    (hDisk : mbr.DiskPacked)
    {vol : Int32}
    (hExists : mbr.Exists vol)
    {v : Volume}
    (hSlot : mbr.volume? vol.toInt = some v) :
    v ∈ mbr.entries := by
  rcases hDisk.exists_volume hExists with
    ⟨w, hSlot', hMem⟩
  cases hSlot.symm.trans hSlot'
  exact hMem

theorem allOnDisk
    (hDisk : mbr.DiskPacked) :
    mbr.AllOnDisk := by
  intro vol hVol
  rcases volume?_existing hDisk.packed.count_le hVol with
    ⟨hLength, hSlot⟩
  have hMem := List.getElem_mem hLength
  exact ⟨_, hSlot, onDisk_of_fin hSlot
    (hDisk.packed.placed _ hMem)
    (hDisk.packed.occupied _ hMem)
    (hDisk.packed.after_mbr _ hMem)
    (hDisk.fin_le _ hMem)⟩

/- `new` with a size that fits stays on the disk. -/
theorem new
    (hDisk : mbr.DiskPacked)
    (hRoom : mbr.nbVolume.toNat < 8)
    {nbloc : Int32}
    (hFits : mbr.FitsDisk nbloc) :
    ∃ after v,
      mbr.new nbloc = some after ∧ after.DiskPacked ∧
      after.nbVolume.toNat = mbr.nbVolume.toNat + 1 ∧
      after.entries = mbr.entries ++ [v] ∧
      v.nbBlocs = nbloc ∧ v.start = mbr.frontier := by
  rcases hDisk.packed.new hRoom hDisk.endFits hFits.1 with
    ⟨after, v, hNew, hPacked, hCount, hEntries, hSize,
      hStart⟩
  refine ⟨after, v, hNew, ⟨hPacked, ?_⟩, hCount, hEntries,
    hSize, hStart⟩
  rw [hEntries, List.forall_mem_append]
  refine ⟨hDisk.fin_le, ?_⟩
  simp only [List.mem_singleton, forall_eq, Volume.fin,
    hStart, hSize]
  exact hFits.2

theorem del
    (hDisk : mbr.DiskPacked)
    {vol : Int32}
    (hLow : 0 ≤ vol.toInt)
    (hHigh : vol.toInt < mbr.nbVolume.toNat) :
    ∃ after,
      mbr.del vol = some after ∧ after.DiskPacked ∧
      after.nbVolume.toNat = mbr.nbVolume.toNat - 1 ∧
      after.entries =
        mbr.entries.eraseIdx vol.toInt.toNat := by
  rcases hDisk.packed.del hLow hHigh with
    ⟨after, hDel, hPacked, hCount, hEntries⟩
  refine ⟨after, hDel, ⟨hPacked, ?_⟩, hCount, hEntries⟩
  rw [hEntries]
  exact fun v hv =>
    hDisk.fin_le v (List.mem_of_mem_eraseIdx hv)

end DiskPacked

------------------------------------------------------------
-- Runs
------------------------------------------------------------

/-
  What the run should guarantee: every command is executed,
  every volume of every table lies on the disk, and a size
  that does not fit leaves the table unchanged.
-/
def Confined
    (mbr : Mbr)
    (cmds : List TableCmd) : Prop :=
  (∃ t, run TableCmd.step mbr cmds = some t) ∧
  Throughout TableCmd.step mbr cmds AllOnDisk ∧
  ∀ t n, Performs TableCmd.step mbr cmds t (.new n) →
    ¬ t.FitsDisk n → t.new n = some t

/- A command with valid answers keeps the table on the disk. -/
theorem DiskPacked.step
    (hDisk : mbr.DiskPacked)
    {cmd : TableCmd}
    (hDel : cmd.NamesExisting mbr)
    (hSize : cmd.SizeFits mbr) :
    ∃ after,
      cmd.step mbr = some after ∧ after.DiskPacked := by
  cases cmd with
  | new n =>
      have hCount := hDisk.packed.count_le
      by_cases hRoom : mbr.nbVolume.toNat < 8
      · rcases hDisk.new hRoom (hSize hRoom) with
          ⟨after, v, hStep, hAfter, _⟩
        exact ⟨after, hStep, hAfter⟩
      · exact ⟨mbr, new_full (by omega) n, hDisk⟩
  | del vol =>
      rcases hDisk.del hDel.1 hDel.2 with
        ⟨after, hStep, hAfter, _⟩
      exact ⟨after, hStep, hAfter⟩

/- Sizes that fit keep every table of the run on the disk. -/
theorem diskPacked_of_run
    (hEmpty : mbr.nbVolume = 0)
    (hDels : mbr.ValidDels cmds)
    (hSizes : mbr.FittingSizes cmds) :
    (∃ t, run TableCmd.step mbr cmds = some t) ∧
      Throughout TableCmd.step mbr cmds DiskPacked := by
  have hStep :
      ∀ t cmd, Performs TableCmd.step mbr cmds t cmd →
        t.DiskPacked →
          ∃ u, TableCmd.step t cmd = some u ∧
            u.DiskPacked :=
    fun t cmd hPerforms hDisk =>
      hDisk.step (hDels t cmd hPerforms)
        (hSizes t cmd hPerforms)
  have hInit := diskPacked_of_empty hEmpty
  constructor
  · rcases run_defined DiskPacked hInit hStep with
      ⟨t, hRun, _⟩
    exact ⟨t, hRun⟩
  · intro t hReached
    exact reached_of_defined DiskPacked hInit hStep hReached

/-
  `new` records only volumes that exist on the disk exactly
  when every size typed while the table has room fits.
-/
theorem confined_iff
    (hEmpty : mbr.nbVolume = 0)
    (hDels : mbr.ValidDels cmds) :
    mbr.Confined cmds ↔ mbr.FittingSizes cmds := by
  constructor
  · rintro ⟨_, _, hUnchanged⟩ t cmd hPerforms
    cases cmd with
    | new n =>
        intro hRoom
        by_contra hNot
        -- With room in the table the volume is recorded.
        have hSame := hUnchanged t n hPerforms hNot
        rcases new_spec hRoom n with
          ⟨after, v, hNew, hCount, _⟩
        cases hNew.symm.trans hSame
        omega
    | del vol => trivial
  · intro hSizes
    rcases diskPacked_of_run cmds hEmpty hDels hSizes with
      ⟨hRun, hDisk⟩
    refine ⟨hRun, ?_, ?_⟩
    · intro t hReached
      exact (hDisk t hReached).allOnDisk
    · intro t n hPerforms hNot
      have hFull : ¬ t.nbVolume.toNat < 8 := fun hRoom =>
        hNot (hSizes t (.new n) hPerforms hRoom)
      have hCount :=
        (hDisk t hPerforms.reached).packed.count_le
      exact new_full (by omega) n

theorem confined_sample :
    emptyTable.Confined sampleCmds := by
  have hEmpty : emptyTable.nbVolume = 0 := rfl
  exact (confined_iff sampleCmds hEmpty (by decide)).mpr
    (by decide)

/- A volume of 256 blocks does not fit and is recorded. -/
theorem new_records_oversized :
    ¬ emptyTable.Confined [.new 256] := by
  rintro ⟨_, _, hUnchanged⟩
  have hPerforms :
      Performs TableCmd.step emptyTable [.new 256]
        emptyTable (.new 256) :=
    ⟨[], [], rfl, rfl⟩
  have hNot : ¬ emptyTable.FitsDisk 256 := by
    rintro ⟨_, hEnd⟩
    exact absurd hEnd (by decide)
  have hSame := hUnchanged emptyTable 256 hPerforms hNot
  exact absurd hSame (by decide)

end Mbr

end AsaKernel
