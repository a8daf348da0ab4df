import AsaKernel.Vm.Commands
import AsaKernel.Volume.Formatting
import AsaKernel.Superbloc.Conservation

/-
  What the commands `write` and `format` change on the disk.

  Neither command checks its answers.  Both stay inside the
  selected volume when it exists and the block is one of its
  blocks; any other answer writes to some sector, unless the
  index is outside the table's array, which is undefined.

  Main declarations:
    * `Mbr.ChangesOnly`, `Mbr.Addresses`
    * `Session.WriteConfined`, `Session.FormatConfined`
    * `Session.confined_in_every_run`
-/

------------------------------------------------------------
-- Changes Inside a Volume
------------------------------------------------------------

namespace AsaKernel

open Transition

namespace Mbr

variable {mbr : Mbr}

/- The numbers name a block of an existing volume. -/
def Addresses
    (mbr : Mbr)
    (vol bloc : Int32) : Prop :=
  mbr.Exists vol ∧
    ∃ v, mbr.volume? vol.toInt = some v ∧
      0 ≤ bloc.toInt ∧ bloc.toInt < v.nbBlocs.toInt

/- A block of an existing volume as the block functions see it. -/
theorem Addresses.hasBlock
    {vol bloc : Int32}
    (hAddresses : mbr.Addresses vol bloc) :
    mbr.HasBlock vol.toUInt32 bloc.toUInt32 := by
  rcases hAddresses with
    ⟨hExists, v, hSlot, hBlocLow, hBlocHigh⟩
  have hBloc := FixedWidth.toNat_toUInt32_of_nonneg hBlocLow
  refine ⟨hExists.toNat_lt, v, ?_, by omega⟩
  rw [Mbr.volume?_toUInt32]
  exact hSlot

/-
  Only sectors of the volume changed: neither the boot record
  nor a sector of another volume did.
-/
structure ChangesOnly
    (mbr : Mbr)
    (vol : UInt32)
    (disk after : Disk) : Prop where
  outside :
    ∀ addr, addr ∉ mbr.sectors vol →
      after addr = disk addr
  boot_record : after (0, 0) = disk (0, 0)
  others :
    ∀ vol' : UInt32,
      vol'.toNat < mbr.nbVolume.toNat → vol' ≠ vol →
        ∀ addr ∈ mbr.sectors vol', after addr = disk addr

/- On a disk without overlaps the first clause is enough. -/
theorem DiskPacked.changesOnly
    (hDisk : mbr.DiskPacked)
    {vol : UInt32}
    (hVol : vol.toNat < mbr.nbVolume.toNat)
    {disk after : Disk}
    (hOutside :
      ∀ addr, addr ∉ mbr.sectors vol →
        after addr = disk addr) :
    mbr.ChangesOnly vol disk after where
  outside := hOutside
  boot_record :=
    hOutside _ (hDisk.mbr_notMem_sectors hVol)
  others _ hVol' hNe addr hMem :=
    hOutside addr fun hOwn =>
      Set.disjoint_left.mp
        (hDisk.disjoint_sectors hVol' hVol hNe) hMem hOwn

end Mbr

------------------------------------------------------------
-- The Commands
------------------------------------------------------------

namespace Session

variable (libc : Libc) (s : Session Disk)

/-
  `write` only changes the selected volume, and nothing when
  the answers name no block of an existing volume.
-/
def WriteConfined
    (vol bloc : Int32)
    (word : List UInt8) : Prop :=
  ∃ after,
    Command.exec libc s (.write vol bloc word) =
      some after ∧
    (s.mbr.Addresses vol bloc →
      s.mbr.ChangesOnly vol.toUInt32 s.dev after.dev) ∧
    (¬ s.mbr.Addresses vol bloc → after.dev = s.dev)

/-
  `format` only changes the selected volume, and nothing when
  there is no such volume.
-/
def FormatConfined
    (vol value : Int32) : Prop :=
  ∃ after,
    Command.exec libc s (.format vol value) = some after ∧
    (s.mbr.Exists vol →
      s.mbr.ChangesOnly vol.toUInt32 s.dev after.dev) ∧
    (¬ s.mbr.Exists vol → after.dev = s.dev)

/-
  The addressed sector of an entry of the array already holds
  what `write` would put there.
-/
def WriteIsIdle
    (vol bloc : Int32)
    (word : List UInt8) : Prop :=
  ∃ cylSect,
    s.mbr.cytToSect vol.toUInt32 bloc.toUInt32 =
      some cylSect ∧
    scanWord word s.buffer =
      some (s.dev (sectorAddr cylSect))

/-
  Every sector that an entry of the array covers already holds
  the pattern that `format` would put there.
-/
def FormatIsIdle
    (vol value : Int32) : Prop :=
  ∃ v,
    s.mbr.volume? vol.toInt = some v ∧
    ∀ addr ∈ Mbr.formatted v,
      s.dev addr = Sector.filled value.toUInt32

variable {s} {libc}

/- `write` replaces one sector of the disk. -/
theorem exec_write
    {vol bloc : Int32}
    {word : List UInt8}
    {cylSect : Int32 × Int32}
    {buffer : Sector}
    (hAddr :
      s.mbr.cytToSect vol.toUInt32 bloc.toUInt32 =
        some cylSect)
    (hScan : scanWord word s.buffer = some buffer) :
    Command.exec libc s (.write vol bloc word) = some
      { s with
        buffer := buffer
        dev :=
          Function.update s.dev (sectorAddr cylSect)
            buffer } := by
  simp only [Command.exec, hScan, Mbr.writeBloc_eq hAddr,
    Option.bind_eq_bind, Option.bind_some]

theorem writeConfined_iff
    (hDisk : s.mbr.DiskPacked)
    (vol bloc : Int32)
    {word : List UInt8}
    (hWord : word.length < hdaSectorSize) :
    s.WriteConfined libc vol bloc word ↔
      s.mbr.Addresses vol bloc ∨
        s.WriteIsIdle vol bloc word := by
  have hScan :
      scanWord word s.buffer =
        some (s.buffer.memcpy (word ++ [0])) :=
    if_pos hWord
  constructor
  · rintro ⟨after, hExec, _, hKept⟩
    by_cases hAddresses : s.mbr.Addresses vol bloc
    · exact Or.inl hAddresses
    · right
      cases hAddr :
          s.mbr.cytToSect vol.toUInt32 bloc.toUInt32 with
      | none =>
          simp [Command.exec, hScan, Mbr.writeBloc, hAddr]
            at hExec
      | some cylSect =>
          have hSame := hKept hAddresses
          cases (exec_write hAddr hScan).symm.trans hExec
          refine ⟨cylSect, hAddr, ?_⟩
          have hSector :=
            congrFun hSame (sectorAddr cylSect)
          simp only [Function.update_self] at hSector
          rw [hScan, hSector]
  · intro hCondition
    by_cases hAddresses : s.mbr.Addresses vol bloc
    · have hBlock := hAddresses.hasBlock
      rcases hBlock.cytToSect hDisk.packed.count_le with
        ⟨_, _, hAddr⟩
      refine ⟨_, exec_write hAddr hScan, fun _ => ?_,
        fun hNot => absurd hAddresses hNot⟩
      apply hDisk.changesOnly hBlock.1
      intro addr hOutside
      apply Function.update_of_ne
      rintro rfl
      exact hOutside (hBlock.addr_mem_sectors hAddr)
    · rcases hCondition.resolve_left hAddresses with
        ⟨cylSect, hAddr, hIdle⟩
      refine ⟨_, exec_write hAddr hIdle,
        fun hYes => absurd hYes hAddresses, fun _ => ?_⟩
      exact Function.update_eq_self _ _

/- `format` fills the sectors that the entry covers. -/
theorem exec_format
    (libc : Libc)
    {vol : Int32}
    {v : Volume}
    (hSlot : s.mbr.volume? vol.toInt = some v)
    (value : Int32) :
    ∃ disk : Disk,
      Command.exec libc s (.format vol value) =
        some { s with dev := disk } ∧
      ∀ addr,
        disk addr =
          if addr ∈ Mbr.formatted v then
            Sector.filled value.toUInt32
          else s.dev addr := by
  rw [← Mbr.volume?_toUInt32] at hSlot
  rcases Mbr.formatVol_spec hSlot value.toUInt32 s.dev with
    ⟨disk, hFormat, hEffect⟩
  exact ⟨disk, by simp [Command.exec, hFormat], hEffect⟩

theorem formatConfined_iff
    (hDisk : s.mbr.DiskPacked)
    (vol value : Int32) :
    s.FormatConfined libc vol value ↔
      s.mbr.Exists vol ∨ s.FormatIsIdle vol value := by
  constructor
  · rintro ⟨after, hExec, _, hKept⟩
    by_cases hExists : s.mbr.Exists vol
    · exact Or.inl hExists
    · right
      cases hSlot : s.mbr.volume? vol.toInt with
      | none =>
          rw [← Mbr.volume?_toUInt32] at hSlot
          simp [Command.exec, Mbr.formatVol, hSlot] at hExec
      | some v =>
          rcases exec_format libc hSlot value with
            ⟨disk, hDone, hEffect⟩
          have hSame := hKept hExists
          cases hDone.symm.trans hExec
          refine ⟨v, hSlot, fun addr hMem => ?_⟩
          have hSector := hEffect addr
          rw [if_pos hMem] at hSector
          rw [← hSector]
          exact (congrFun hSame addr).symm
  · intro hCondition
    by_cases hExists : s.mbr.Exists vol
    · rcases hDisk.exists_volume hExists with
        ⟨v, hSlot, _⟩
      rcases exec_format libc hSlot value with
        ⟨disk, hDone, hEffect⟩
      rw [← Mbr.volume?_toUInt32] at hSlot
      have hOwn :=
        hDisk.formatted_subset hExists.toNat_lt hSlot
      refine ⟨_, hDone, fun _ => ?_,
        fun hNot => absurd hExists hNot⟩
      apply hDisk.changesOnly hExists.toNat_lt
      intro addr hOutside
      change disk addr = s.dev addr
      rw [hEffect, if_neg fun hMem =>
        hOutside (hOwn addr hMem)]
    · rcases hCondition.resolve_left hExists with
        ⟨v, hSlot, hIdle⟩
      rcases exec_format libc hSlot value with
        ⟨disk, hDone, hEffect⟩
      refine ⟨_, hDone, fun hYes => absurd hYes hExists,
        fun _ => ?_⟩
      funext addr
      change disk addr = s.dev addr
      rw [hEffect]
      split
      · next hMem => exact (hIdle addr hMem).symm
      · rfl

------------------------------------------------------------
-- Runs
------------------------------------------------------------

/-
  With every table that valid table commands reach: `write`
  and `format` are confined exactly when the answers name a
  block, or a volume, that exists, or happen to change nothing.
-/
theorem confined_in_every_run
    (libc : Libc)
    {mbr : Mbr}
    (hEmpty : mbr.nbVolume = 0)
    (cmds : List TableCmd)
    (hDels : mbr.ValidDels cmds)
    (hSizes : mbr.FittingSizes cmds) :
    Throughout TableCmd.step mbr cmds fun t =>
      ∀ (s : Session Disk) (vol bloc value : Int32)
        (word : List UInt8),
        s.mbr = t → word.length < hdaSectorSize →
          (s.WriteConfined libc vol bloc word ↔
            t.Addresses vol bloc ∨
              s.WriteIsIdle vol bloc word) ∧
          (s.FormatConfined libc vol value ↔
            t.Exists vol ∨ s.FormatIsIdle vol value) := by
  rcases Mbr.diskPacked_of_run cmds hEmpty hDels hSizes with
    ⟨_, hTables⟩
  rintro t hReached s vol bloc value word rfl hWord
  have hDisk := hTables s.mbr hReached
  exact ⟨writeConfined_iff hDisk vol bloc hWord,
    formatConfined_iff hDisk vol value⟩

/- A table with one volume of 5 blocks. -/
def fiveBlocks : Mbr where
  nbVolume := 1
  volumes :=
    #v[⟨TypeE.base, 0, 1, 5⟩, ⟨TypeE.base, 0, 0, 0⟩,
      ⟨TypeE.base, 0, 0, 0⟩, ⟨TypeE.base, 0, 0, 0⟩,
      ⟨TypeE.base, 0, 0, 0⟩, ⟨TypeE.base, 0, 0, 0⟩,
      ⟨TypeE.base, 0, 0, 0⟩, ⟨TypeE.base, 0, 0, 0⟩]

theorem confined_in_sample :
    WriteConfined sampleLibc (blankSession fiveBlocks) 0 4
        [120] ∧
      FormatConfined sampleLibc (blankSession fiveBlocks)
        0 7 := by
  have hRun :
      run TableCmd.step Mbr.emptyTable [.new 5] =
        some fiveBlocks := by
    decide
  have hEmpty : Mbr.emptyTable.nbVolume = 0 := rfl
  have hBoth :=
    confined_in_every_run sampleLibc hEmpty [.new 5]
      (by decide)
      (by decide) fiveBlocks (reached_of_run hRun)
      (blankSession fiveBlocks) 0 4 7 [120] rfl (by decide)
  exact
    ⟨hBoth.1.mpr (Or.inl ⟨by decide, _, rfl, by decide⟩),
      hBoth.2.mpr (Or.inl (by decide))⟩

/- Block -1 of the first volume is the boot record. -/
theorem write_overwrites_mbr :
    run TableCmd.step Mbr.emptyTable [.new 5] =
        some fiveBlocks ∧
      ¬ WriteConfined sampleLibc (blankSession fiveBlocks)
        0 (-1) [120] := by
  refine ⟨by decide, ?_⟩
  rintro ⟨after, hExec, _, hKept⟩
  have hOutside : ¬ fiveBlocks.Addresses 0 (-1) := by
    rintro ⟨_, v, _, hLow, _⟩
    exact absurd hLow (by decide)
  have hAddr :
      fiveBlocks.cytToSect (0 : Int32).toUInt32
        (-1 : Int32).toUInt32 = some (0, 0) := by
    decide
  have hScan :
      scanWord [120] (Sector.filled 0) =
        some ((Sector.filled 0).memcpy [120, 0]) := rfl
  have hSame := congrFun (hKept hOutside) (0, 0)
  cases
    (exec_write (s := blankSession fiveBlocks) hAddr
      hScan).symm.trans hExec
  exact absurd hSame (by decide)

end Session

end AsaKernel
