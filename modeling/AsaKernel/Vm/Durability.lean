import AsaKernel.Vm.Loading
import AsaKernel.Volume.Deletion
import AsaKernel.Volume.Formatting
import AsaKernel.Superbloc.Conservation

/-
  The saved volume table and the operations on volumes.

  The volumes of the table lie on the disk and leave the
  sector of the master boot record free.  Then no transfer, no
  formatting, no initialisation and no save of a superblock
  reaches that sector, and a later process reads the saved
  table back.

  Main declarations:
    * `Volume.Within`, `Mbr.LaidOut`
    * `BlockOp`, `BlockOp.step`, `BlockOp.Valid`
    * `Session.Recoverable`, `Session.Recoverable.step`
    * `Session.table_survives_in_every_run`
-/

------------------------------------------------------------
-- Tables Laid Out on the Disk
------------------------------------------------------------

namespace AsaKernel

open Transition

/- The volume is a range of sectors of the disk. -/
structure Volume.Within
    (v : Volume) : Prop where
  placed : v.Placed
  size_nonneg : 0 ≤ v.nbBlocs.toInt
  fin_le : v.fin ≤ diskSectors

namespace Mbr

/-
  The volumes lie on the disk and do not hold the sector of
  the master boot record.  They may overlap.
-/
structure LaidOut
    (mbr : Mbr) : Prop where
  count_le : mbr.nbVolume.toNat ≤ 8
  within : ∀ v ∈ mbr.entries, v.Within
  spares_mbr :
    ∀ vol : UInt32, vol.toNat < mbr.nbVolume.toNat →
      (0, 0) ∉ mbr.sectors vol

/- An existing volume with a block for a list node. -/
def Loadable
    (mbr : Mbr)
    (vol : Int32) : Prop :=
  mbr.Exists vol ∧
    ∀ v ∈ mbr.volume? vol.toInt, 2 ≤ v.nbBlocs.toInt

instance (mbr : Mbr) (vol : Int32) :
    Decidable (mbr.Loadable vol) :=
  inferInstanceAs (Decidable (_ ∧ _))

instance (mbr : Mbr) (vol b : UInt32) :
    Decidable (mbr.HasBlock vol b) :=
  decidable_of_iff
    (vol.toNat < mbr.nbVolume.toNat ∧
      ∃ v ∈ mbr.volume? vol.toNat,
        (b.toNat : Int) < v.nbBlocs.toInt)
    (by simp only [HasBlock, Option.mem_def])

variable {mbr : Mbr}

/- Volumes packed on the disk are laid out. -/
theorem DiskPacked.laidOut
    (hDisk : mbr.DiskPacked) :
    mbr.LaidOut where
  count_le := hDisk.packed.count_le
  within v hMem := by
    have hSize := hDisk.packed.occupied v hMem
    exact
      ⟨hDisk.packed.placed v hMem, by omega,
        hDisk.fin_le v hMem⟩
  spares_mbr vol hVol := hDisk.mbr_notMem_sectors hVol

/- The table entry of an existing volume. -/
theorem LaidOut.exists_volume
    (hTable : mbr.LaidOut)
    {vol : Int32}
    (hExists : mbr.Exists vol) :
    ∃ v, mbr.volume? vol.toInt = some v ∧ v.Within := by
  have hLength : vol.toInt.toNat < mbr.entries.length := by
    rw [length_entries hTable.count_le]
    rcases hExists with ⟨hLow, hHigh⟩
    omega
  refine ⟨_, ?_, hTable.within _ (List.getElem_mem hLength)⟩
  rw [hExists.volume?_eq, List.getElem?_eq_getElem hLength]

/- A block of an existing volume is not the boot record. -/
theorem LaidOut.addr_ne_mbr
    (hTable : mbr.LaidOut)
    {vol b : UInt32}
    (hBlock : mbr.HasBlock vol b)
    {p : Int32 × Int32}
    (hAddr : mbr.cytToSect vol b = some p) :
    sectorAddr p ≠ (0, 0) := by
  intro hEq
  apply hTable.spares_mbr vol hBlock.1
  rw [← hEq]
  exact hBlock.addr_mem_sectors hAddr

/- Nor is a block below the size, as the volume locates it. -/
theorem LaidOut.locate_ne_mbr
    (hTable : mbr.LaidOut)
    {vol : Int32}
    (hExists : mbr.Exists vol)
    {v : Volume}
    (hSlot : mbr.volume? vol.toInt = some v)
    {b : UInt32}
    (hBlock : (b.toNat : Int) < v.nbBlocs.toInt) :
    sectorAddr (v.locate b) ≠ (0, 0) := by
  rw [← volume?_toUInt32] at hSlot
  exact hTable.addr_ne_mbr
    ⟨hExists.toNat_lt, v, hSlot, hBlock⟩
    (cytToSect_eq hSlot b)

end Mbr

------------------------------------------------------------
-- Operations on Volumes
------------------------------------------------------------

/- The calls of volume.h and superbloc.h that use the disk. -/
inductive BlockOp where
  | writeBloc (vol nbloc : UInt32) (buffer : Sector)
  | readBloc (vol nbloc : UInt32)
  | formatVol (vol value : UInt32)
  | loadSuper (vol : Int32)
  | saveSuper
deriving DecidableEq

namespace BlockOp

/-
  Execute one call.  The result of `load_super` is assigned to
  `current_vol`, as its only caller does.
-/
def step
    (libc : Libc)
    (s : Session Disk) : BlockOp → Option (Session Disk)
| .writeBloc vol nbloc buffer => do
    let dev ← s.mbr.writeBloc vol nbloc buffer s.dev
    some { s with dev := dev }
| .readBloc vol nbloc => do
    let (_, dev) ← s.mbr.readBloc vol nbloc s.dev
    some { s with dev := dev }
| .formatVol vol value => do
    let dev ← s.mbr.formatVol vol value s.dev
    some { s with dev := dev }
| .loadSuper vol => s.loadVol libc vol
| .saveSuper => s.saveSuper libc

/- Existing volumes, block numbers in range, and a superblock
   to save. -/
def Valid
    (s : Session Disk) : BlockOp → Prop
| .writeBloc vol nbloc _ => s.mbr.HasBlock vol nbloc
| .readBloc vol nbloc => s.mbr.HasBlock vol nbloc
| .formatVol vol _ => vol.toNat < s.mbr.nbVolume.toNat
| .loadSuper vol => s.mbr.Loadable vol
| .saveSuper =>
    s.mbr.Loadable s.currentVol ∧
      s.currentSuperbloc.isSome

/- A load finds memory for a list of every block. -/
def HasRoom
    (libc : Libc)
    (s : Session Disk) : BlockOp → Prop
| .loadSuper vol =>
    ∀ v ∈ s.mbr.volume? vol.toInt,
      s.heap.size + v.nbBlocs.toInt ≤ libc.nodes.capacity
| _ => True

instance (s : Session Disk) (op : BlockOp) :
    Decidable (op.Valid s) :=
  match op with
  | .writeBloc _ _ _ | .readBloc _ _ =>
      inferInstanceAs (Decidable (s.mbr.HasBlock _ _))
  | .formatVol _ _ => inferInstanceAs (Decidable (_ < _))
  | .loadSuper vol =>
      inferInstanceAs (Decidable (s.mbr.Loadable vol))
  | .saveSuper => inferInstanceAs (Decidable (_ ∧ _))

instance (libc : Libc) (s : Session Disk) (op : BlockOp) :
    Decidable (op.HasRoom libc s) :=
  match op with
  | .loadSuper vol =>
      inferInstanceAs
        (Decidable (∀ v ∈ s.mbr.volume? vol.toInt, _ ≤ _))
  | .writeBloc _ _ _ | .readBloc _ _ | .formatVol _ _
  | .saveSuper => isTrue trivial

end BlockOp

------------------------------------------------------------
-- The Boot Record Is Kept
------------------------------------------------------------

namespace Session

/-
  The session works with the table, and the disk holds an
  image of it.
-/
structure Recoverable
    (table : Mbr)
    (s : Session Disk) : Prop where
  mbr_eq : s.mbr = table
  stored : Mbr.layout.decode (s.dev (0, 0)).toList = table

variable {libc : Libc} {s after : Session Disk} {table : Mbr}

theorem recoverable_save
    (s : Session Disk) :
    (s.save libc).Recoverable s.mbr where
  mbr_eq := rfl
  stored :=
    loadMbr_saveMbr (libc.garbage s.heap.calls) s.mbr s.dev

/- A new process works with the table. -/
theorem Recoverable.boot
    (hTable : s.Recoverable table)
    (calls : Nat) :
    (boot libc calls s.dev).mbr = table :=
  hTable.stored

/- Only the sector of the boot record matters. -/
theorem Recoverable.keep
    (hTable : s.Recoverable table)
    (hMbr : after.mbr = s.mbr)
    (hSector : after.dev (0, 0) = s.dev (0, 0)) :
    after.Recoverable table where
  mbr_eq := hMbr.trans hTable.mbr_eq
  stored := by
    rw [hSector]
    exact hTable.stored

section Operations

variable (hTable : s.Recoverable table)
variable (hLaid : s.mbr.LaidOut)

include hTable hLaid

theorem Recoverable.writeBloc
    {vol nbloc : UInt32}
    (hBlock : s.mbr.HasBlock vol nbloc)
    (buffer : Sector) :
    ∃ after,
      BlockOp.step libc s (.writeBloc vol nbloc buffer) =
        some after ∧
      after.Recoverable table := by
  rcases hBlock.cytToSect hLaid.count_le with
    ⟨_, _, hAddr⟩
  have hNe := hLaid.addr_ne_mbr hBlock hAddr
  simp only [BlockOp.step, Mbr.writeBloc_eq hAddr,
    Option.bind_eq_bind, Option.bind_some]
  refine ⟨_, rfl, hTable.keep rfl ?_⟩
  exact Function.update_of_ne hNe.symm _ _

theorem Recoverable.readBloc
    {vol nbloc : UInt32}
    (hBlock : s.mbr.HasBlock vol nbloc) :
    ∃ after,
      BlockOp.step libc s (.readBloc vol nbloc) =
        some after ∧
      after.Recoverable table := by
  rcases hBlock.cytToSect hLaid.count_le with
    ⟨_, _, hAddr⟩
  simp only [BlockOp.step, Mbr.readBloc_eq hAddr,
    Option.bind_eq_bind, Option.bind_some]
  exact ⟨_, rfl, hTable.keep rfl rfl⟩

theorem Recoverable.formatVol
    {vol : UInt32}
    (hVol : vol.toNat < s.mbr.nbVolume.toNat)
    (value : UInt32) :
    ∃ after,
      BlockOp.step libc s (.formatVol vol value) =
        some after ∧
      after.Recoverable table := by
  rcases Mbr.volume?_existing hLaid.count_le hVol with
    ⟨hLength, hSlot⟩
  have hWithin := hLaid.within _ (List.getElem_mem hLength)
  have hInside :=
    Mbr.formatted_subset_sectors hVol hSlot hWithin.placed
      hWithin.size_nonneg hWithin.fin_le
  rcases Mbr.formatVol_spec hSlot value s.dev with
    ⟨dev, hFormat, hDev⟩
  simp only [BlockOp.step, hFormat, Option.bind_eq_bind,
    Option.bind_some]
  refine ⟨_, rfl, hTable.keep rfl ?_⟩
  exact (hDev (0, 0)).trans (if_neg fun hMem =>
    hLaid.spares_mbr vol hVol (hInside _ hMem))

/- A load writes at most the blocks of the volume. -/
theorem Recoverable.loadSuper
    {vol : Int32}
    (hLoadable : s.mbr.Loadable vol) :
    (∀ after,
      BlockOp.step libc s (.loadSuper vol) = some after →
      after.Recoverable table) ∧
    (BlockOp.HasRoom libc s (.loadSuper vol) →
      ∃ after,
        BlockOp.step libc s (.loadSuper vol) =
          some after) := by
  rcases hLoadable with ⟨hExists, hNode⟩
  rcases hLaid.exists_volume hExists with
    ⟨v, hSlot, hWithin⟩
  have hSize := hNode v hSlot
  by_cases hMagic : CarriesMagic s.dev v
  · have hLoad :=
      loadVol_trusts libc hSlot hWithin.placed hMagic
    refine ⟨fun after hAfter => ?_, fun _ => ⟨_, hLoad⟩⟩
    cases hLoad.symm.trans hAfter
    exact hTable.keep rfl rfl
  · have hBlocks :
        max v.nbBlocs.toInt 2 = v.nbBlocs.toInt.toNat := by
      omega
    rcases loadVol_initialises libc hSlot hWithin.placed
        hMagic hBlocks with ⟨hPost, hDefined⟩
    constructor
    · intro after hAfter
      have hFresh := hPost after hAfter
      refine hTable.keep hFresh.mbr_eq
        (hFresh.dev_eq (0, 0) fun b hb => ?_)
      exact hLaid.locate_ne_mbr hExists hSlot (by omega)
    · intro hRoom
      have hMemory := hRoom v hSlot
      exact hDefined (by omega)

theorem Recoverable.saveSuper
    (hLoadable : s.mbr.Loadable s.currentVol)
    {sb : Superbloc}
    (hSb : s.currentSuperbloc = some sb) :
    ∃ after,
      BlockOp.step libc s .saveSuper = some after ∧
      after.Recoverable table := by
  rcases hLoadable with ⟨hExists, hNode⟩
  rcases hLaid.exists_volume hExists with
    ⟨v, hSlot, hWithin⟩
  have hSize := hNode v hSlot
  have hZero : (0 : UInt32).toNat = 0 := rfl
  have hNe : v.firstSector ≠ (0, 0) := by
    have hFirst :=
      hLaid.locate_ne_mbr hExists hSlot (b := 0) (by omega)
    rw [Volume.locate_zero hWithin.placed] at hFirst
    exact hFirst
  rcases saveSuper_eq libc hSb hSlot hWithin.placed with
    ⟨image, _, hSave⟩
  refine ⟨_, hSave, hTable.keep rfl ?_⟩
  exact Function.update_of_ne hNe.symm _ _

/- One valid call keeps the table recoverable. -/
theorem Recoverable.step
    {op : BlockOp}
    (hValid : op.Valid s) :
    (∀ after, op.step libc s = some after →
      after.Recoverable table) ∧
    (op.HasRoom libc s →
      ∃ after, op.step libc s = some after) := by
  have hTotal :
      (∃ after, op.step libc s = some after ∧
        after.Recoverable table) →
      (∀ after, op.step libc s = some after →
        after.Recoverable table) ∧
      (op.HasRoom libc s →
        ∃ after, op.step libc s = some after) := by
    rintro ⟨after, hStep, hAfter⟩
    refine ⟨fun after' hStep' => ?_,
      fun _ => ⟨after, hStep⟩⟩
    cases hStep.symm.trans hStep'
    exact hAfter
  cases op with
  | writeBloc vol nbloc buffer =>
      exact hTotal (hTable.writeBloc hLaid hValid buffer)
  | readBloc vol nbloc =>
      exact hTotal (hTable.readBloc hLaid hValid)
  | formatVol vol value =>
      exact hTotal (hTable.formatVol hLaid hValid value)
  | loadSuper vol => exact hTable.loadSuper hLaid hValid
  | saveSuper =>
      rcases hValid with ⟨hLoadable, hSome⟩
      rcases Option.isSome_iff_exists.mp hSome with
        ⟨sb, hSb⟩
      exact hTotal (hTable.saveSuper hLaid hLoadable hSb)

end Operations

/-
  A saved table is durable: after any run of valid calls a new
  process works with the table again, field by field.  With
  memory for the lists that the loads build, the run is
  defined.
-/
theorem table_survives_in_every_run
    (libc : Libc)
    {s : Session Disk}
    (hLaid : s.mbr.LaidOut)
    (ops : List BlockOp)
    (hValid :
      Always (BlockOp.step libc) (s.save libc) ops
        fun t op => op.Valid t) :
    (∀ t,
      run (BlockOp.step libc) (s.save libc) ops = some t →
        ∀ calls, (boot libc calls t.dev).mbr = s.mbr) ∧
    (Always (BlockOp.step libc) (s.save libc) ops
        (fun t op => op.HasRoom libc t) →
      ∃ t,
        run (BlockOp.step libc) (s.save libc) ops =
          some t) := by
  have hLaidOut :
      ∀ t : Session Disk, t.Recoverable s.mbr →
        t.mbr.LaidOut := by
    intro t hTable
    rw [hTable.mbr_eq]
    exact hLaid
  constructor
  · intro t hRun calls
    have hTable : t.Recoverable s.mbr := by
      refine reached_invariant (Recoverable s.mbr)
        (recoverable_save s) ?_ (reached_of_run hRun)
      intro u op u' hPerforms hTable hStep
      exact (hTable.step (hLaidOut u hTable)
        (hValid u op hPerforms)).1 u' hStep
    exact hTable.boot calls
  · intro hRoom
    have hDefined :
        ∃ t,
          run (BlockOp.step libc) (s.save libc) ops =
              some t ∧
            t.Recoverable s.mbr := by
      refine run_defined (Recoverable s.mbr)
        (recoverable_save s) ?_
      intro u op hPerforms hTable
      rcases hTable.step (hLaidOut u hTable)
          (hValid u op hPerforms) with ⟨hKept, hDefined⟩
      rcases hDefined (hRoom u op hPerforms) with
        ⟨after, hAfter⟩
      exact ⟨after, hAfter, hKept after hAfter⟩
    rcases hDefined with ⟨t, hRun, _⟩
    exact ⟨t, hRun⟩

/- The first of two volumes is loaded, then saved. -/
def sampleOps : List BlockOp :=
  [.loadSuper 0, .writeBloc 1 4 (Sector.filled 7),
    .readBloc 1 0, .formatVol 1 9, .saveSuper]

theorem table_survives_in_sample :
    ∃ t,
      run (BlockOp.step sampleLibc)
          ((blankSession Mbr.twoVolumes).save sampleLibc)
          sampleOps = some t ∧
        (boot sampleLibc 0 t.dev).mbr = Mbr.twoVolumes := by
  rcases table_survives_in_every_run sampleLibc
      (s := blankSession Mbr.twoVolumes)
      Mbr.diskPacked_twoVolumes.laidOut
      sampleOps (by decide) with ⟨hTables, hDefined⟩
  rcases hDefined (by decide) with ⟨t, hRun⟩
  exact ⟨t, hRun, hTables t hRun 0⟩

end Session

end AsaKernel
