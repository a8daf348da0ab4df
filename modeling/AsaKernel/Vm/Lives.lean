import AsaKernel.Vm.ShelfSteps

/-
  All the lives of the volume manager on one disk.

  The program mbr (mbr.c) puts an empty table on the disk, and
  then one process of vm follows the other.  A process may end
  at any time and without a save, so the table that it worked
  with may be lost; the one that the next process finds is a
  table of disjoint volumes all the same.

  Main declarations:
    * `mbrMain`
    * `Event.Prudent`
    * `Session.TablesPacked`, `Session.TablesPacked.step`
    * `Session.tables_packed_in_every_life`
-/

------------------------------------------------------------
-- The First Table
------------------------------------------------------------

namespace AsaKernel

open Transition

/-
  main of mbr.c.  The entries of the table are not assigned:
  they are what the memory held.
-/
def mbrMain
    {δ : Type} [Drive δ]
    (libc : Libc)
    (calls : Nat)
    (dev : δ) : δ :=
  let mbr := Mbr.layout.decode (libc.garbage calls).toList
  saveMbr (libc.garbage (calls + 1))
    { mbr with nbVolume := 0 } dev

/- The table that is saved has no volume. -/
theorem loadMbr_mbrMain
    (libc : Libc)
    (calls : Nat)
    (disk : Disk) :
    (loadMbr (mbrMain libc calls disk)).1.nbVolume = 0 := by
  unfold mbrMain
  rw [loadMbr_saveMbr]

------------------------------------------------------------
-- Prudent Answers
------------------------------------------------------------

/- Careful answers, but the process may end at any time. -/
def Event.Prudent
    (s : Session Disk) : Event → Prop
| .restart .exit => True
| e => e.Careful s

instance (s : Session Disk) (e : Event) :
    Decidable (e.Prudent s) :=
  match e with
  | .restart .exit => isTrue trivial
  | .restart .quit =>
      inferInstanceAs
        (Decidable ((Event.restart .quit).Careful s))
  | .command cmd =>
      inferInstanceAs
        (Decidable ((Event.command cmd).Careful s))

namespace Session

variable {libc : Libc} {s t : Session Disk}

/-
  Only `save` writes the boot record, and what it writes is
  the table of the session.
-/
theorem exec_record
    (hHealthy : s.Healthy)
    {cmd : Command}
    (hCareful : (Event.command cmd).Careful s)
    (hExec : cmd.exec libc s = some t) :
    t.dev (0, 0) = s.dev (0, 0) ∨
      (loadMbr t.dev).1 = t.mbr := by
  have hDisk := hHealthy.disk
  cases cmd with
  | save =>
      cases hExec
      exact Or.inr (loadMbr_saveMbr _ s.mbr s.dev)
  | list =>
      rw [Command.exec_list hExec]
      exact Or.inl rfl
  | listVol =>
      rw [Command.exec_listVol hExec]
      exact Or.inl rfl
  | read vol bloc =>
      rcases shelf_block? hCareful with
        ⟨content, hRead, _⟩
      simp only [Command.exec, hRead, Option.bind_eq_bind,
        Option.bind_some, Option.some.injEq] at hExec
      rw [← hExec]
      exact Or.inl rfl
  | write vol bloc word =>
      rcases hCareful.1 with ⟨hExists, v, hSlot, hLow, hHigh⟩
      rcases Option.bind_eq_some_iff.mp hExec with
        ⟨buffer, _, hRest⟩
      rcases Option.bind_eq_some_iff.mp hRest with
        ⟨dev, hWrite, hAfter⟩
      rcases hDisk.writeBloc_contents s.dev hExists hSlot
          hLow hHigh buffer with
        ⟨dev', hWrite', hRecord, _⟩
      cases hWrite'.symm.trans hWrite
      cases hAfter
      exact Or.inl hRecord
  | format vol value =>
      rcases hDisk.exists_volume hCareful with
        ⟨v, hSlot, _⟩
      rcases Option.bind_eq_some_iff.mp hExec with
        ⟨dev, hFormat, hAfter⟩
      rcases hDisk.formatVol_contents s.dev hCareful hSlot
          value.toUInt32 with
        ⟨dev', hFormat', hRecord, _⟩
      cases hFormat'.symm.trans hFormat
      cases hAfter
      exact Or.inl hRecord
  | loadVol choice =>
      rcases hDisk.exists_volume hCareful.1 with
        ⟨v, hSlot, hMem⟩
      have hPlaced := hDisk.packed.placed v hMem
      by_cases hMagic : CarriesMagic s.dev v
      · cases (loadVol_trusts libc hSlot hPlaced
          hMagic).symm.trans hExec
        exact Or.inl rfl
      · have hSize :=
          (hCareful.2 v hSlot).resolve_left hMagic
        have hBlocks :
            max v.nbBlocs.toInt 2 =
              v.nbBlocs.toInt.toNat := by
          omega
        have hFresh :=
          (loadVol_initialises libc hSlot hPlaced hMagic
            hBlocks).1 t hExec
        left
        apply hFresh.dev_eq
        intro b hb hEq
        apply hDisk.mbr_notMem_regions v.region
          (List.mem_of_getElem?
            (hCareful.1.getElem?_regions hSlot))
        exact Volume.mem_region.mpr ⟨b, by omega, hEq⟩
  | saveVol =>
      rcases saveSuper_puts libc hHealthy hCareful.1
          hCareful.2 with
        ⟨_, after, hSave, _, _, _, _, hRecord⟩
      cases hSave.symm.trans hExec
      exact Or.inl hRecord
  | newVol =>
      rcases Command.exec_newVol hExec with ⟨res, hCall⟩
      rcases newBloc_cases hCall with
        rfl | ⟨sb, node, _, _, _, _, rfl⟩
      · exact Or.inl rfl
      · exact Or.inl rfl
  | delVol choice =>
      rcases Command.exec_delVol hExec with ⟨res, hCall⟩
      rcases freeBloc_cases hCall with
        rfl | ⟨sb, _, _, _, _, _, _, _, _, _, _, rfl⟩
      · exact Or.inl rfl
      · exact Or.inl rfl
  | new nbloc =>
      rcases Command.exec_new hExec with ⟨mbr, _, rfl⟩
      exact Or.inl rfl
  | del vol =>
      rcases Command.exec_del hExec with ⟨mbr, _, rfl⟩
      exact Or.inl rfl

------------------------------------------------------------
-- Both Tables
------------------------------------------------------------

/-
  The table of the session lies on the disk, and so does the
  one that the next process would find.
-/
structure TablesPacked
    (s : Session Disk) : Prop where
  healthy : s.Healthy
  saved : (loadMbr s.dev).1.DiskPacked

theorem TablesPacked.boot
    (hTables : s.TablesPacked)
    (calls : Nat) :
    (boot libc calls s.dev).TablesPacked where
  healthy := ⟨hTables.saved, fun _ hSb => by cases hSb⟩
  saved := hTables.saved

theorem TablesPacked.exec
    (hTables : s.TablesPacked)
    {cmd : Command}
    (hCareful : (Event.command cmd).Careful s)
    (hExec : cmd.exec libc s = some t) :
    t.TablesPacked := by
  have hHealthy :=
    hTables.healthy.exec (careful_valid hCareful) hExec
  refine ⟨hHealthy, ?_⟩
  rcases exec_record hTables.healthy hCareful hExec with
    hKept | hSaved
  · have hTable := hTables.saved
    simp only [loadMbr, Disk.readSector_eq] at hTable ⊢
    rw [hKept]
    exact hTable
  · rw [hSaved]
    exact hHealthy.disk

/- One prudent event keeps both tables packed. -/
theorem TablesPacked.step
    (hTables : s.TablesPacked)
    {e : Event}
    (hPrudent : e.Prudent s)
    (hStep : e.step libc s = some t) :
    t.TablesPacked := by
  cases e with
  | command cmd => exact hTables.exec hPrudent hStep
  | restart ending =>
      cases ending with
      | exit =>
          cases hStep
          exact hTables.boot _
      | quit =>
          rcases Option.bind_eq_some_iff.mp hStep with
            ⟨last, hQuit, hBoot⟩
          cases hBoot
          apply TablesPacked.boot
          have hSaving :
              Command.exec libc s .save =
                some (s.save libc) := rfl
          have hClosing :
              Command.exec libc (s.save libc) .saveVol =
                some last := hQuit
          have hFirst : (Event.command .save).Careful s :=
            trivial
          have hSecond :
              (Event.command .saveVol).Careful
                (s.save libc) := hPrudent
          have hSaved := hTables.exec hFirst hSaving
          exact hSaved.exec hSecond hClosing

------------------------------------------------------------
-- Every Life
------------------------------------------------------------

/-
  From the disk that mbr leaves, through any number of
  processes that end at any time: in every state the blocks of
  the volumes of the table are different sectors and none is
  the boot record, and the same holds of the table on the
  disk.
-/
theorem tables_packed_in_every_life
    (libc : Libc)
    (calls : Nat)
    (disk : Disk)
    (events : List Event)
    (hPrudent :
      Always (Event.step libc)
        (boot libc (calls + 2) (mbrMain libc calls disk))
        events fun s e => e.Prudent s) :
    Throughout (Event.step libc)
      (boot libc (calls + 2) (mbrMain libc calls disk))
      events fun s =>
        ∀ table, table = s.mbr ∨ table = (loadMbr s.dev).1 →
          table.nbVolume.toNat ≤ 8 ∧
          Regions.Apart table.regions ∧
          ∀ region ∈ table.regions, (0, 0) ∉ region := by
  intro s hReached
  have hStart :
      (boot libc (calls + 2)
        (mbrMain libc calls disk)).TablesPacked := by
    have hTable :
        (loadMbr (mbrMain libc calls disk)).1.DiskPacked :=
      Mbr.diskPacked_of_empty
        (loadMbr_mbrMain libc calls disk)
    exact ⟨⟨hTable, fun _ hSb => by cases hSb⟩, hTable⟩
  have hTables : s.TablesPacked := by
    refine reached_invariant TablesPacked hStart ?_ hReached
    intro u e u' hPerforms hu hNext
    exact hu.step (hPrudent u e hPerforms) hNext
  rintro table (rfl | rfl)
  · have hDisk := hTables.healthy.disk
    exact ⟨hDisk.packed.count_le, hDisk.apart,
      hDisk.mbr_notMem_regions⟩
  · have hDisk := hTables.saved
    exact ⟨hDisk.packed.count_le, hDisk.apart,
      hDisk.mbr_notMem_regions⟩

/- The second volume is lost, and another one takes its place. -/
def lostVolume : List Event :=
  [.command (.new 3), .command .save, .command (.new 5),
    .command (.write 1 4 [72, 105]), .restart .exit,
    .command (.new 20), .command (.loadVol 1)]

/- A disk of other contents. -/
def usedDisk : Disk :=
  fun _ => Sector.filled 9

theorem tables_packed_in_sample :
    ∃ s,
      run (Event.step sampleLibc)
          (boot sampleLibc 2
            (mbrMain sampleLibc 0 usedDisk))
          lostVolume = some s ∧
        Regions.Apart s.mbr.regions ∧
        Regions.Apart (loadMbr s.dev).1.regions := by
  have hTables :=
    tables_packed_in_every_life sampleLibc 0 usedDisk
      lostVolume (by decide)
  have hDefined :
      (run (Event.step sampleLibc)
        (boot sampleLibc 2
          (mbrMain sampleLibc 0 usedDisk))
        lostVolume).isSome := by
    decide
  rcases Option.isSome_iff_exists.mp hDefined with
    ⟨s, hRun⟩
  have hBoth := hTables s (reached_of_run hRun)
  exact
    ⟨s, hRun, (hBoth s.mbr (Or.inl rfl)).2.1,
      (hBoth _ (Or.inr rfl)).2.1⟩

end Session

end AsaKernel
