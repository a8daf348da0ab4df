import AsaKernel.Vm.Loading
import AsaKernel.Superbloc.Conservation

/-
  The free list between a save and a later load.

  A save stores the address of the first node, not the nodes.
  The list survives as long as the superblock stays on the
  disk and its nodes stay in the heap; the events that keep
  both are singled out, and every run of them keeps the list.

  Main declarations:
    * `Session.Healthy`
    * `Event.Spares`
    * `Session.Keeps`
    * `Session.list_survives_in_every_run`
-/

------------------------------------------------------------
-- Before the Save
------------------------------------------------------------

namespace AsaKernel

open Transition

namespace Session

/-
  The table lies on the disk, and a loaded superblock has the
  magic number.
-/
structure Healthy
    (s : Session Disk) : Prop where
  disk : s.mbr.DiskPacked
  magic :
    ∀ sb, s.currentSuperbloc = some sb →
      sb.magic = magicNumber

variable {libc : Libc} {s t : Session Disk}

theorem Healthy.sameVolume
    (hHealthy : s.Healthy)
    (hSame : s.SameVolume t) :
    t.Healthy := by
  constructor
  · rw [hSame.mbr_eq]
    exact hHealthy.disk
  · intro sb hSb
    have hMagic := hSame.magic_eq
    rw [hSb] at hMagic
    rcases Option.map_eq_some_iff.mp hMagic.symm with
      ⟨sb', hSb', hEq⟩
    rw [← hEq]
    exact hHealthy.magic sb' hSb'

/- One command with valid answers keeps a session healthy. -/
theorem Healthy.exec
    (hHealthy : s.Healthy)
    {cmd : Command}
    (hValid : cmd.Valid s.mbr)
    (hExec : cmd.exec libc s = some t) :
    t.Healthy := by
  cases cmd with
  | loadVol choice =>
      rcases loadVol_frame hExec with
        ⟨sb, heap, dev, hMagic, rfl⟩
      refine ⟨hHealthy.disk, ?_⟩
      rintro sb' hSb'
      cases hSb'
      exact hMagic
  | saveVol =>
      rcases saveSuper_frame hExec with ⟨heap, dev, rfl⟩
      exact ⟨hHealthy.disk, fun _ hSb => by cases hSb⟩
  | new nbloc =>
      rcases Command.exec_new hExec with ⟨mbr, hNew, rfl⟩
      have hNext :
          ∃ mbr', TableCmd.step s.mbr (.new nbloc) =
            some mbr' ∧ mbr'.DiskPacked :=
        hHealthy.disk.step trivial hValid
      rcases hNext with ⟨mbr', hNew', hDisk⟩
      cases hNew'.symm.trans hNew
      exact ⟨hDisk, hHealthy.magic⟩
  | del vol =>
      rcases Command.exec_del hExec with ⟨mbr, hDel, rfl⟩
      have hNext :
          ∃ mbr', TableCmd.step s.mbr (.del vol) =
            some mbr' ∧ mbr'.DiskPacked :=
        hHealthy.disk.step hValid trivial
      rcases hNext with ⟨mbr', hDel', hDisk⟩
      cases hDel'.symm.trans hDel
      exact ⟨hDisk, hHealthy.magic⟩
  | list | read _ _ | write _ _ _ | format _ _ | listVol
  | newVol | delVol _ | save =>
      refine hHealthy.sameVolume
        (Command.exec_sameVolume ?_ hExec)
      exact not_false

end Session

------------------------------------------------------------
-- After the Save
------------------------------------------------------------

/-
  What may happen between a save of a volume, whose list then
  had the given nodes, and the next load of it:

    * a load of an existing volume, except one that
      initialises a volume of one block right before it;
    * a `new_vol` that does not take one of the nodes;
    * a save of another volume;
    * a new process, when the list was empty and the table is
      on the disk.
-/
def Event.Spares
    (vol : Int32)
    (nodes : List (UInt64 × ListBloc))
    (s : Session Disk) : Event → Prop
| .command (.loadVol choice) =>
    s.mbr.Exists choice ∧
      ∀ w ∈ s.mbr.volume? choice.toInt,
      ∀ v ∈ s.mbr.volume? vol.toInt,
        CarriesMagic s.dev w ∨ 2 ≤ w.nbBlocs.toInt ∨
          w.fin ≠ v.start
| .command .newVol =>
    ∀ sb ∈ s.currentSuperbloc,
      sb.first ∉ nodes.map Prod.fst
| .command .saveVol => s.currentVol ≠ vol
| .command .list | .command .listVol
| .command (.read _ _) | .command (.delVol _)
| .command .save => True
| .command (.write _ _ _) | .command (.format _ _)
| .command (.new _) | .command (.del _) => False
| .restart .exit =>
    nodes = [] ∧ (loadMbr s.dev).1 = s.mbr
| .restart .quit => nodes = [] ∧ s.currentVol ≠ vol

instance
    (vol : Int32)
    (nodes : List (UInt64 × ListBloc))
    (s : Session Disk)
    (e : Event) :
    Decidable (e.Spares vol nodes s) :=
  match e with
  | .command (.loadVol _) =>
      inferInstanceAs (Decidable (_ ∧ ∀ w ∈ _, ∀ v ∈ _, _))
  | .command .newVol =>
      inferInstanceAs (Decidable (∀ sb ∈ _, _))
  | .command .saveVol => inferInstanceAs (Decidable (_ ≠ _))
  | .command .list | .command .listVol
  | .command (.read _ _) | .command (.delVol _)
  | .command .save => isTrue trivial
  | .command (.write _ _ _) | .command (.format _ _)
  | .command (.new _) | .command (.del _) =>
      isFalse not_false
  | .restart .exit => inferInstanceAs (Decidable (_ ∧ _))
  | .restart .quit => inferInstanceAs (Decidable (_ ∧ _))

namespace Session

/-
  The volume still has the saved superblock on the disk and
  the saved list in the heap, and what is loaded is loaded
  from an existing volume.
-/
structure Keeps
    (s : Session Disk)
    (mbr : Mbr)
    (v : Volume)
    (sb : Superbloc)
    (nodes : List (UInt64 × ListBloc)) : Prop where
  mbr_eq : s.mbr = mbr
  current :
    s.currentSuperbloc ≠ none → mbr.Exists s.currentVol
  stored : storedSuperbloc s.dev v = sb
  chain : Chain ListBloc.next s.heap sb.first nodes

section Keeps

variable {libc : Libc} {s t : Session Disk}
variable {mbr : Mbr} {vol : Int32} {v : Volume}
variable {sb : Superbloc}
variable {nodes : List (UInt64 × ListBloc)}
variable (hDisk : mbr.DiskPacked) (hExists : mbr.Exists vol)
variable (hSlot : mbr.volume? vol.toInt = some v)
variable (hKeeps : s.Keeps mbr v sb nodes)

include hKeeps

/- Another superblock, with the drive and the heap kept. -/
theorem Keeps.relist
    {sb' : Superbloc}
    (hSb : s.currentSuperbloc = some sb')
    (first : UInt64)
    {heap : Heap ListBloc}
    (hHeap :
      ∀ q ∈ nodes.map Prod.fst,
        heap.load q = s.heap.load q) :
    (s.relist sb' first heap).Keeps mbr v sb nodes where
  mbr_eq := hKeeps.mbr_eq
  current _ := hKeeps.current (by simp [hSb])
  stored := hKeeps.stored
  chain := hKeeps.chain.frame hHeap

theorem Keeps.newVol
    (hSpared :
      ∀ sb ∈ s.currentSuperbloc,
        sb.first ∉ nodes.map Prod.fst)
    {res : UInt32}
    (hCall : s.newBloc = some (res, t)) :
    t.Keeps mbr v sb nodes := by
  rcases newBloc_cases hCall with
    rfl | ⟨sb', node, hSb, _, _, _, rfl⟩
  · exact hKeeps
  · apply hKeeps.relist hSb
    intro q hMem
    apply Heap.load_release_ne
    rintro rfl
    exact hSpared sb' hSb hMem

theorem Keeps.delVol
    {bloc : UInt32}
    {res : Int32}
    (hCall : s.freeBloc libc bloc = some (res, t)) :
    t.Keeps mbr v sb nodes := by
  rcases freeBloc_cases hCall with
    rfl | ⟨sb', _, p, heap, hSb, _, _, _, hFree, _,
      hOthers, rfl⟩
  · exact hKeeps
  · apply hKeeps.relist hSb
    intro q hMem
    exact hOthers q (hKeeps.chain.ne_of_mem hFree hMem)

include hDisk hExists hSlot

/- The volume table is written to a sector of its own. -/
theorem Keeps.save :
    (s.save libc).Keeps mbr v sb nodes where
  mbr_eq := hKeeps.mbr_eq
  current := hKeeps.current
  stored := by
    rw [← hKeeps.stored]
    simp only [storedSuperbloc, Session.save, saveMbr,
      Disk.writeSector_eq]
    rw [Function.update_of_ne
      (hDisk.firstSector_ne_mbr hExists hSlot)]
  chain := hKeeps.chain.frame fun _ _ => rfl

omit hExists hSlot

/- A save replaces the first sector of the loaded volume. -/
theorem Keeps.saveSuper_eq
    (hSave : s.saveSuper libc = some t) :
    ∃ w image,
      mbr.Exists s.currentVol ∧
      mbr.volume? s.currentVol.toInt = some w ∧
      t =
        { s with
          currentSuperbloc := none
          heap := s.heap.scratch
          dev :=
            Function.update s.dev w.firstSector image } := by
  cases hSb : s.currentSuperbloc with
  | none =>
      rw [saveSuper_none libc hSb] at hSave
      cases hSave
  | some sb' =>
      have hCurrent := hKeeps.current (by simp [hSb])
      rcases hDisk.exists_volume hCurrent with
        ⟨w, hSlot, hMem⟩
      have hSlot' := hSlot
      rw [← hKeeps.mbr_eq] at hSlot'
      rcases Session.saveSuper_eq libc hSb hSlot'
        (hDisk.packed.placed w hMem) with
        ⟨image, _, hSave'⟩
      cases hSave'.symm.trans hSave
      exact ⟨w, image, hCurrent, hSlot, rfl⟩

include hExists hSlot

/- Another volume is saved to a sector of that volume. -/
theorem Keeps.saveVol
    (hOther : s.currentVol ≠ vol)
    (hSave : s.saveSuper libc = some t) :
    t.Keeps mbr v sb nodes := by
  rcases hKeeps.saveSuper_eq hDisk hSave with
    ⟨w, image, hCurrent, hSlot', rfl⟩
  have hApart : w.firstSector ≠ v.firstSector :=
    hDisk.ne_firstSector hExists hSlot hCurrent hOther
      (hDisk.firstSector_mem_sectors hCurrent hSlot')
  refine ⟨hKeeps.mbr_eq, fun hNone => absurd rfl hNone,
    ?_, hKeeps.chain.frame fun _ _ => rfl⟩
  rw [← hKeeps.stored]
  simp only [storedSuperbloc]
  rw [Function.update_of_ne hApart.symm]

/- A load trusts a volume or initialises another one. -/
theorem Keeps.loadVol
    (hMagic : sb.magic = magicNumber)
    {choice : Int32}
    (hSpared :
      (Event.command (.loadVol choice)).Spares vol nodes s)
    (hLoad : s.loadVol libc choice = some t) :
    t.Keeps mbr v sb nodes := by
  rcases hSpared with ⟨hChoice, hApart⟩
  rw [← hKeeps.mbr_eq] at hDisk hExists hSlot
  have hTrust : CarriesMagic s.dev v := by
    rw [CarriesMagic, hKeeps.stored]
    exact hMagic
  rcases loadVol_spares libc hDisk hExists hSlot
      (Or.inl hTrust) hChoice
      (fun w hSlot' => hApart w hSlot' v hSlot) hLoad with
    ⟨hMbr, hStored, hExtends⟩
  rcases loadVol_frame hLoad with ⟨_, _, _, _, hFrame⟩
  refine ⟨hMbr.trans hKeeps.mbr_eq, fun _ => ?_,
    hStored.trans hKeeps.stored,
    hKeeps.chain.mono hExtends⟩
  rw [hFrame, ← hKeeps.mbr_eq]
  exact hChoice

omit hDisk hExists hSlot

/- A new process keeps an empty list, if it finds the table. -/
theorem Keeps.boot
    (hNodes : nodes = [])
    (hTable : (loadMbr s.dev).1 = s.mbr) :
    (boot libc s.heap.calls s.dev).Keeps mbr v sb nodes where
  mbr_eq := hTable.trans hKeeps.mbr_eq
  current hLoaded := absurd rfl hLoaded
  stored := hKeeps.stored
  chain := hKeeps.chain.frame (by simp [hNodes])

include hDisk hExists hSlot

/- `quit` saves the table, then the loaded volume. -/
theorem Keeps.quit
    (hNodes : nodes = [])
    (hOther : s.currentVol ≠ vol)
    (hQuit : s.quit libc = some t) :
    (AsaKernel.boot libc t.heap.calls t.dev).Keeps mbr v sb
      nodes := by
  have hSaved : (s.save libc).Keeps mbr v sb nodes :=
    hKeeps.save hDisk hExists hSlot
  have hLast :=
    hSaved.saveVol hDisk hExists hSlot hOther hQuit
  apply hLast.boot hNodes
  rcases hSaved.saveSuper_eq hDisk hQuit with
    ⟨w, image, hCurrent, hSlot', rfl⟩
  have hApart := hDisk.firstSector_ne_mbr hCurrent hSlot'
  have hSector :
      Function.update (s.save libc).dev w.firstSector image
          (0, 0) =
        (s.save libc).dev (0, 0) :=
    Function.update_of_ne hApart.symm _ _
  have hTable :=
    loadMbr_saveMbr (libc.garbage s.heap.calls) s.mbr s.dev
  simp only [loadMbr, Disk.readSector_eq] at hTable ⊢
  rw [hSector]
  exact hTable

/- One command that spares the list keeps it. -/
theorem Keeps.exec
    (hMagic : sb.magic = magicNumber)
    {cmd : Command}
    (hSpares : (Event.command cmd).Spares vol nodes s)
    (hExec : cmd.exec libc s = some t) :
    t.Keeps mbr v sb nodes := by
  cases cmd with
  | write _ _ _ | format _ _ | new _ | del _ =>
      exact hSpares.elim
  | list =>
      rw [Command.exec_list hExec]
      exact hKeeps
  | read _ _ =>
      simp only [Command.exec, Mbr.readBloc,
        Disk.readSector_eq, Option.bind_eq_bind,
        Option.bind_eq_some_iff, Option.some.injEq] at hExec
      rcases hExec with ⟨_, ⟨cylSect, _, rfl⟩, rfl⟩
      exact hKeeps
  | listVol =>
      rw [Command.exec_listVol hExec]
      exact hKeeps
  | loadVol choice =>
      exact hKeeps.loadVol hDisk hExists hSlot hMagic
        hSpares hExec
  | saveVol =>
      exact hKeeps.saveVol hDisk hExists hSlot hSpares hExec
  | newVol =>
      rcases Command.exec_newVol hExec with ⟨res, hCall⟩
      exact hKeeps.newVol hSpares hCall
  | delVol choice =>
      rcases Command.exec_delVol hExec with ⟨res, hCall⟩
      exact hKeeps.delVol hCall
  | save =>
      cases hExec
      exact hKeeps.save hDisk hExists hSlot

/- So does one event. -/
theorem Keeps.step
    (hMagic : sb.magic = magicNumber)
    {e : Event}
    (hSpares : e.Spares vol nodes s)
    (hStep : e.step libc s = some t) :
    t.Keeps mbr v sb nodes := by
  cases e with
  | command cmd =>
      exact hKeeps.exec hDisk hExists hSlot hMagic hSpares
        hStep
  | restart ending =>
      cases ending with
      | exit =>
          cases hStep
          exact hKeeps.boot hSpares.1 hSpares.2
      | quit =>
          rcases Option.bind_eq_some_iff.mp hStep with
            ⟨last, hQuit, hBoot⟩
          cases hBoot
          exact hKeeps.quit hDisk hExists hSlot hSpares.1
            hSpares.2 hQuit

end Keeps

------------------------------------------------------------
-- Runs
------------------------------------------------------------

/-
  A list that is saved comes back in every run whose events
  spare it: the next load of the volume gives the same
  sequence of block numbers.
-/
theorem list_survives_in_every_run
    (libc : Libc)
    {start : Session Disk}
    (hDisk : start.mbr.DiskPacked)
    (hStart : start.currentSuperbloc = none)
    (before : List Command)
    (hValid :
      Always (Command.exec libc) start before
        fun u cmd => cmd.Valid u.mbr)
    {s : Session Disk}
    (hBefore :
      run (Command.exec libc) start before = some s)
    {vol : Int32}
    (hCurrent : s.currentVol = vol)
    (hExists : s.mbr.Exists vol)
    {nodes : List (UInt64 × ListBloc)}
    (hLists : s.Lists nodes) :
    ∃ saved,
      s.saveSuper libc = some saved ∧
      ∀ after t,
        Always (Event.step libc) saved after
          (fun u e => e.Spares vol nodes u) →
        run (Event.step libc) saved after = some t →
        ∃ reloaded,
          t.loadVol libc vol = some reloaded ∧
          reloaded.freeBlocs = s.freeBlocs := by
  have hHealthy : s.Healthy := by
    refine reached_invariant Healthy
      ⟨hDisk, fun sb hSb => ?_⟩ ?_ (reached_of_run hBefore)
    · rw [hStart] at hSb
      cases hSb
    · intro u cmd _ hPerforms hInv hStep
      exact hInv.exec (hValid u cmd hPerforms) hStep
  subst hCurrent
  rcases hHealthy.disk.exists_volume hExists with
    ⟨v, hSlot, hMem⟩
  have hPlaced := hHealthy.disk.packed.placed v hMem
  rcases hLists with ⟨sb, hSb, hChain⟩
  have hMagic := hHealthy.magic sb hSb
  rcases saveSuper_eq libc hSb hSlot hPlaced with
    ⟨image, hImage, hSave⟩
  refine ⟨_, hSave, fun after t hSpares hRun => ?_⟩
  have hSaved :
      Keeps
        { s with
          currentSuperbloc := none
          heap := s.heap.scratch
          dev := Function.update s.dev v.firstSector image }
        s.mbr v sb nodes := by
    refine ⟨rfl, fun hNone => absurd rfl hNone, ?_,
      hChain.frame fun _ _ => rfl⟩
    simp only [storedSuperbloc, Function.update_self]
    exact hImage
  have hKeeps : t.Keeps s.mbr v sb nodes :=
    reached_invariant
      (fun u : Session Disk => u.Keeps s.mbr v sb nodes)
      hSaved
      (fun u e _ hPerforms hInv hStep =>
        hInv.step hHealthy.disk hExists hSlot hMagic
          (hSpares u e hPerforms) hStep)
      (reached_of_run hRun)
  have hSlot' := hSlot
  rw [← hKeeps.mbr_eq] at hSlot'
  have hTrust : CarriesMagic t.dev v := by
    rw [CarriesMagic, hKeeps.stored]
    exact hMagic
  refine ⟨_, loadVol_trusts libc hSlot' hPlaced hTrust, ?_⟩
  have hReloaded :
      Lists
        { t with
          currentSuperbloc :=
            some (storedSuperbloc t.dev v)
          currentVol := s.currentVol
          heap := t.heap.scratch.scratch } nodes := by
    refine ⟨_, rfl, ?_⟩
    rw [hKeeps.stored]
    exact hKeeps.chain.frame fun _ _ => rfl
  have hSource : s.Lists nodes := ⟨sb, hSb, hChain⟩
  rw [hReloaded.freeBlocs, hSource.freeBlocs]

/- A volume of three blocks, of which the first is taken. -/
def savedAfter : List Command :=
  [.new 3, .loadVol 0, .newVol]

/- The volume is loaded again, and a block given and taken. -/
def sparing : List Event :=
  [.command (.loadVol 0), .command (.delVol 1),
    .command .newVol, .command .save]

theorem list_survives_in_sample :
    ∃ s saved t reloaded,
      run (Command.exec sampleLibc)
        (blankSession Mbr.emptyTable) savedAfter = some s ∧
      s.saveSuper sampleLibc = some saved ∧
      run (Event.step sampleLibc) saved sparing = some t ∧
      t.loadVol sampleLibc 0 = some reloaded ∧
      reloaded.freeBlocs = s.freeBlocs ∧
      s.freeBlocs = some [2] := by
  have hFinal :
      (run (Command.exec sampleLibc)
        (blankSession Mbr.emptyTable) savedAfter).map
        (fun s =>
          (s.currentVol, s.mbr.nbVolume,
            s.currentSuperbloc.bind fun sb =>
              s.heap.walk ListBloc.next (s.heap.size + 1)
                sb.first)) =
        some (0, 1, some [(32, ⟨magicNumber, 2, 0⟩)]) := by
    decide
  have hSparing :
      ∀ s ∈ run (Command.exec sampleLibc)
          (blankSession Mbr.emptyTable) savedAfter,
        ∀ saved ∈ s.saveSuper sampleLibc,
          Always (Event.step sampleLibc) saved sparing
              (fun u e =>
                e.Spares 0 [(32, ⟨magicNumber, 2, 0⟩)] u) ∧
            (run (Event.step sampleLibc) saved
              sparing).isSome := by
    decide
  rcases Option.map_eq_some_iff.mp hFinal with
    ⟨s, hRun, hState⟩
  simp only [Prod.mk.injEq] at hState
  rcases hState with ⟨hCurrent, hCount, hWalk⟩
  rcases Option.bind_eq_some_iff.mp hWalk with
    ⟨sb, hSb, hNodes⟩
  have hLists : s.Lists [(32, ⟨magicNumber, 2, 0⟩)] :=
    ⟨sb, hSb, Chain.of_walk hNodes⟩
  have hExists : s.mbr.Exists 0 := by
    rw [Mbr.Exists, hCount]
    decide
  rcases list_survives_in_every_run sampleLibc
      (Mbr.diskPacked_of_empty rfl) rfl savedAfter
      (by decide) hRun hCurrent hExists hLists with
    ⟨saved, hSave, hSurvives⟩
  rcases hSparing s hRun saved hSave with
    ⟨hSpares, hDefined⟩
  rcases Option.isSome_iff_exists.mp hDefined with
    ⟨t, hAfter⟩
  rcases hSurvives sparing t hSpares hAfter with
    ⟨reloaded, hReload, hSame⟩
  exact ⟨s, saved, t, reloaded, hRun, hSave, hAfter,
    hReload, hSame, hLists.freeBlocs⟩

/- A volume of three blocks, with its table on the disk. -/
def savedFull : List Command :=
  [.new 3, .save, .loadVol 0]

/-
  The list 1, 2 is saved.  In a new process, and after one
  more `new_vol` in the same one, the stored pointer
  designates no live node.
-/
theorem saved_list_is_lost :
    ∃ s saved,
      run (Command.exec sampleLibc)
        (blankSession Mbr.emptyTable) savedFull = some s ∧
      s.currentVol = 0 ∧
      s.freeBlocs = some [1, 2] ∧
      s.saveSuper sampleLibc = some saved ∧
      ∀ after ∈
        [[Event.restart .exit],
          [.command (.loadVol 0), .command .newVol]],
        ∃ t reloaded,
          run (Event.step sampleLibc) saved after = some t ∧
          t.loadVol sampleLibc 0 = some reloaded ∧
          reloaded.freeBlocs = none := by
  have hFinal :
      (run (Command.exec sampleLibc)
        (blankSession Mbr.emptyTable) savedFull).map
        (fun s =>
          (s.currentVol, s.freeBlocs,
            (s.saveSuper sampleLibc).isSome)) =
        some (0, some [1, 2], true) := by
    decide
  have hLost :
      ∀ s ∈ run (Command.exec sampleLibc)
          (blankSession Mbr.emptyTable) savedFull,
        ∀ saved ∈ s.saveSuper sampleLibc,
        ∀ after ∈
          [[Event.restart .exit],
            [.command (.loadVol 0), .command .newVol]],
          ((run (Event.step sampleLibc) saved after).bind
            (Session.loadVol sampleLibc 0)).map
              freeBlocs = some none := by
    decide
  rcases Option.map_eq_some_iff.mp hFinal with
    ⟨s, hRun, hState⟩
  simp only [Prod.mk.injEq] at hState
  rcases hState with ⟨hCurrent, hFree, hSaves⟩
  rcases Option.isSome_iff_exists.mp hSaves with
    ⟨saved, hSave⟩
  refine ⟨s, saved, hRun, hCurrent, hFree, hSave, ?_⟩
  intro after hAfter
  rcases Option.map_eq_some_iff.mp
    (hLost s hRun saved hSave after hAfter) with
    ⟨reloaded, hReload, hNone⟩
  rcases Option.bind_eq_some_iff.mp hReload with
    ⟨t, hRunAfter, hLoad⟩
  exact ⟨t, reloaded, hRunAfter, hLoad, hNone⟩

end Session

end AsaKernel
