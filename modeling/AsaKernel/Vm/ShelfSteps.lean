import AsaKernel.Vm.Confinement
import AsaKernel.Vm.Persistence
import AsaKernel.Vm.Reloading
import AsaKernel.Vm.Saving
import AsaKernel.Vm.Shelf
import AsaKernel.Superbloc.Images
import AsaKernel.Volume.Regions

/-
  One event in the life of the volume manager, seen on a shelf.

  As long as the answers name blocks and volumes that exist,
  an event does to the disk, the table and the loaded
  superblock what `Shelf.Does` says of a list of arrays.

  Main declarations:
    * `Session.shelf`
    * `Event.Careful`, `Event.HasRoom`
    * `Session.step_does`
    * `Session.step_defined`
-/

------------------------------------------------------------
-- Sessions as Shelves
------------------------------------------------------------

namespace AsaKernel

open Transition

/- The blocks of the volumes, and what is loaded. -/
def Session.shelf
    (s : Session Disk) : Shelf where
  volumes := s.mbr.contents s.dev
  buffer := s.buffer
  loaded := s.currentSuperbloc.map fun _ => s.currentVol

namespace Event

/-
  Answers that name a block or a volume that exists, a size
  that fits, a loaded volume to save, and a table that is on
  the disk when the process ends without saving it.
-/
def Careful
    (s : Session Disk) : Event → Prop
| .command (.read vol bloc) => s.mbr.Addresses vol bloc
| .command (.write vol bloc word) =>
    s.mbr.Addresses vol bloc ∧ word.length < hdaSectorSize
| .command (.format vol _) => s.mbr.Exists vol
| .command (.loadVol choice) =>
    s.mbr.Exists choice ∧
      ∀ v ∈ s.mbr.volume? choice.toInt,
        CarriesMagic s.dev v ∨ 2 ≤ v.nbBlocs.toInt
| .command (.new nbloc) =>
    TableCmd.SizeFits s.mbr (.new nbloc)
| .command (.del vol) => s.mbr.Exists vol
| .command .saveVol | .restart .quit =>
    s.currentSuperbloc.isSome ∧ s.mbr.Exists s.currentVol
| .command .list | .command .listVol | .command .newVol
| .command (.delVol _) | .command .save => True
| .restart .exit => (loadMbr s.dev).1 = s.mbr

/-
  Memory for the list that a load may have to build.  The
  commands on a list follow its pointers, which is another
  question than what the blocks hold.
-/
def HasRoom
    (libc : Libc)
    (s : Session Disk) : Event → Prop
| .command (.loadVol choice) =>
    ∀ v ∈ s.mbr.volume? choice.toInt,
      s.heap.size + v.nbBlocs.toInt ≤ libc.nodes.capacity
| .command .listVol | .command .newVol
| .command (.delVol _) => False
| _ => True

instance (mbr : Mbr) (vol bloc : Int32) :
    Decidable (mbr.Addresses vol bloc) :=
  decidable_of_iff
    (mbr.Exists vol ∧
      ∃ v ∈ mbr.volume? vol.toInt,
        0 ≤ bloc.toInt ∧ bloc.toInt < v.nbBlocs.toInt)
    (by simp only [Mbr.Addresses, Option.mem_def])

instance (s : Session Disk) (e : Event) :
    Decidable (e.Careful s) :=
  match e with
  | .command (.read _ _) =>
      inferInstanceAs (Decidable (s.mbr.Addresses _ _))
  | .command (.write _ _ _) =>
      inferInstanceAs (Decidable (_ ∧ _ < _))
  | .command (.format vol _) =>
      inferInstanceAs (Decidable (s.mbr.Exists vol))
  | .command (.loadVol _) =>
      inferInstanceAs (Decidable (_ ∧ ∀ v ∈ _, _ ∨ _))
  | .command (.new nbloc) =>
      inferInstanceAs
        (Decidable (TableCmd.SizeFits s.mbr (.new nbloc)))
  | .command (.del vol) =>
      inferInstanceAs (Decidable (s.mbr.Exists vol))
  | .command .saveVol | .restart .quit =>
      inferInstanceAs (Decidable (_ ∧ s.mbr.Exists _))
  | .command .list | .command .listVol | .command .newVol
  | .command (.delVol _) | .command .save => isTrue trivial
  | .restart .exit => inferInstanceAs (Decidable (_ = _))

end Event

namespace Session

variable {libc : Libc} {s t : Session Disk}

/- Commands that keep what the shelf shows. -/
theorem SameVolume.shelf_eq
    (hSame : s.SameVolume t)
    (hBlocks : t.mbr.contents t.dev = s.mbr.contents s.dev)
    (hBuffer : t.buffer = s.buffer) :
    t.shelf = s.shelf := by
  have hSome := hSame.isSome_eq
  unfold shelf
  rw [hBlocks, hBuffer, hSame.currentVol_eq]
  cases hSuper : s.currentSuperbloc with
  | none =>
      rw [hSuper, Option.isSome_none,
        Option.isSome_eq_false_iff,
        Option.isNone_iff_eq_none] at hSome
      rw [hSome]
  | some sb =>
      rw [hSuper, Option.isSome_some,
        Option.isSome_iff_exists] at hSome
      rcases hSome with ⟨sb', hSuper'⟩
      rw [hSuper']
      rfl

/- Block `bloc` of an existing volume on the shelf. -/
theorem shelf_block?
    {vol bloc : Int32}
    (hAddresses : s.mbr.Addresses vol bloc) :
    ∃ content,
      s.mbr.readBloc vol.toUInt32 bloc.toUInt32 s.dev =
        some (content, s.dev) ∧
      s.shelf.block? vol.toInt.toNat bloc.toInt.toNat =
        some content := by
  rcases hAddresses with
    ⟨hExists, v, hSlot, hLow, hHigh⟩
  exact Mbr.DiskPacked.readBloc_contents _ hExists hSlot hLow
    hHigh

------------------------------------------------------------
-- Commands Without Effect
------------------------------------------------------------

theorem exec_idle
    (hDisk : s.mbr.DiskPacked)
    {cmd : Command}
    (hExec : cmd.exec libc s = some t)
    (hIdle : cmd.Idle) :
    t.shelf = s.shelf := by
  have hSame : s.SameVolume t := by
    refine Command.exec_sameVolume ?_ hExec
    cases cmd with
    | loadVol _ | saveVol | new _ | del _ =>
        exact hIdle.elim
    | list | read _ _ | write _ _ _ | format _ _ | listVol
    | newVol | delVol _ | save => exact not_false
  cases cmd with
  | write _ _ _ | format _ _ | loadVol _ | saveVol | new _
  | del _ => exact hIdle.elim
  | list => rw [Command.exec_list hExec]
  | listVol => rw [Command.exec_listVol hExec]
  | read vol bloc =>
      rcases Option.bind_eq_some_iff.mp hExec with
        ⟨⟨content, dev⟩, hRead, hAfter⟩
      rcases Option.bind_eq_some_iff.mp hRead with
        ⟨p, _, hSector⟩
      cases hSector
      cases hAfter
      rfl
  | newVol =>
      rcases Command.exec_newVol hExec with ⟨res, hCall⟩
      rcases newBloc_cases hCall with
        rfl | ⟨sb, node, _, _, _, _, rfl⟩
      · rfl
      · exact hSame.shelf_eq rfl rfl
  | delVol choice =>
      rcases Command.exec_delVol hExec with ⟨res, hCall⟩
      rcases freeBloc_cases hCall with
        rfl | ⟨sb, _, _, _, _, _, _, _, _, _, _, rfl⟩
      · rfl
      · exact hSame.shelf_eq rfl rfl
  | save =>
      cases hExec
      exact hSame.shelf_eq
        (hDisk.contents_update_mbr s.dev _) rfl

------------------------------------------------------------
-- Commands on Blocks
------------------------------------------------------------

variable (libc)

/- `write` puts the scanned text into its block. -/
theorem write_does
    (hDisk : s.mbr.DiskPacked)
    {vol bloc : Int32}
    {word : List UInt8}
    (hAddresses : s.mbr.Addresses vol bloc)
    (hWord : word.length < hdaSectorSize) :
    ∃ after,
      Command.exec libc s (.write vol bloc word) =
        some after ∧
      Shelf.Does s.shelf (.command (.write vol bloc word))
        after.shelf := by
  rcases hAddresses with
    ⟨hExists, v, hSlot, hLow, hHigh⟩
  generalize hText : s.buffer.memcpy (word ++ [0]) = buffer
  have hScan : scanWord word s.buffer = some buffer := by
    rw [← hText]
    exact if_pos hWord
  rcases hDisk.writeBloc_contents s.dev hExists hSlot hLow
      hHigh buffer with
    ⟨dev, hWrite, _, hBlocks⟩
  have hExec :
      Command.exec libc s (.write vol bloc word) =
        some { s with buffer := buffer, dev := dev } := by
    simp only [Command.exec, hScan, hWrite,
      Option.bind_eq_bind, Option.bind_some]
  refine ⟨_, hExec, ?_⟩
  have hShelf :
      shelf { s with buffer := buffer, dev := dev } =
        { s.shelf.put vol.toInt.toNat bloc.toInt.toNat
            buffer with
          buffer := buffer } := by
    simp only [shelf, Shelf.put, hBlocks]
  rw [hShelf]
  exact .write s.shelf hScan

/- `format` gives every block of its volume the pattern. -/
theorem format_does
    (hDisk : s.mbr.DiskPacked)
    {vol : Int32}
    (hExists : s.mbr.Exists vol)
    (value : Int32) :
    ∃ after,
      Command.exec libc s (.format vol value) =
        some after ∧
      Shelf.Does s.shelf (.command (.format vol value))
        after.shelf := by
  rcases hDisk.exists_volume hExists with ⟨v, hSlot, _⟩
  rcases hDisk.formatVol_contents s.dev hExists hSlot
      value.toUInt32 with
    ⟨dev, hFormat, _, hBlocks⟩
  have hExec :
      Command.exec libc s (.format vol value) =
        some { s with dev := dev } := by
    simp only [Command.exec, hFormat, Option.bind_eq_bind,
      Option.bind_some]
  refine ⟨_, hExec, ?_⟩
  have hShelf :
      shelf { s with dev := dev } =
        s.shelf.fill vol.toInt.toNat
          (Sector.filled value.toUInt32) := by
    simp only [shelf, Shelf.fill, hBlocks]
  rw [hShelf]
  exact .format s.shelf vol value

/- `new` adds a volume, if there is a free entry. -/
theorem new_does
    (hDisk : s.mbr.DiskPacked)
    {nbloc : Int32}
    (hFits : TableCmd.SizeFits s.mbr (.new nbloc)) :
    ∃ after,
      Command.exec libc s (.new nbloc) = some after ∧
      Shelf.Does s.shelf (.command (.new nbloc))
        after.shelf := by
  have hLength :
      s.shelf.volumes.length = s.mbr.nbVolume.toNat := by
    rw [← Mbr.length_entries hDisk.packed.count_le]
    simp [shelf, Mbr.contents, Mbr.regions]
  rcases hDisk.new_contents hFits s.dev with
    ⟨mbr, hNew, _, hBlocks⟩
  have hExec :
      Command.exec libc s (.new nbloc) =
        some { s with mbr := mbr } := by
    simp only [Command.exec, hNew, Option.bind_eq_bind,
      Option.bind_some]
  refine ⟨_, hExec, ?_⟩
  by_cases hFull : s.mbr.nbVolume.toNat = 8
  · rw [if_pos hFull] at hBlocks
    subst hBlocks
    exact .full s.shelf nbloc (hLength.trans hFull)
  · rw [if_neg hFull] at hBlocks
    rcases hBlocks with ⟨blocks, hSize, hBlocks⟩
    have hCount := hDisk.packed.count_le
    have hShelf :
        shelf { s with mbr := mbr } =
          { s.shelf with
            volumes := s.shelf.volumes ++ [blocks] } := by
      simp only [shelf, hBlocks]
    rw [hShelf]
    exact .new s.shelf (by omega) hSize

/- `del` removes a volume. -/
theorem del_does
    (hDisk : s.mbr.DiskPacked)
    {vol : Int32}
    (hExists : s.mbr.Exists vol) :
    ∃ after,
      Command.exec libc s (.del vol) = some after ∧
      Shelf.Does s.shelf (.command (.del vol))
        after.shelf := by
  rcases hDisk.del_contents hExists s.dev with
    ⟨mbr, hDel, _, hBlocks⟩
  have hExec :
      Command.exec libc s (.del vol) =
        some { s with mbr := mbr } := by
    simp only [Command.exec, hDel, Option.bind_eq_bind,
      Option.bind_some]
  refine ⟨_, hExec, ?_⟩
  have hShelf :
      shelf { s with mbr := mbr } =
        { s.shelf with
          volumes :=
            s.shelf.volumes.eraseIdx vol.toInt.toNat } := by
    simp only [shelf, hBlocks]
  rw [hShelf]
  exact .del s.shelf vol

------------------------------------------------------------
-- Superblocks
------------------------------------------------------------

variable {libc}

/- A save puts a superblock into the first block. -/
theorem saveSuper_puts
    (libc : Libc)
    (hHealthy : s.Healthy)
    (hLoaded : s.currentSuperbloc.isSome)
    (hExists : s.mbr.Exists s.currentVol) :
    ∃ image after,
      s.saveSuper libc = some after ∧
      Shelf.IsSuper image ∧
      s.shelf.loaded = some s.currentVol ∧
      after.shelf =
        { s.shelf.put s.currentVol.toInt.toNat 0 image with
          loaded := none } ∧
      after.mbr = s.mbr ∧
      after.dev (0, 0) = s.dev (0, 0) := by
  have hDisk := hHealthy.disk
  rcases Option.isSome_iff_exists.mp hLoaded with
    ⟨sb, hSb⟩
  rcases hDisk.exists_volume hExists with
    ⟨v, hSlot, hMem⟩
  have hPlaced := hDisk.packed.placed v hMem
  rcases saveSuper_eq libc hSb hSlot hPlaced with
    ⟨image, hImage, hSave⟩
  have hBlocks :
      s.mbr.contents
          (Function.update s.dev v.firstSector image) =
        (s.mbr.contents s.dev).modify
          s.currentVol.toInt.toNat
          fun blocks => blocks.set 0 image :=
    Regions.contents_update hDisk.apart
      (hExists.getElem?_regions hSlot)
      (Mbr.head_region hPlaced
        (hDisk.packed.occupied v hMem)) image
  refine ⟨image, _, hSave, ?_, ?_, ?_, rfl, ?_⟩
  · rw [Shelf.IsSuper, hImage]
    exact hHealthy.magic sb hSb
  · simp only [shelf, hSb, Option.map_some]
  · simp only [shelf, Shelf.put, hBlocks, Option.map_none]
  · exact Function.update_of_ne
      (hDisk.firstSector_ne_mbr hExists hSlot).symm _ _

/- The shelf tells whether a volume has a superblock. -/
theorem marked_iff
    (hDisk : s.mbr.DiskPacked)
    {vol : Int32}
    {v : Volume}
    (hExists : s.mbr.Exists vol)
    (hSlot : s.mbr.volume? vol.toInt = some v) :
    s.shelf.Marked vol ↔ CarriesMagic s.dev v := by
  have hMem := hDisk.mem_entries hExists hSlot
  have hHead :=
    Mbr.head_region (hDisk.packed.placed v hMem)
      (hDisk.packed.occupied v hMem)
  have hBlock :
      s.shelf.block? vol.toInt.toNat 0 =
        some (s.dev v.firstSector) := by
    unfold Shelf.block? shelf
    dsimp only
    rw [hExists.getElem?_contents hSlot, Option.bind_some,
      List.getElem?_map, hHead, Option.map_some]
  unfold Shelf.Marked
  rw [hBlock]
  simp only [Option.mem_def, Option.some.injEq,
    exists_eq_left']
  rfl

/- An initialised volume has a node for every block. -/
theorem enlisted_of_init
    (hDisk : s.mbr.DiskPacked)
    {vol : Int32}
    {v : Volume}
    (hExists : s.mbr.Exists vol)
    (hSlot : s.mbr.volume? vol.toInt = some v)
    (hSize : 2 ≤ v.nbBlocs.toInt)
    (hMagic : ¬ CarriesMagic s.dev v)
    (hLoad : s.loadVol libc vol = some t) :
    Shelf.Enlisted (v.region.map t.dev) := by
  have hMem := hDisk.mem_entries hExists hSlot
  have hPlaced := hDisk.packed.placed v hMem
  constructor
  · intro content hHead
    rw [List.getElem?_map,
      Mbr.head_region hPlaced (by omega), Option.map_some,
      Option.some.injEq] at hHead
    rw [← hHead]
    exact (loadVol_carries hDisk hExists hSlot hSize hLoad).2
  · intro k content hk hBlock
    have hLength :=
      (List.getElem?_eq_some_iff.mp hBlock).1
    rw [List.length_map, Volume.length_region] at hLength
    have hIndex := Volume.toNat_ofNat_of_lt hLength
    have hRange := FixedWidth.toInt_range v.nbBlocs
    have hSector :=
      Volume.getElem?_region (v := v) (b := UInt32.ofNat k)
        (by omega)
    rw [hIndex] at hSector
    rw [List.getElem?_map, hSector, Option.map_some,
      Option.some.injEq] at hBlock
    rw [loadVol_eq_init libc hSlot hPlaced hMagic] at hLoad
    rcases Option.bind_eq_some_iff.mp hLoad with
      ⟨init, hInit, hAfter⟩
    cases hAfter
    have hSlot' := hSlot
    rw [← Mbr.volume?_toUInt32] at hSlot'
    have hCount :
        v.nbBlocs.toInt = v.nbBlocs.toInt.toNat := by
      omega
    rcases initVolume_images
        (s :=
          { s with
            currentSuperbloc :=
              some (storedSuperbloc s.dev v)
            heap := s.heap.scratch.scratch })
        hSlot' (hPlaced.liesOnDisk (hDisk.fin_le v hMem))
        hCount (by omega) hInit with
      ⟨nodes, _, _, hBlocs, hMarked, hImaged⟩
    -- The node that names block `k`.
    have hListed : UInt32.ofNat k ∈ blocNumbers nodes := by
      rw [hBlocs, mem_blocsBelow (by omega)]
      omega
    rcases List.mem_map.mp hListed with
      ⟨node, hNode, hPos⟩
    rcases hImaged node hNode with ⟨rest, hRest⟩
    rw [hPos] at hRest
    have hImage :
        ListBloc.layout.decode content.toList = node.2 := by
      rw [← hBlock, ← hRest, Layout.decode_encode]
    rw [hImage]
    refine ⟨hMarked node hNode, ?_⟩
    have hNumber := congrArg UInt32.toInt32 hPos
    rw [Int32.toInt32_toUInt32] at hNumber
    rw [hNumber, FixedWidth.toInt_toInt32_of_lt (by omega),
      hIndex]

/- A load trusts the superblock or enlists every block. -/
theorem loadVol_does
    (hDisk : s.mbr.DiskPacked)
    {choice : Int32}
    (hExists : s.mbr.Exists choice)
    (hOwn :
      ∀ v ∈ s.mbr.volume? choice.toInt,
        CarriesMagic s.dev v ∨ 2 ≤ v.nbBlocs.toInt)
    (hLoad : s.loadVol libc choice = some t) :
    Shelf.Does s.shelf (.command (.loadVol choice))
      t.shelf := by
  rcases hDisk.exists_volume hExists with
    ⟨v, hSlot, hMem⟩
  have hPlaced := hDisk.packed.placed v hMem
  have hMarked := marked_iff hDisk hExists hSlot
  by_cases hMagic : CarriesMagic s.dev v
  · cases (loadVol_trusts libc hSlot hPlaced
      hMagic).symm.trans hLoad
    exact .trust s.shelf (hMarked.mpr hMagic)
  · have hSize := (hOwn v hSlot).resolve_left hMagic
    have hBlocks :
        max v.nbBlocs.toInt 2 = v.nbBlocs.toInt.toNat := by
      omega
    rcases loadVol_initialises libc hSlot hPlaced hMagic
        hBlocks with ⟨hPost, _⟩
    have hFresh := hPost t hLoad
    have hOutside :
        ∀ addr, addr ∉ v.region →
          t.dev addr = s.dev addr := by
      intro addr hAddr
      apply hFresh.dev_eq
      intro b hb hEq
      exact hAddr
        (Volume.mem_region.mpr ⟨b, by omega, hEq⟩)
    have hContents :
        t.mbr.contents t.dev =
          (s.mbr.contents s.dev).set choice.toInt.toNat
            (v.region.map t.dev) := by
      rw [hFresh.mbr_eq]
      exact Regions.contents_inside hDisk.apart
        (hExists.getElem?_regions hSlot) hOutside
    rcases hFresh.list with ⟨sb, _, hSb, _⟩
    have hShelf :
        t.shelf =
          { s.shelf with
            volumes :=
              s.shelf.volumes.set choice.toInt.toNat
                (v.region.map t.dev)
            loaded := some choice } := by
      simp only [shelf, hContents, hFresh.buffer_eq, hSb,
        hFresh.currentVol_eq, Option.map_some]
    rw [hShelf]
    refine .enlist s.shelf
      (hExists.getElem?_contents hSlot s.dev)
      (fun hYes => hMagic (hMarked.mp hYes)) ?_
      (enlisted_of_init hDisk hExists hSlot hSize hMagic
        hLoad)
    rw [List.length_map, List.length_map]

------------------------------------------------------------
-- Processes
------------------------------------------------------------

/- A new process finds the volumes of the saved table. -/
theorem boot_shelf
    (calls : Nat)
    (hTable : (loadMbr s.dev).1 = s.mbr) :
    (boot libc calls s.dev).shelf =
      { s.shelf with
        buffer := libc.garbage calls
        loaded := none } := by
  have hBoot :
      (boot libc calls s.dev).shelf =
        { volumes := (loadMbr s.dev).1.contents s.dev
          buffer := libc.garbage calls
          loaded := none } := rfl
  rw [hBoot, hTable]
  rfl

/- `quit` saves the table, then the loaded volume. -/
theorem quit_does
    (libc : Libc)
    (hHealthy : s.Healthy)
    (hLoaded : s.currentSuperbloc.isSome)
    (hExists : s.mbr.Exists s.currentVol) :
    ∃ after,
      Event.step libc s (.restart .quit) = some after ∧
      after.mbr = s.mbr ∧
      after.currentSuperbloc = none ∧
      Shelf.Does s.shelf (.restart .quit) after.shelf := by
  have hSaving :
      Command.exec libc s .save = some (s.save libc) := rfl
  have hSaved := exec_idle hHealthy.disk hSaving trivial
  have hSame : (s.save libc).Healthy :=
    hHealthy.sameVolume ⟨rfl, rfl, rfl⟩
  rcases saveSuper_puts libc hSame hLoaded hExists with
    ⟨image, last, hSave, hSuper, hVol, hShelf, hMbr,
      hSector⟩
  rw [hSaved] at hVol hShelf
  have hTable : (loadMbr last.dev).1 = last.mbr := by
    have hStored :=
      loadMbr_saveMbr (libc.garbage s.heap.calls) s.mbr
        s.dev
    simp only [loadMbr, Disk.readSector_eq] at hStored ⊢
    rw [hSector, hMbr]
    exact hStored
  have hStep :
      Event.step libc s (.restart .quit) =
        some (boot libc last.heap.calls last.dev) := by
    simp only [Event.step, quit, hSave, Option.bind_eq_bind,
      Option.bind_some]
  refine ⟨_, hStep, hTable.trans hMbr, rfl, ?_⟩
  rw [boot_shelf _ hTable, hShelf]
  exact .quit s.shelf hVol hSuper _

------------------------------------------------------------
-- One Event
------------------------------------------------------------

/- The careful answers are valid ones. -/
theorem careful_valid
    {cmd : Command}
    (hCareful : (Event.command cmd).Careful s) :
    cmd.Valid s.mbr := by
  cases cmd with
  | loadVol choice => exact hCareful.1
  | new nbloc => exact hCareful
  | del vol => exact hCareful
  | list | read _ _ | write _ _ _ | format _ _ | saveVol
  | listVol | newVol | delVol _ | save => trivial

/- A careful event does to the shelf what it should. -/
theorem step_does
    (hHealthy : s.Healthy)
    {e : Event}
    (hCareful : e.Careful s)
    (hStep : e.step libc s = some t) :
    t.Healthy ∧ Shelf.Does s.shelf e t.shelf := by
  have hDisk := hHealthy.disk
  cases e with
  | command cmd =>
      have hExec : cmd.exec libc s = some t := hStep
      refine ⟨hHealthy.exec (careful_valid hCareful) hExec,
        ?_⟩
      cases cmd with
      | list | read _ _ | listVol | newVol | delVol _
      | save =>
          rw [exec_idle hDisk hExec trivial]
          exact .idle s.shelf trivial
      | write vol bloc word =>
          rcases write_does libc hDisk hCareful.1
              hCareful.2 with ⟨after, hAfter, hDoes⟩
          cases hAfter.symm.trans hExec
          exact hDoes
      | format vol value =>
          rcases format_does libc hDisk hCareful
              value with ⟨after, hAfter, hDoes⟩
          cases hAfter.symm.trans hExec
          exact hDoes
      | loadVol choice =>
          exact loadVol_does hDisk hCareful.1 hCareful.2
            hExec
      | saveVol =>
          rcases saveSuper_puts libc hHealthy hCareful.1
              hCareful.2 with
            ⟨image, after, hSave, hSuper, hVol, hShelf, _⟩
          cases hSave.symm.trans hExec
          rw [hShelf]
          exact .saveVol s.shelf hVol hSuper
      | new nbloc =>
          rcases new_does libc hDisk hCareful with
            ⟨after, hAfter, hDoes⟩
          cases hAfter.symm.trans hExec
          exact hDoes
      | del vol =>
          rcases del_does libc hDisk hCareful with
            ⟨after, hAfter, hDoes⟩
          cases hAfter.symm.trans hExec
          exact hDoes
  | restart ending =>
      cases ending with
      | exit =>
          cases hStep
          have hTable : (loadMbr s.dev).1 = s.mbr := hCareful
          refine ⟨⟨?_, fun _ hSb => by cases hSb⟩, ?_⟩
          · change (loadMbr s.dev).1.DiskPacked
            rw [hTable]
            exact hDisk
          · rw [boot_shelf _ hTable]
            exact .exit s.shelf _
      | quit =>
          rcases quit_does libc hHealthy hCareful.1
              hCareful.2 with
            ⟨after, hAfter, hMbr, hNone, hDoes⟩
          cases hAfter.symm.trans hStep
          refine ⟨⟨?_, fun sb hSb => ?_⟩, hDoes⟩
          · rw [hMbr]
            exact hDisk
          · rw [hNone] at hSb
            cases hSb

/-
  Every careful event is defined, apart from those that follow
  the pointers of a list or run out of memory.
-/
theorem step_defined
    (libc : Libc)
    (hHealthy : s.Healthy)
    {e : Event}
    (hCareful : e.Careful s)
    (hRoom : e.HasRoom libc s) :
    ∃ after, e.step libc s = some after := by
  have hDisk := hHealthy.disk
  cases e with
  | command cmd =>
      cases cmd with
      | listVol | newVol | delVol _ => exact hRoom.elim
      | save => exact ⟨_, rfl⟩
      | list =>
          have hCount := hDisk.packed.count_le
          have hValue := s.mbr.count_toInt hCount
          have hEight : s.mbr.count ≤ 8 := by
            rw [Int32.le_iff_toInt_le, hValue]
            exact Int.ofNat_le.mpr hCount
          exact ⟨s, if_pos hEight⟩
      | read vol bloc =>
          rcases shelf_block? hCareful with
            ⟨content, hRead, _⟩
          refine ⟨{ s with dev := s.dev }, ?_⟩
          simp only [Event.step, Command.exec, hRead,
            Option.bind_eq_bind, Option.bind_some]
      | write vol bloc word =>
          rcases write_does libc hDisk hCareful.1
              hCareful.2 with ⟨after, hAfter, _⟩
          exact ⟨after, hAfter⟩
      | format vol value =>
          rcases format_does libc hDisk hCareful
              value with ⟨after, hAfter, _⟩
          exact ⟨after, hAfter⟩
      | loadVol choice =>
          exact loadVol_defined libc hDisk hCareful.1
            hCareful.2 hRoom
      | saveVol =>
          rcases saveSuper_puts libc hHealthy hCareful.1
              hCareful.2 with ⟨_, after, hSave, _⟩
          exact ⟨after, hSave⟩
      | new nbloc =>
          rcases new_does libc hDisk hCareful with
            ⟨after, hAfter, _⟩
          exact ⟨after, hAfter⟩
      | del vol =>
          rcases del_does libc hDisk hCareful with
            ⟨after, hAfter, _⟩
          exact ⟨after, hAfter⟩
  | restart ending =>
      cases ending with
      | exit => exact ⟨_, rfl⟩
      | quit =>
          rcases quit_does libc hHealthy hCareful.1
              hCareful.2 with ⟨after, hAfter, _⟩
          exact ⟨after, hAfter⟩

end Session

end AsaKernel
