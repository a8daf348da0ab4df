import AsaKernel.Vm.Loading
import AsaKernel.Superbloc.Conservation

/-
  The first load of a volume that the run created.

  `load_super` trusts any first sector that starts with MAGIC,
  and neither `new` nor `del` clears it.  The sessions of a
  run are followed together with the volumes that were created
  and not loaded yet.

  Main declarations:
    * `Born`, `Born.step`, `register`
    * `Session.StartsEmpty`, `Session.FirstLoadClean`
    * `Born.starts_empty_in_every_run`
-/

------------------------------------------------------------
-- Following the Created Volumes
------------------------------------------------------------

namespace AsaKernel

open Transition

/-
  A session, with the size that the user typed for each volume
  of the table that was created and not loaded yet.
-/
structure Born where
  session : Session Disk
  births : List (Option Int32)

/- What becomes of the created volumes. -/
def register
    (t : Born) : Command → List (Option Int32)
| .new nbloc =>
    if t.session.mbr.nbVolume.toNat < 8 then
      t.births ++ [some nbloc]
    else t.births
| .del vol => t.births.eraseIdx vol.toInt.toNat
| .loadVol choice => t.births.set choice.toInt.toNat none
| _ => t.births

/- Execute one command and follow the created volumes. -/
def Born.step
    (libc : Libc)
    (t : Born)
    (cmd : Command) : Option Born := do
  let session ← cmd.exec libc t.session
  some { session := session, births := register t cmd }

/- A session whose volumes were created before. -/
def Born.start
    (s : Session Disk) : Born where
  session := s
  births := List.replicate s.mbr.nbVolume.toNat none

------------------------------------------------------------
-- Volumes That Start Empty
------------------------------------------------------------

namespace Session

/- Perform one call and forget its answer. -/
def perform
    (libc : Libc)
    (s : Session Disk) : BlocCall → Option (Session Disk)
| .newBloc => s.newBloc.map Prod.snd
| .freeBloc bloc => (s.freeBloc libc bloc).map Prod.snd

/-
  Loading the volume gives the free list 1, ..., n - 1, each
  once, and no later call of `new_bloc` offers a block beyond
  the volume.
-/
def StartsEmpty
    (libc : Libc)
    (s : Session Disk)
    (choice : Int32)
    (n : Nat) : Prop :=
  ∃ after free,
    s.loadVol libc choice = some after ∧
    after.freeBlocs = some free ∧
    free.Perm (blocsBelow n) ∧
    ∀ calls,
      Always (perform libc) after calls fun u call =>
        call = .newBloc → ∀ res last,
          u.newBloc = some (res, last) → res.toNat < n

/-
  The first sector of the volume does not start with MAGIC, or
  the pointer stored there happens to head a live list of the
  volume's data blocks.
-/
def FirstLoadClean
    (s : Session Disk)
    (choice : Int32)
    (n : Nat) : Prop :=
  ∃ v,
    s.mbr.volume? choice.toInt = some v ∧
    (¬ CarriesMagic s.dev v ∨
      ∃ nodes,
        Chain ListBloc.next s.heap
          (storedSuperbloc s.dev v).first nodes ∧
        (blocNumbers nodes).Perm (blocsBelow n))

/-
  The list holds only blocks of the loaded volume, and
  `free_bloc` goes by its size.
-/
structure ListsBelow
    (s : Session Disk)
    (n : Nat) : Prop where
  lists :
    ∃ nodes, s.Lists nodes ∧
      ∀ b ∈ blocNumbers nodes, b.toNat < n
  volume :
    ∃ v, s.mbr.volume? s.currentVol.toInt = some v ∧
      v.nbBlocs.toInt = n

variable {libc : Libc} {s after : Session Disk} {n : Nat}

/- Neither call brings a block beyond the volume into the list. -/
theorem ListsBelow.perform
    (hBelow : s.ListsBelow n)
    {call : BlocCall}
    (hCall : s.perform libc call = some after) :
    after.ListsBelow n := by
  rcases hBelow.lists with ⟨nodes, hLists, hAll⟩
  rcases hBelow.volume with ⟨v, hSlot, hSize⟩
  cases call with
  | newBloc =>
      rcases Option.map_eq_some_iff.mp hCall with
        ⟨⟨res, last⟩, hNew, rfl⟩
      cases nodes with
      | nil =>
          cases (newBloc_nil hLists).symm.trans hNew
          exact hBelow
      | cons head rest =>
          rcases head with ⟨p, node⟩
          rcases newBloc_cons hLists with
            ⟨sb, _, _, hUnlink, hChain⟩
          cases hUnlink.symm.trans hNew
          refine ⟨⟨rest, lists_relist hChain, ?_⟩,
            v, hSlot, hSize⟩
          intro b hMem
          exact hAll b (List.mem_cons_of_mem _ hMem)
  | freeBloc bloc =>
      rcases Option.map_eq_some_iff.mp hCall with
        ⟨⟨res, last⟩, hFree, rfl⟩
      rcases freeBloc_cases hFree with
        rfl | ⟨sb, w, p, heap, hSb, hSlot', hInside,
          hNonnull, hFresh, hWritten, hOthers, rfl⟩
      · exact hBelow
      · cases hSlot.symm.trans hSlot'
        rcases hLists with ⟨sb', hSb', hChain⟩
        cases hSb'.symm.trans hSb
        refine ⟨⟨_, lists_relist (hChain.push hNonnull hFresh
          hWritten rfl hOthers), ?_⟩, v, hSlot, hSize⟩
        intro b hMem
        rw [size_le_iff hSize] at hInside
        rcases List.mem_cons.mp hMem with hHead | hOld
        · have hBloc : b = bloc := hHead
          rw [hBloc]
          omega
        · exact hAll b hOld

/- Whatever is called, only blocks of the volume are offered. -/
theorem ListsBelow.offers
    (hBelow : s.ListsBelow n)
    (hn : 0 < n)
    (calls : List BlocCall) :
    Always (Session.perform libc) s calls fun u call =>
      call = .newBloc → ∀ res last,
        u.newBloc = some (res, last) → res.toNat < n := by
  rintro u call hPerforms rfl res last hNew
  have hReached : u.ListsBelow n :=
    reached_invariant (fun u : Session Disk => u.ListsBelow n)
      hBelow (fun _ _ _ _ hInv hStep => hInv.perform hStep)
      hPerforms.reached
  rcases hReached.lists with ⟨nodes, hLists, hAll⟩
  rcases hReached.volume with ⟨v, _, hSize⟩
  cases nodes with
  | nil =>
      cases (newBloc_nil hLists).symm.trans hNew
      exact hn
  | cons head rest =>
      rcases head with ⟨p, node⟩
      rcases newBloc_cons hLists with ⟨sb, _, _, hUnlink, _⟩
      cases hUnlink.symm.trans hNew
      exact hAll _ List.mem_cons_self

/- A load that lists the data blocks starts empty. -/
theorem startsEmpty_of_lists
    {choice : Int32}
    (hLoad : s.loadVol libc choice = some after)
    {nodes : List (UInt64 × ListBloc)}
    (hLists : after.Lists nodes)
    (hPerm : (blocNumbers nodes).Perm (blocsBelow n))
    {v : Volume}
    (hSlot :
      after.mbr.volume? after.currentVol.toInt = some v)
    (hSize : v.nbBlocs.toInt = n)
    (hn : 2 ≤ n) :
    s.StartsEmpty libc choice n := by
  have hRange := FixedWidth.toInt_range v.nbBlocs
  refine ⟨after, _, hLoad, hLists.freeBlocs, hPerm, ?_⟩
  have hBelow : after.ListsBelow n := by
    refine ⟨⟨nodes, hLists, fun b hMem => ?_⟩,
      v, hSlot, hSize⟩
    have hData := hPerm.mem_iff.mp hMem
    rw [mem_blocsBelow (by omega)] at hData
    exact hData.2
  exact hBelow.offers (by omega)

/-
  A first load starts empty exactly when the first sector is
  clean: otherwise the list is the one found there.
-/
theorem startsEmpty_iff
    {choice : Int32}
    {v : Volume}
    (hSlot : s.mbr.volume? choice.toInt = some v)
    (hPlaced : v.Placed)
    (hSize : v.nbBlocs.toInt = n)
    (hn : 2 ≤ n)
    (hRoom : s.heap.size + n ≤ libc.nodes.capacity) :
    s.StartsEmpty libc choice n ↔
      s.FirstLoadClean choice n := by
  by_cases hMagic : CarriesMagic s.dev v
  · have hLoad := loadVol_trusts libc hSlot hPlaced hMagic
    constructor
    · rintro ⟨after, free, hLoaded, hFree, hPerm, _⟩
      cases hLoad.symm.trans hLoaded
      rcases freeBlocs_eq_some_iff.mp hFree with
        ⟨nodes, ⟨sb, hSb, hChain⟩, rfl⟩
      cases hSb
      exact ⟨v, hSlot, Or.inr
        ⟨nodes, hChain.frame fun _ _ => rfl, hPerm⟩⟩
    · rintro ⟨w, hSlot', hClean⟩
      cases hSlot.symm.trans hSlot'
      rcases hClean.resolve_left (not_not.mpr hMagic) with
        ⟨nodes, hChain, hPerm⟩
      exact startsEmpty_of_lists hLoad
        ⟨_, rfl, hChain.frame fun _ _ => rfl⟩ hPerm hSlot
        hSize hn
  · rcases loadVol_initialises libc hSlot hPlaced hMagic
      (n := n) (by omega) with ⟨hPost, hDefined⟩
    rcases hDefined hRoom with ⟨after, hLoad⟩
    have hFresh := hPost after hLoad
    rcases hFresh.list with
      ⟨sb, nodes, hSb, _, hChain, hBlocs, _⟩
    have hSlot' :
        after.mbr.volume? after.currentVol.toInt =
          some v := by
      rw [hFresh.mbr_eq, hFresh.currentVol_eq]
      exact hSlot
    exact iff_of_true
      (startsEmpty_of_lists hLoad ⟨sb, hSb, hChain⟩
        (by rw [hBlocs]) hSlot' hSize hn)
      ⟨v, hSlot, Or.inl hMagic⟩

end Session

------------------------------------------------------------
-- Runs
------------------------------------------------------------

namespace Born

/-
  The invariant of a followed session: its table lies on the
  disk, and a volume that was not loaded yet has the size that
  the user typed.
-/
structure Sound
    (t : Born) : Prop where
  disk : t.session.mbr.DiskPacked
  length_eq :
    t.births.length = t.session.mbr.entries.length
  size_eq :
    ∀ (i : Nat) (nbloc : Int32),
      t.births[i]? = some (some nbloc) →
      ∃ v : Volume,
        t.session.mbr.entries[i]? = some v ∧
          v.nbBlocs = nbloc

variable {libc : Libc} {t u : Born}

theorem step_eq_some
    {cmd : Command}
    (hStep : t.step libc cmd = some u) :
    ∃ session, cmd.exec libc t.session = some session ∧
      u =
        { session := session
          births := register t cmd } := by
  rcases Option.bind_eq_some_iff.mp hStep with
    ⟨session, hExec, hNext⟩
  exact ⟨session, hExec, (Option.some.inj hNext).symm⟩

theorem sound_start
    {s : Session Disk}
    (hDisk : s.mbr.DiskPacked) :
    (start s).Sound where
  disk := hDisk
  length_eq := by
    rw [start, List.length_replicate,
      Mbr.length_entries hDisk.packed.count_le]
  size_eq i nbloc hBirth := by
    rw [start, List.getElem?_replicate] at hBirth
    split at hBirth
    · cases Option.some.inj hBirth
    · cases hBirth

/- A command that leaves the table alone. -/
theorem Sound.sameTable
    (hSound : t.Sound)
    {session : Session Disk}
    (hMbr : session.mbr = t.session.mbr) :
    Sound { session := session, births := t.births } where
  disk := by
    rw [hMbr]
    exact hSound.disk
  length_eq := by
    rw [hMbr]
    exact hSound.length_eq
  size_eq := by
    rw [hMbr]
    exact hSound.size_eq

/- Loading a volume ends the time before its first load. -/
theorem Sound.loadVol
    (hSound : t.Sound)
    {choice : Int32}
    (hStep : t.step libc (.loadVol choice) = some u) :
    u.Sound := by
  rcases step_eq_some hStep with ⟨last, hExec, rfl⟩
  rcases Session.loadVol_frame hExec with
    ⟨sb, heap, dev, _, rfl⟩
  refine ⟨hSound.disk, ?_, ?_⟩
  · rw [register, List.length_set]
    exact hSound.length_eq
  · intro i nbloc hBirth
    rw [register, List.getElem?_set] at hBirth
    split at hBirth
    · split at hBirth
      · cases Option.some.inj hBirth
      · cases hBirth
    · exact hSound.size_eq i nbloc hBirth

/- Creating a volume records its size. -/
theorem Sound.new
    (hSound : t.Sound)
    {nbloc : Int32}
    (hSize :
      TableCmd.SizeFits t.session.mbr (.new nbloc))
    (hStep : t.step libc (.new nbloc) = some u) :
    u.Sound := by
  rcases step_eq_some hStep with ⟨last, hExec, rfl⟩
  rcases Command.exec_new hExec with ⟨mbr, hNew, rfl⟩
  have hCount := hSound.disk.packed.count_le
  by_cases hRoom : t.session.mbr.nbVolume.toNat < 8
  · rcases hSound.disk.new hRoom (hSize hRoom) with
      ⟨mbr', v, hNew', hDisk, _, hEntries, hBlocs, _⟩
    cases hNew'.symm.trans hNew
    rw [register, if_pos hRoom]
    refine ⟨hDisk, ?_, ?_⟩
    · simp only [hEntries, List.length_append,
        hSound.length_eq, List.length_singleton]
    · intro i m hBirth
      simp only [hEntries, List.getElem?_append,
        hSound.length_eq] at hBirth ⊢
      by_cases hOld : i < t.session.mbr.entries.length
      · simp only [if_pos hOld] at hBirth ⊢
        exact hSound.size_eq i m hBirth
      · simp only [if_neg hOld, List.getElem?_singleton]
          at hBirth ⊢
        by_cases hLast :
            i - t.session.mbr.entries.length = 0
        · simp only [if_pos hLast] at hBirth ⊢
          cases hBirth
          exact ⟨v, rfl, hBlocs⟩
        · simp only [if_neg hLast] at hBirth
          cases hBirth
  · cases (Mbr.new_full (by omega) nbloc).symm.trans hNew
    rw [register, if_neg hRoom]
    exact hSound.sameTable rfl

/- Deleting a volume forgets it. -/
theorem Sound.del
    (hSound : t.Sound)
    {vol : Int32}
    (hExists :
      TableCmd.NamesExisting t.session.mbr (.del vol))
    (hStep : t.step libc (.del vol) = some u) :
    u.Sound := by
  rcases step_eq_some hStep with ⟨last, hExec, rfl⟩
  rcases Command.exec_del hExec with ⟨mbr, hDel, rfl⟩
  rcases hSound.disk.del hExists.1 hExists.2 with
    ⟨mbr', hDel', hDisk, _, hEntries⟩
  cases hDel'.symm.trans hDel
  refine ⟨hDisk, ?_, ?_⟩
  · simp only [register, hEntries, List.length_eraseIdx,
      hSound.length_eq]
  · intro i nbloc hBirth
    simp only [register, hEntries, List.getElem?_eraseIdx]
      at hBirth ⊢
    by_cases hBefore : i < vol.toInt.toNat
    · simp only [if_pos hBefore] at hBirth ⊢
      exact hSound.size_eq i nbloc hBirth
    · simp only [if_neg hBefore] at hBirth ⊢
      exact hSound.size_eq (i + 1) nbloc hBirth

/- One command with valid answers keeps the invariant. -/
theorem Sound.step
    (hSound : t.Sound)
    {cmd : Command}
    (hValid : cmd.Valid t.session.mbr)
    (hStep : t.step libc cmd = some u) :
    u.Sound := by
  cases cmd with
  | loadVol choice => exact hSound.loadVol hStep
  | new nbloc => exact hSound.new hValid hStep
  | del vol => exact hSound.del hValid hStep
  | saveVol =>
      rcases step_eq_some hStep with ⟨last, hExec, rfl⟩
      rcases Session.saveSuper_frame hExec with
        ⟨heap, dev, rfl⟩
      exact hSound.sameTable rfl
  | list | read _ _ | write _ _ _ | format _ _ | listVol
  | newVol | delVol _ | save =>
      rcases step_eq_some hStep with ⟨last, hExec, rfl⟩
      apply hSound.sameTable
      refine (Command.exec_sameVolume ?_ hExec).mbr_eq
      exact not_false

/-
  In every run with valid answers, the first load of a volume
  that `new` created with `n` blocks gives the free list
  1, ..., n - 1 exactly when the first sector is clean.
-/
theorem starts_empty_in_every_run
    (libc : Libc)
    {s : Session Disk}
    (hDisk : s.mbr.DiskPacked)
    (cmds : List Command)
    (hValid :
      Always (Born.step libc) (start s) cmds
        fun t cmd => cmd.Valid t.session.mbr) :
    Always (Born.step libc) (start s) cmds fun t cmd =>
      ∀ (choice nbloc : Int32) (n : Nat),
        cmd = .loadVol choice →
        t.births[choice.toInt.toNat]? =
          some (some nbloc) →
        nbloc.toInt = n → 2 ≤ n →
        t.session.heap.size + n ≤ libc.nodes.capacity →
          (t.session.StartsEmpty libc choice n ↔
            t.session.FirstLoadClean choice n) := by
  rintro t cmd hPerforms choice nbloc n rfl hBirth hSize hn
    hRoom
  have hSound : t.Sound :=
    reached_invariant Sound (sound_start hDisk)
      (fun t' cmd' _ hPerforms' hSound' hStep =>
        hSound'.step (hValid t' cmd' hPerforms') hStep)
      hPerforms.reached
  rcases hSound.size_eq _ nbloc hBirth with
    ⟨v, hEntry, rfl⟩
  have hExists : t.session.mbr.Exists choice :=
    hValid t _ hPerforms
  have hSlot :
      t.session.mbr.volume? choice.toInt = some v := by
    rw [hExists.volume?_eq]
    exact hEntry
  have hPlaced :=
    hSound.disk.packed.placed v
      (List.mem_of_getElem? hEntry)
  exact Session.startsEmpty_iff hSlot hPlaced hSize hn hRoom

/-
  Behind a volume in use, another one is created and deleted
  before it is loaded, and a smaller one takes its place.
-/
def cleanRecreation : List Command :=
  [.new 5, .loadVol 0, .saveVol, .new 4, .del 1, .new 3]

/- The sector is clean, and the new volume starts empty. -/
theorem starts_empty_in_sample :
    ∃ t,
      run (Born.step Session.sampleLibc)
        (start (Session.blankSession Mbr.emptyTable))
        cleanRecreation = some t ∧
      t.births = [none, some 3] ∧
      t.session.StartsEmpty Session.sampleLibc 1 3 := by
  have hFinal :
      (run (Born.step Session.sampleLibc)
        (start (Session.blankSession Mbr.emptyTable))
        cleanRecreation).map (fun t =>
          (t.births, t.session.mbr.volume? 1,
            decide (CarriesMagic t.session.dev
              ⟨TypeE.base, 0, 6, 3⟩),
            t.session.heap.size)) =
        some ([none, some 3], some ⟨TypeE.base, 0, 6, 3⟩,
          false, 4) := by
    decide
  rcases Option.map_eq_some_iff.mp hFinal with
    ⟨t, hRun, hState⟩
  simp only [Prod.mk.injEq, decide_eq_false_iff_not]
    at hState
  rcases hState with ⟨hBirths, hSlot, hMagic, hHeap⟩
  have hPerforms :
      Performs (Born.step Session.sampleLibc)
        (start (Session.blankSession Mbr.emptyTable))
        (cleanRecreation ++ [.loadVol 1]) t (.loadVol 1) :=
    ⟨cleanRecreation, [], rfl, hRun⟩
  have hBirth :
      t.births[(1 : Int32).toInt.toNat]? =
        some (some 3) := by
    rw [hBirths]
    rfl
  have hRoom :
      t.session.heap.size + 3 ≤
        Session.sampleLibc.nodes.capacity := by
    rw [hHeap]
    decide
  refine ⟨t, hRun, hBirths, ?_⟩
  refine
    (starts_empty_in_every_run Session.sampleLibc
      (Mbr.diskPacked_of_empty rfl)
      (cleanRecreation ++ [.loadVol 1])
      (by decide) t (.loadVol 1) hPerforms 1 3 3 rfl hBirth
      rfl (by decide) hRoom).mpr ?_
  exact ⟨_, hSlot, Or.inl hMagic⟩

/-
  A volume of 5 blocks is loaded, saved and deleted, and a
  volume of 3 blocks is created in its place.
-/
def recreation : List Command :=
  [.new 5, .loadVol 0, .saveVol, .del 0, .new 3]

/- The new volume inherits the free list of the deleted one. -/
theorem recreated_volume_inherits :
    ∃ t,
      run (Born.step Session.sampleLibc)
        (start (Session.blankSession Mbr.emptyTable))
        recreation = some t ∧
      t.births = [some 3] ∧
      ¬ t.session.StartsEmpty Session.sampleLibc 0 3 := by
  have hFinal :
      (run (Born.step Session.sampleLibc)
        (start (Session.blankSession Mbr.emptyTable))
        recreation).map (fun t =>
          (t.births,
            (t.session.loadVol Session.sampleLibc 0).bind
              Session.freeBlocs)) =
        some ([some 3], some [1, 2, 3, 4]) := by
    decide
  rcases Option.map_eq_some_iff.mp hFinal with
    ⟨t, hRun, hState⟩
  simp only [Prod.mk.injEq] at hState
  rcases hState with ⟨hBirths, hList⟩
  refine ⟨t, hRun, hBirths, ?_⟩
  rintro ⟨after, free, hLoad, hFree, hPerm, _⟩
  rw [hLoad, Option.bind_some, hFree, Option.some.injEq]
    at hList
  rw [hList] at hPerm
  exact absurd hPerm.length_eq (by decide)

end Born

end AsaKernel
