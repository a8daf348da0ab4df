import AsaKernel.Vm.Loading
import AsaKernel.Superbloc.Conservation

/-
  The loaded volume while the table changes.

  `current_vol` is an index into the table, and `del` moves
  the later entries without adjusting it.  The session is
  followed together with the volume that was loaded; the two
  stay bound to each other in every run whose deletions move
  no entry of index `current_vol`, and whose creations do not
  record in that slot.

  Main declarations:
    * `Bound`, `Bound.step`, `follow`
    * `Session.BoundTo`
    * `Bound.Valid`, `Bound.KeepsSlot`, `Bound.Sound`
    * `Bound.bound_in_every_run`
-/

------------------------------------------------------------
-- Following the Loaded Volume
------------------------------------------------------------

namespace AsaKernel

open Transition

/-
  A session, with the present index of the loaded volume and
  the start and size that it had when it was loaded.
-/
structure Bound where
  session : Session Disk
  home : Option (Nat × Volume)

/-
  What becomes of the loaded volume.  Saving releases its
  superblock, and deleting it ends the binding.
-/
def follow
    (t : Bound) : Command → Option (Nat × Volume)
| .loadVol choice =>
    (t.session.mbr.volume? choice.toInt).map fun v =>
      (choice.toInt.toNat, v)
| .saveVol => none
| .del vol =>
    t.home.bind fun home =>
      if vol.toInt = home.1 then none
      else if vol.toInt < home.1 then
        some (home.1 - 1, home.2)
      else some home
| _ => t.home

/- Execute one command and follow the loaded volume. -/
def Bound.step
    (libc : Libc)
    (t : Bound)
    (cmd : Command) : Option Bound := do
  let session ← cmd.exec libc t.session
  some { session := session, home := follow t cmd }

------------------------------------------------------------
-- Bound Sessions
------------------------------------------------------------

namespace Session

/-
  `save_super` writes the superblock to the first sector of
  the volume, and to no sector of another volume.
-/
def SavesTo
    (libc : Libc)
    (s : Session Disk)
    (i : Nat)
    (v : Volume) : Prop :=
  (∃ sb image after,
    s.currentSuperbloc = some sb ∧
    Superbloc.layout.decode image.toList = sb ∧
    s.saveSuper libc = some after ∧
    after.dev =
      Function.update s.dev v.firstSector image) ∧
  ∀ vol : UInt32,
    vol.toNat < s.mbr.nbVolume.toNat → vol.toNat ≠ i →
      v.firstSector ∉ s.mbr.sectors vol

/-
  Both `save_vol` and `quit` save to the volume, and
  `free_bloc` refuses exactly the blocks beyond its size.
-/
structure BoundTo
    (libc : Libc)
    (s : Session Disk)
    (i : Nat)
    (v : Volume) : Prop where
  save_vol : s.SavesTo libc i v
  quit : (s.save libc).SavesTo libc i v
  free_bloc :
    ∀ bloc,
      (∃ after, s.freeBloc libc bloc = some (-1, after)) ↔
        v.nbBlocs.toUInt32 ≤ bloc

variable {libc : Libc} {s : Session Disk}

/- `free_bloc` refuses by the size at index `current_vol`. -/
theorem freeBloc_refuses_iff
    {sb : Superbloc}
    (hSb : s.currentSuperbloc = some sb)
    {v : Volume}
    (hSlot : s.mbr.volume? s.currentVol.toInt = some v)
    (bloc : UInt32) :
    (∃ after, s.freeBloc libc bloc = some (-1, after)) ↔
      v.nbBlocs.toUInt32 ≤ bloc := by
  constructor
  · rintro ⟨after, hCall⟩
    by_contra hInside
    simp only [freeBloc, hSb, hSlot, if_neg hInside,
      Option.bind_eq_bind, Option.bind_some,
      Option.bind_eq_some_iff] at hCall
    rcases hCall with ⟨found, _, hCall⟩
    cases found with
    | true =>
        rw [if_pos rfl, Option.some.injEq,
          Prod.mk.injEq] at hCall
        exact absurd hCall.1 (by decide)
    | false =>
        simp only [Bool.false_eq_true, if_false,
          Option.bind_eq_some_iff, Option.some.injEq,
          Prod.mk.injEq] at hCall
        rcases hCall with ⟨_, _, _, _, _, _, hRes, _⟩
        exact absurd hRes (by decide)
  · intro hOutside
    exact ⟨s, by
      simp only [freeBloc, hSb, hSlot, if_pos hOutside,
        Option.bind_eq_bind, Option.bind_some]⟩

/- The entry at index `current_vol` decides where to save. -/
theorem savesTo_of_current
    {sb : Superbloc}
    (hSb : s.currentSuperbloc = some sb)
    (hDisk : s.mbr.DiskPacked)
    {i : Nat}
    {v : Volume}
    (hEntry : s.mbr.entries[i]? = some v)
    (hSlot : s.mbr.volume? s.currentVol.toInt = some v) :
    s.SavesTo libc i v := by
  rcases List.getElem?_eq_some_iff.mp hEntry with
    ⟨hLength, hAt⟩
  have hCount := hDisk.packed.count_le
  have hi : i < s.mbr.nbVolume.toNat := by
    rw [← Mbr.length_entries hCount]
    exact hLength
  have hMem : v ∈ s.mbr.entries :=
    List.mem_of_getElem? hEntry
  have hPlaced := hDisk.packed.placed v hMem
  rcases saveSuper_eq libc hSb hSlot hPlaced with
    ⟨image, hImage, hSave⟩
  refine ⟨⟨sb, image, _, hSb, hImage, hSave, rfl⟩, ?_⟩
  intro vol hVol hNe hShared
  have hIndex : (UInt32.ofNat i).toNat = i := by
    rw [UInt32.toNat_ofNat']
    exact Nat.mod_eq_of_lt (by omega)
  have hOwn :
      s.mbr.volume? (UInt32.ofNat i).toNat = some v := by
    rw [hIndex, Mbr.volume?_natCast,
      ← Mbr.entries_getElem? hi, hEntry]
  have hFirst :=
    hDisk.firstSector_mem (by omega) hOwn
  have hApart :
      Disjoint (s.mbr.sectors vol)
        (s.mbr.sectors (UInt32.ofNat i)) :=
    hDisk.disjoint_sectors hVol (by omega) fun hEq =>
      hNe (by rw [hEq, hIndex])
  exact Set.disjoint_left.mp hApart hShared hFirst

end Session

------------------------------------------------------------
-- Runs
------------------------------------------------------------

namespace Bound

/-
  The command leaves the slot that `current_vol` designates as
  it is: a deletion moves later entries, or none of this
  index, and a creation records in another slot.
-/
def KeepsSlot
    (t : Bound) : Command → Prop
| .del vol =>
    ∀ home ∈ t.home, vol.toInt ≠ home.1 →
      t.session.currentVol.toInt < vol.toInt ∨
        (t.session.mbr.nbVolume.toNat : Int) - 1 ≤
          t.session.currentVol.toInt
| .new _ =>
    ∀ _home ∈ t.home,
      t.session.mbr.nbVolume.toNat < 8 →
        t.session.currentVol.toInt ≠
          t.session.mbr.nbVolume.toNat
| _ => True

instance (t : Bound) (cmd : Command) :
    Decidable (t.KeepsSlot cmd) :=
  match cmd with
  | .del vol =>
      inferInstanceAs
        (Decidable
          (∀ home ∈ t.home, vol.toInt ≠ home.1 → _ ∨ _))
  | .new _ =>
      inferInstanceAs
        (Decidable (∀ _home ∈ t.home, _ → _))
  | .list | .read _ _ | .write _ _ _ | .format _ _
  | .loadVol _ | .saveVol | .listVol | .newVol | .delVol _
  | .save => isTrue trivial

/-
  The invariant of a followed session: the loaded volume is in
  the table, and `current_vol` designates an entry equal to
  it.
-/
structure Sound
    (t : Bound) : Prop where
  disk : t.session.mbr.DiskPacked
  home :
    ∀ i v, t.home = some (i, v) →
      t.session.mbr.entries[i]? = some v ∧
      t.session.mbr.volume? t.session.currentVol.toInt =
        some v ∧
      ∃ sb, t.session.currentSuperbloc = some sb

variable {libc : Libc} {t u : Bound}

theorem step_eq_some
    {cmd : Command}
    (hStep : t.step libc cmd = some u) :
    ∃ session, cmd.exec libc t.session = some session ∧
      u = { session := session, home := follow t cmd } := by
  rcases Option.bind_eq_some_iff.mp hStep with
    ⟨session, hExec, hNext⟩
  exact ⟨session, hExec, (Option.some.inj hNext).symm⟩

/- A sound session saves to the volume that it loaded. -/
theorem Sound.boundTo
    (hSound : t.Sound)
    {i : Nat}
    {v : Volume}
    (hHome : t.home = some (i, v)) :
    t.session.BoundTo libc i v := by
  rcases hSound.home i v hHome with
    ⟨hEntry, hSlot, sb, hSb⟩
  exact
    { save_vol :=
        Session.savesTo_of_current hSb hSound.disk hEntry
          hSlot
      quit :=
        Session.savesTo_of_current
          (s := t.session.save libc) hSb hSound.disk hEntry
          hSlot
      free_bloc := Session.freeBloc_refuses_iff hSb hSlot }

/- Loading binds the session to the volume. -/
theorem Sound.loadVol
    (hSound : t.Sound)
    {choice : Int32}
    (hExists : t.session.mbr.Exists choice)
    (hStep : t.step libc (.loadVol choice) = some u) :
    u.Sound := by
  rcases step_eq_some hStep with ⟨last, hExec, rfl⟩
  rcases Session.loadVol_frame hExec with
    ⟨sb, heap, dev, _, rfl⟩
  refine ⟨hSound.disk, ?_⟩
  intro i v hHome
  rcases Option.map_eq_some_iff.mp hHome with
    ⟨v', hSlot, hEq⟩
  cases hEq
  refine ⟨?_, hSlot, sb, rfl⟩
  rw [← hExists.volume?_eq]
  exact hSlot

/- A creation appends a volume and keeps the designated slot. -/
theorem Sound.new
    (hSound : t.Sound)
    {nbloc : Int32}
    (hSize :
      TableCmd.SizeFits t.session.mbr (.new nbloc))
    (hKeeps : t.KeepsSlot (.new nbloc))
    (hStep : t.step libc (.new nbloc) = some u) :
    u.Sound := by
  rcases step_eq_some hStep with ⟨last, hExec, rfl⟩
  rcases Command.exec_new hExec with ⟨mbr, hNew, rfl⟩
  have hCount := hSound.disk.packed.count_le
  have hAppended :
      mbr.DiskPacked ∧
        ∃ rest, mbr.entries =
          t.session.mbr.entries ++ rest := by
    by_cases hRoom : t.session.mbr.nbVolume.toNat < 8
    · rcases hSound.disk.new hRoom (hSize hRoom) with
        ⟨mbr', v, hNew', hDisk, _, hEntries, _⟩
      cases hNew'.symm.trans hNew
      exact ⟨hDisk, [v], hEntries⟩
    · cases (Mbr.new_full (by omega) nbloc).symm.trans hNew
      exact ⟨hSound.disk, [], (List.append_nil _).symm⟩
  rcases hAppended with ⟨hDisk, rest, hEntries⟩
  refine ⟨hDisk, ?_⟩
  intro i v hHome
  rcases hSound.home i v hHome with ⟨hEntry, hSlot, hSb⟩
  refine ⟨?_, ?_, hSb⟩
  · rcases List.getElem?_eq_some_iff.mp hEntry with
      ⟨hLength, _⟩
    rw [hEntries, List.getElem?_append_left hLength]
    exact hEntry
  · change mbr.volume? t.session.currentVol.toInt = some v
    rw [Mbr.volume?_new_kept hCount hNew
      (hKeeps (i, v) hHome)]
    exact hSlot

/- A deletion of another volume keeps the designated slot. -/
theorem Sound.del
    (hSound : t.Sound)
    {vol : Int32}
    (hExists :
      TableCmd.NamesExisting t.session.mbr (.del vol))
    (hKeeps : t.KeepsSlot (.del vol))
    (hStep : t.step libc (.del vol) = some u) :
    u.Sound := by
  rcases step_eq_some hStep with ⟨last, hExec, rfl⟩
  rcases Command.exec_del hExec with ⟨mbr, hDel, rfl⟩
  have hCount := hSound.disk.packed.count_le
  rcases hExists with ⟨hLow, hHigh⟩
  rcases hSound.disk.del hLow hHigh with
    ⟨mbr', hDel', hDisk, _, hEntries⟩
  cases hDel'.symm.trans hDel
  refine ⟨hDisk, ?_⟩
  intro i v hFollow
  rcases Option.bind_eq_some_iff.mp hFollow with
    ⟨⟨j, w⟩, hHome, hMoved⟩
  rcases hSound.home j w hHome with ⟨hEntry, hSlot, hSb⟩
  have hOther : vol.toInt ≠ j := by
    intro hSame
    simp [hSame] at hMoved
  have hKept := hKeeps (j, w) hHome hOther
  have hDesignated :
      mbr.volume? t.session.currentVol.toInt = some w := by
    rw [Mbr.volume?_del_kept hCount hLow hHigh hDel hKept]
    exact hSlot
  rw [if_neg hOther] at hMoved
  -- Entries behind the deleted one move down by one.
  by_cases hBehind : vol.toInt < j
  · rw [if_pos hBehind] at hMoved
    cases hMoved
    refine ⟨?_, hDesignated, hSb⟩
    rw [hEntries, List.getElem?_eraseIdx,
      if_neg (by omega)]
    simp only [show j - 1 + 1 = j by omega, hEntry]
  · rw [if_neg hBehind] at hMoved
    cases hMoved
    refine ⟨?_, hDesignated, hSb⟩
    rw [hEntries, List.getElem?_eraseIdx, if_pos (by omega)]
    exact hEntry

/- Every other command leaves the loaded volume as it is. -/
theorem Sound.sameVolume
    (hSound : t.Sound)
    {session : Session Disk}
    (hSame : t.session.SameVolume session) :
    Sound { session := session, home := t.home } := by
  constructor
  · rw [hSame.mbr_eq]
    exact hSound.disk
  · intro i v hHome
    rcases hSound.home i v hHome with
      ⟨hEntry, hSlot, sb, hSb⟩
    refine ⟨?_, ?_, ?_⟩
    · rw [hSame.mbr_eq]
      exact hEntry
    · rw [hSame.mbr_eq, hSame.currentVol_eq]
      exact hSlot
    · have hMagic := hSame.magic_eq
      rw [hSb] at hMagic
      rcases Option.map_eq_some_iff.mp hMagic with
        ⟨sb', hSb', _⟩
      exact ⟨sb', hSb'⟩

/- One command that keeps the slot keeps the invariant. -/
theorem Sound.step
    (hSound : t.Sound)
    {cmd : Command}
    (hValid : cmd.Valid t.session.mbr)
    (hKeeps : t.KeepsSlot cmd)
    (hStep : t.step libc cmd = some u) :
    u.Sound := by
  cases cmd with
  | loadVol choice => exact hSound.loadVol hValid hStep
  | new nbloc => exact hSound.new hValid hKeeps hStep
  | del vol => exact hSound.del hValid hKeeps hStep
  | saveVol =>
      rcases step_eq_some hStep with ⟨last, hExec, rfl⟩
      rcases Session.saveSuper_frame hExec with
        ⟨heap, dev, rfl⟩
      refine ⟨hSound.disk, fun i v hHome => ?_⟩
      have hNone :
          (none : Option (Nat × Volume)) = some (i, v) :=
        hHome
      cases hNone
  | list | read _ _ | write _ _ _ | format _ _ | listVol
  | newVol | delVol _ | save =>
      rcases step_eq_some hStep with ⟨last, hExec, rfl⟩
      refine hSound.sameVolume
        (Command.exec_sameVolume ?_ hExec)
      exact not_false

/-
  In every run whose deletions and creations keep the slot of
  the loaded volume, a later save goes to that volume and
  `free_bloc` goes by its size.
-/
theorem bound_in_every_run
    (libc : Libc)
    {s : Session Disk}
    (hDisk : s.mbr.DiskPacked)
    (cmds : List Command)
    (hValid :
      Always (Bound.step libc)
        { session := s, home := none } cmds
        fun t cmd => cmd.Valid t.session.mbr)
    (hKeeps :
      Always (Bound.step libc)
        { session := s, home := none } cmds KeepsSlot) :
    Throughout (Bound.step libc)
      { session := s, home := none } cmds fun t =>
        ∀ i v, t.home = some (i, v) →
          t.session.BoundTo libc i v := by
  have hInit :
      Sound { session := s, home := none } :=
    ⟨hDisk, fun _ _ hHome => by cases hHome⟩
  intro t hReached i v hHome
  have hSound : t.Sound := by
    refine reached_invariant Sound hInit ?_ hReached
    intro t' cmd u hPerforms hSound' hStep
    exact hSound'.step (hValid t' cmd hPerforms)
      (hKeeps t' cmd hPerforms) hStep
  exact hSound.boundTo hHome

/- Later volumes come and go while the second is loaded. -/
def laterChanges : List Command :=
  [.new 5, .new 4, .new 9, .loadVol 1, .newVol, .del 2,
    .new 7, .delVol 1]

theorem bound_in_sample :
    Throughout (Bound.step Session.sampleLibc)
      { session := Session.blankSession Mbr.emptyTable
        home := none }
      laterChanges fun t =>
        ∀ i v, t.home = some (i, v) →
          t.session.BoundTo Session.sampleLibc i v :=
  bound_in_every_run Session.sampleLibc
    (Mbr.diskPacked_of_empty rfl) laterChanges (by decide)
    (by decide)

/- The first volume is deleted while the second is loaded. -/
def earlierDeletion : List Command :=
  [.new 5, .new 4, .new 9, .loadVol 1, .del 0]

/-
  After the deletion `current_vol` designates the volume that
  followed: block 7 of a volume of 4 blocks is not refused.
-/
theorem deletion_unbinds :
    ∃ t,
      run (Bound.step Session.sampleLibc)
        { session := Session.blankSession Mbr.emptyTable
          home := none }
        earlierDeletion = some t ∧
      t.home = some (0, ⟨TypeE.base, 0, 6, 4⟩) ∧
      ¬ t.session.BoundTo Session.sampleLibc 0
        ⟨TypeE.base, 0, 6, 4⟩ := by
  have hFinal :
      (run (Bound.step Session.sampleLibc)
        { session := Session.blankSession Mbr.emptyTable
          home := none }
        earlierDeletion).map (fun t =>
          (t.home, t.session.currentSuperbloc.isSome,
            t.session.mbr.volume?
              t.session.currentVol.toInt)) =
        some (some (0, ⟨TypeE.base, 0, 6, 4⟩), true,
          some ⟨TypeE.base, 0, 10, 9⟩) := by
    decide
  rcases Option.map_eq_some_iff.mp hFinal with
    ⟨t, hRun, hState⟩
  simp only [Prod.mk.injEq] at hState
  rcases hState with ⟨hHome, hLoaded, hSlot⟩
  rcases Option.isSome_iff_exists.mp hLoaded with ⟨sb, hSb⟩
  refine ⟨t, hRun, hHome, fun hBound => ?_⟩
  have hRefused := (hBound.free_bloc 7).mpr (by decide)
  rw [Session.freeBloc_refuses_iff hSb hSlot] at hRefused
  exact absurd hRefused (by decide)

end Bound

end AsaKernel
