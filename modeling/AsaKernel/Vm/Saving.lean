import AsaKernel.Vm.Loading
import AsaKernel.Superbloc.Conservation

/-
  When `save_vol` and `quit` find a superblock to save.

  `save_super` copies from `current_superbloc` without a test,
  while `new_bloc`, `free_bloc` and `display_current_vol` test
  the pointer first.  It is null at the start of a process and
  after each save, whatever else the user does.

  Main declarations:
    * `Event.track`, `loadedAfter`
    * `Event.step_track`
    * `Session.Anchored`, `Session.Anchored.step`
    * `Session.SavesSafely`
    * `Session.saves_safely_iff`
-/

------------------------------------------------------------
-- What Is Loaded After a History
------------------------------------------------------------

namespace AsaKernel

open Transition

/- Whether a volume is loaded, from one event to the next. -/
def Event.track
    (loaded : Bool) : Event → Bool
| .command (.loadVol _) => true
| .command .saveVol => false
| .restart _ => false
| .command _ => loaded

/-
  The history contains a load and after it neither a save nor
  the end of a process.
-/
def loadedAfter
    (history : List Event) : Bool :=
  history.foldl Event.track false

namespace Session

variable {δ : Type} [Drive δ]
variable {libc : Libc} {s t : Session δ}

omit [Drive δ] in
theorem SameVolume.isSome_eq
    (hSame : s.SameVolume t) :
    t.currentSuperbloc.isSome =
      s.currentSuperbloc.isSome := by
  have hMagic := congrArg Option.isSome hSame.magic_eq
  simpa using hMagic

end Session

variable {δ : Type} [Drive δ]
variable {libc : Libc} {s t : Session δ}

/- One command tells whether a volume is loaded after it. -/
theorem Command.exec_track
    {cmd : Command}
    (hExec : cmd.exec libc s = some t) :
    t.currentSuperbloc.isSome =
      (Event.command cmd).track
        s.currentSuperbloc.isSome := by
  cases cmd with
  | loadVol choice =>
      rcases Session.loadVol_frame hExec with
        ⟨_, _, _, _, rfl⟩
      rfl
  | saveVol =>
      rcases Session.saveSuper_frame hExec with
        ⟨_, _, rfl⟩
      rfl
  | new nbloc =>
      rcases Command.exec_new hExec with ⟨_, _, rfl⟩
      rfl
  | del vol =>
      rcases Command.exec_del hExec with ⟨_, _, rfl⟩
      rfl
  | list | read _ _ | write _ _ _ | format _ _ | listVol
  | newVol | delVol _ | save =>
      refine (Command.exec_sameVolume ?_ hExec).isSome_eq
      exact not_false

/- So does one event. -/
theorem Event.step_track
    {e : Event}
    (hStep : e.step libc s = some t) :
    t.currentSuperbloc.isSome =
      e.track s.currentSuperbloc.isSome := by
  cases e with
  | command cmd => exact Command.exec_track hStep
  | restart ending =>
      cases ending with
      | exit =>
          cases hStep
          rfl
      | quit =>
          rcases Option.bind_eq_some_iff.mp hStep with
            ⟨last, _, hBoot⟩
          cases hBoot
          rfl

namespace Session

/- The same for a whole history. -/
theorem run_track
    {history : List Event}
    (hRun : run (Event.step libc) s history = some t) :
    t.currentSuperbloc.isSome =
      history.foldl Event.track
        s.currentSuperbloc.isSome := by
  induction history generalizing s with
  | nil =>
      cases hRun
      rfl
  | cons e history ih =>
      rw [run_cons, Option.bind_eq_some_iff] at hRun
      rcases hRun with ⟨u, hStep, hRest⟩
      rw [ih hRest, Event.step_track hStep]
      rfl

------------------------------------------------------------
-- The Loaded Volume Is in the Table
------------------------------------------------------------

/- A loaded superblock belongs to an entry of the table. -/
def Anchored
    (s : Session δ) : Prop :=
  s.currentSuperbloc.isSome →
    (s.mbr.volume? s.currentVol.toInt).isSome

/- Any table has an entry of this number. -/
omit [Drive δ] in
theorem Anchored.keep
    (hAnchored : s.Anchored)
    (hVol : t.currentVol = s.currentVol)
    (hLoaded :
      t.currentSuperbloc.isSome =
        s.currentSuperbloc.isSome) :
    t.Anchored := by
  intro hSome
  rw [hLoaded] at hSome
  have hIndex := hAnchored hSome
  rw [Mbr.volume?_isSome_iff] at hIndex ⊢
  rw [hVol]
  exact hIndex

theorem anchored_of_loadVol
    {choice : Int32}
    (hLoad : s.loadVol libc choice = some t) :
    t.Anchored := by
  rcases loadVol_cases hLoad with ⟨image, dev, hRead, _⟩
  rcases loadVol_frame hLoad with ⟨_, _, _, _, rfl⟩
  intro _
  rcases Option.bind_eq_some_iff.mp hRead with
    ⟨cylSect, hAddr, _⟩
  rcases Option.bind_eq_some_iff.mp hAddr with
    ⟨v, hSlot, _⟩
  rw [Mbr.volume?_toUInt32] at hSlot
  exact Option.isSome_iff_exists.mpr ⟨v, hSlot⟩

/- One command keeps the session anchored. -/
theorem Anchored.exec
    (hAnchored : s.Anchored)
    {cmd : Command}
    (hExec : cmd.exec libc s = some t) :
    t.Anchored := by
  have hTrack := Command.exec_track hExec
  cases cmd with
  | loadVol choice => exact anchored_of_loadVol hExec
  | saveVol =>
      intro hSome
      rw [hTrack] at hSome
      exact absurd hSome Bool.false_ne_true
  | new nbloc =>
      rcases Command.exec_new hExec with ⟨_, _, rfl⟩
      exact hAnchored.keep rfl hTrack
  | del vol =>
      rcases Command.exec_del hExec with ⟨_, _, rfl⟩
      exact hAnchored.keep rfl hTrack
  | list | read _ _ | write _ _ _ | format _ _ | listVol
  | newVol | delVol _ | save =>
      refine hAnchored.keep
        (Command.exec_sameVolume ?_ hExec).currentVol_eq
        hTrack
      exact not_false

/- So does one event. -/
theorem Anchored.step
    (hAnchored : s.Anchored)
    {e : Event}
    (hStep : e.step libc s = some t) :
    t.Anchored := by
  cases e with
  | command cmd => exact hAnchored.exec hStep
  | restart ending =>
      intro hSome
      rw [Event.step_track hStep] at hSome
      exact absurd hSome Bool.false_ne_true

/- An anchored superblock can be saved. -/
theorem Anchored.saveSuper
    (hAnchored : s.Anchored)
    (hSome : s.currentSuperbloc.isSome) :
    ∃ t, s.saveSuper libc = some t := by
  rcases Option.isSome_iff_exists.mp hSome with ⟨sb, hSb⟩
  rcases Option.isSome_iff_exists.mp (hAnchored hSome) with
    ⟨v, hSlot⟩
  rw [← Mbr.volume?_toUInt32] at hSlot
  rcases writeBloc_defined hSlot 0
      ((libc.garbage s.heap.calls).memcpy
        (Superbloc.layout.encode sb)) s.dev with
    ⟨dev, hWrite⟩
  refine ⟨{ s with
    currentSuperbloc := none
    heap := s.heap.scratch
    dev := dev }, ?_⟩
  simp only [Session.saveSuper, hSb, hWrite,
    Option.bind_eq_bind, Option.bind_some]

end Session

------------------------------------------------------------
-- Saves
------------------------------------------------------------

/- The events that execute `save_super`. -/
def Event.Saves : Event → Prop
| .command .saveVol => True
| .restart .quit => True
| _ => False

namespace Session

/-
  A save that is defined, and that leaves the sectors of the
  volumes alone when no volume is loaded.
-/
def SavesSafely
    (libc : Libc)
    (s : Session Disk)
    (e : Event) : Prop :=
  ∃ after,
    e.step libc s = some after ∧
    (s.currentSuperbloc = none →
      ∀ vol : UInt32, vol.toNat < s.mbr.nbVolume.toNat →
        ∀ addr ∈ s.mbr.sectors vol,
          after.dev addr = s.dev addr)

variable {libc : Libc} {s : Session Disk}

/- A save is undefined without a superblock. -/
theorem step_saves_none
    {e : Event}
    (hSaves : e.Saves)
    (hNone : s.currentSuperbloc = none) :
    e.step libc s = none := by
  cases e with
  | command cmd =>
      cases cmd with
      | saveVol => exact saveSuper_none libc hNone
      | _ => exact hSaves.elim
  | restart ending =>
      cases ending with
      | exit => exact hSaves.elim
      | quit =>
          have hSave :
              (s.save libc).saveSuper libc = none :=
            saveSuper_none libc hNone
          simp only [Event.step, quit, hSave,
            Option.bind_eq_bind, Option.bind_none]

/- In an anchored session it is defined with one. -/
theorem Anchored.step_saves
    (hAnchored : s.Anchored)
    {e : Event}
    (hSaves : e.Saves)
    (hSome : s.currentSuperbloc.isSome) :
    ∃ after, e.step libc s = some after := by
  cases e with
  | command cmd =>
      cases cmd with
      | saveVol => exact hAnchored.saveSuper hSome
      | _ => exact hSaves.elim
  | restart ending =>
      cases ending with
      | exit => exact hSaves.elim
      | quit =>
          have hSaved : (s.save libc).Anchored :=
            hAnchored.keep rfl rfl
          have hSave :
              ∃ last,
                (s.save libc).saveSuper libc = some last :=
            hSaved.saveSuper hSome
          rcases hSave with ⟨last, hLast⟩
          refine ⟨boot libc last.heap.calls last.dev, ?_⟩
          simp only [Event.step, quit, hLast,
            Option.bind_eq_bind, Option.bind_some]

/-
  In every run from the start of the program, with any disk
  and any answers, a `save_vol` or a `quit` is safe exactly
  when a volume was loaded before and neither saved since nor
  lost with its process.
-/
theorem saves_safely_iff
    (libc : Libc)
    (calls : Nat)
    (disk : Disk)
    (history : List Event)
    (hRun :
      run (Event.step libc) (boot libc calls disk) history =
        some s)
    {e : Event}
    (hSaves : e.Saves) :
    s.SavesSafely libc e ↔ loadedAfter history = true := by
  have hTrack : s.currentSuperbloc.isSome =
      loadedAfter history :=
    run_track hRun
  have hAnchored : s.Anchored := by
    refine reached_invariant Anchored ?_ ?_
      (reached_of_run hRun)
    · intro hSome
      exact absurd hSome Bool.false_ne_true
    · intro t e' u _ hAnchored hStep
      exact hAnchored.step hStep
  rw [← hTrack]
  constructor
  · rintro ⟨after, hStep, _⟩
    by_contra hNot
    have hNone : s.currentSuperbloc = none := by
      simpa using hNot
    rw [step_saves_none hSaves hNone] at hStep
    cases hStep
  · intro hSome
    rcases hAnchored.step_saves hSaves hSome with
      ⟨after, hStep⟩
    refine ⟨after, hStep, fun hNone => ?_⟩
    rw [hNone] at hSome
    exact absurd hSome Bool.false_ne_true

/- A disk of zeros. -/
def blankDisk : Disk :=
  fun _ => Sector.filled 0

/- A volume is created and loaded, then saved. -/
theorem saves_safely_sample :
    ∃ s,
      run (Event.step sampleLibc)
          (boot sampleLibc 0 blankDisk)
          [.command (.new 3), .command (.loadVol 0)] =
        some s ∧
      s.SavesSafely sampleLibc (.command .saveVol) := by
  have hDefined :
      (run (Event.step sampleLibc)
        (boot sampleLibc 0 blankDisk)
        [.command (.new 3),
          .command (.loadVol 0)]).isSome := by
    decide
  rcases Option.isSome_iff_exists.mp hDefined with
    ⟨s, hRun⟩
  exact ⟨s, hRun,
    (saves_safely_iff sampleLibc 0 blankDisk _ hRun
      (e := .command .saveVol) trivial).mpr rfl⟩

/- `save_vol`, typed first, follows a null pointer. -/
theorem first_save_unsafe :
    ¬ (boot sampleLibc 0 blankDisk).SavesSafely sampleLibc
      (.command .saveVol) := by
  rintro ⟨after, hStep, _⟩
  have hUndefined :
      (Event.command .saveVol).step sampleLibc
        (boot sampleLibc 0 blankDisk) = none :=
    step_saves_none trivial rfl
  rw [hUndefined] at hStep
  cases hStep

end Session

end AsaKernel
