import AsaKernel.Vm.ShelfSteps

/-
  The life of the volume manager, seen as a shelf.

  Runs of careful events are runs of the shelf.  A block that
  the later events leave alone is read back, whatever happens
  to the other volumes and to the process.

  Main declarations:
    * `Session.shelf_in_every_run`
    * `Watched`, `Watched.step`
    * `Watched.block_kept_in_every_run`
-/

------------------------------------------------------------
-- Runs
------------------------------------------------------------

namespace AsaKernel

open Transition

namespace Session

variable {libc : Libc} {s t : Session Disk}

theorem healthy_of_run
    (hHealthy : s.Healthy)
    {events : List Event}
    (hCareful :
      Always (Event.step libc) s events
        fun u e => e.Careful u)
    (hReached : Reached (Event.step libc) s events t) :
    t.Healthy := by
  refine reached_invariant Healthy hHealthy ?_ hReached
  intro u e u' hPerforms hu hNext
  exact (step_does hu (hCareful u e hPerforms) hNext).1

/-
  The volume manager is a shelf.  In every run of careful
  events each event does to the volumes what it does to a list
  of arrays, a read returns the element of the array, and the
  events that do not walk a list are carried out.
-/
theorem shelf_in_every_run
    (libc : Libc)
    {s : Session Disk}
    (hHealthy : s.Healthy)
    (events : List Event)
    (hCareful :
      Always (Event.step libc) s events
        fun u e => e.Careful u) :
    (∀ t, run (Event.step libc) s events = some t →
      Follows Shelf.Does s.shelf events t.shelf ∧
      ∀ vol bloc, t.mbr.Addresses vol bloc →
        ∃ content,
          t.mbr.readBloc vol.toUInt32 bloc.toUInt32 t.dev =
            some (content, t.dev) ∧
          t.shelf.block? vol.toInt.toNat bloc.toInt.toNat =
            some content) ∧
    Always (Event.step libc) s events fun u e =>
      e.HasRoom libc u →
        ∃ after, e.step libc u = some after := by
  constructor
  · intro t hRun
    refine ⟨?_, fun vol bloc => shelf_block?⟩
    refine follows_of_run Healthy hHealthy ?_ hRun
    intro u e u' hPerforms hu hNext
    exact step_does hu (hCareful u e hPerforms) hNext
  · intro u e hPerforms
    apply step_defined libc _ (hCareful u e hPerforms)
    exact healthy_of_run hHealthy hCareful hPerforms.reached

/- Both volumes get contents, and the first one goes. -/
def shelving : List Event :=
  [.command .save, .command (.write 1 2 [72, 105]),
    .command (.loadVol 0), .command .saveVol,
    .restart .exit, .command (.del 0),
    .command (.format 0 7), .command (.new 4)]

theorem shelf_in_sample :
    ∃ t,
      run (Event.step sampleLibc)
          (blankSession Mbr.twoVolumes) shelving = some t ∧
        Follows Shelf.Does
          (blankSession Mbr.twoVolumes).shelf shelving
          t.shelf := by
  have hHealthy : (blankSession Mbr.twoVolumes).Healthy :=
    ⟨Mbr.diskPacked_twoVolumes, fun _ hSb => by cases hSb⟩
  rcases shelf_in_every_run sampleLibc hHealthy shelving
      (by decide) with ⟨hShelves, _⟩
  have hDefined :
      (run (Event.step sampleLibc)
        (blankSession Mbr.twoVolumes) shelving).isSome := by
    decide
  rcases Option.isSome_iff_exists.mp hDefined with
    ⟨t, hRun⟩
  exact ⟨t, hRun, (hShelves t hRun).1⟩

------------------------------------------------------------
-- One Block
------------------------------------------------------------

/- A block of the shelf, as the block functions see it. -/
theorem readBloc_of_block?
    (hDisk : s.mbr.DiskPacked)
    {vol bloc : Nat}
    {content : Sector}
    (hBlock : s.shelf.block? vol bloc = some content) :
    s.mbr.readBloc (UInt32.ofNat vol) (UInt32.ofNat bloc)
      s.dev = some (content, s.dev) := by
  rcases Option.bind_eq_some_iff.mp hBlock with
    ⟨blocks, hBlocks, hContent⟩
  have hVol : vol < s.mbr.entries.length := by
    have hLength := (List.getElem?_eq_some_iff.mp hBlocks).1
    simpa [shelf, Mbr.contents, Mbr.regions] using hLength
  have hRegion :
      blocks = s.mbr.entries[vol].region.map s.dev := by
    simp only [shelf, Mbr.contents, Mbr.regions,
      Regions.contents, List.getElem?_map,
      List.getElem?_eq_getElem hVol, Option.map_some,
      Option.some.injEq] at hBlocks
    exact hBlocks.symm
  subst hRegion
  have hBloc :
      bloc < s.mbr.entries[vol].nbBlocs.toInt.toNat := by
    have hLength := (List.getElem?_eq_some_iff.mp hContent).1
    simpa using hLength
  have hIndex := Volume.toNat_ofNat_of_lt hBloc
  have hSector :=
    Volume.getElem?_region (v := s.mbr.entries[vol])
      (b := UInt32.ofNat bloc) (by omega)
  rw [hIndex] at hSector
  rw [List.getElem?_map, hSector, Option.map_some,
    Option.some.injEq] at hContent
  rcases Mbr.hasBlock_entry hDisk.packed.count_le hVol
      (b := UInt32.ofNat bloc) (by omega) with
    ⟨_, _, hAddr⟩
  rw [Mbr.readBloc_eq hAddr, hContent]

end Session

/- A session, and the number that a volume has in it. -/
structure Watched where
  session : Session Disk
  vol : Nat

namespace Watched

/- The number follows the volume when another one goes. -/
def step
    (libc : Libc)
    (w : Watched)
    (e : Event) : Option Watched := do
  let session ← e.step libc w.session
  some ⟨session, e.renumber w.vol⟩

/- The watched block, as the events leave it. -/
theorem block?_of_run
    {libc : Libc}
    {w w' : Watched}
    {bloc : Nat}
    {content : Sector}
    (hHealthy : w.session.Healthy)
    (hBlock :
      w.session.shelf.block? w.vol bloc = some content)
    {events : List Event}
    (hLeaves :
      Always (step libc) w events fun u e =>
        e.Careful u.session ∧
          e.Leaves u.session.shelf u.vol bloc)
    (hRun : run (step libc) w events = some w') :
    w'.session.Healthy ∧
      w'.session.shelf.block? w'.vol bloc = some content := by
  refine reached_invariant
    (fun w : Watched =>
      w.session.Healthy ∧
        w.session.shelf.block? w.vol bloc = some content)
    ⟨hHealthy, hBlock⟩ ?_ (reached_of_run hRun)
  rintro u e u' hPerforms ⟨hu, hBefore⟩ hNext
  rcases hLeaves u e hPerforms with ⟨hCareful, hOther⟩
  rcases Option.bind_eq_some_iff.mp hNext with
    ⟨t, hStep, hAfter⟩
  cases hAfter
  rcases Session.step_does hu hCareful hStep with
    ⟨ht, hDoes⟩
  exact ⟨ht, hDoes.block?_renumber hOther hBefore⟩

/- A number that is not negative, as an `unsigned int`. -/
theorem ofNat_toNat_of_nonneg
    {x : Int32}
    (hLow : 0 ≤ x.toInt) :
    UInt32.ofNat x.toInt.toNat = x.toUInt32 := by
  have hNat := FixedWidth.toNat_toUInt32_of_nonneg hLow
  have hRange := FixedWidth.toInt_range x
  apply UInt32.toNat_inj.mp
  rw [UInt32.toNat_ofNat', Nat.mod_eq_of_lt (by omega)]
  omega

/-
  A block keeps its content in every run of careful events
  that put nothing into it: writes and formats elsewhere,
  loads and saves of other volumes, creations, deletions that
  renumber its volume, and new processes.
-/
theorem block_kept_in_every_run
    (libc : Libc)
    {s : Session Disk}
    (hHealthy : s.Healthy)
    {vol bloc : Int32}
    (hAddresses : s.mbr.Addresses vol bloc)
    {content : Sector}
    (hRead :
      s.mbr.readBloc vol.toUInt32 bloc.toUInt32 s.dev =
        some (content, s.dev))
    (events : List Event)
    (hLeaves :
      Always (step libc) ⟨s, vol.toInt.toNat⟩ events
        fun w e =>
          e.Careful w.session ∧
            e.Leaves w.session.shelf w.vol
              bloc.toInt.toNat) :
    ∀ w,
      run (step libc) ⟨s, vol.toInt.toNat⟩ events = some w →
        w.session.mbr.readBloc (UInt32.ofNat w.vol)
            bloc.toUInt32 w.session.dev =
          some (content, w.session.dev) := by
  intro w hRun
  have hStart :
      s.shelf.block? vol.toInt.toNat bloc.toInt.toNat =
        some content := by
    rcases Session.shelf_block? hAddresses with
      ⟨content', hRead', hBlock⟩
    cases hRead'.symm.trans hRead
    exact hBlock
  rcases block?_of_run hHealthy hStart hLeaves hRun with
    ⟨hAfter, hKept⟩
  rcases hAddresses with ⟨_, v, _, hLow, _⟩
  rw [← ofNat_toNat_of_nonneg hLow]
  exact Session.readBloc_of_block? hAfter.disk hKept

/- Two volumes on a disk with text in one of the blocks. -/
def textSession : Session Disk :=
  { Session.blankSession Mbr.twoVolumes with
    dev :=
      Function.update (fun _ => Sector.filled 0) (0, 6)
        (Sector.filled 7) }

/- The volume with the text is 1, and then 0. -/
def elsewhere : List Event :=
  [.command (.write 1 3 [72, 105]), .command (.loadVol 0),
    .command .saveVol, .command (.format 0 9),
    .command (.del 0), .command (.new 4), .command .save,
    .restart .exit]

theorem block_kept_in_sample :
    ∃ w,
      run (step Session.sampleLibc) ⟨textSession, 1⟩
          elsewhere = some w ∧
        w.vol = 0 ∧
        w.session.mbr.readBloc (UInt32.ofNat w.vol) 2
            w.session.dev =
          some (Sector.filled 7, w.session.dev) := by
  have hHealthy : textSession.Healthy :=
    ⟨Mbr.diskPacked_twoVolumes, fun _ hSb => by cases hSb⟩
  have hVol : (1 : Int32).toInt.toNat = 1 := by decide
  have hBloc : (2 : Int32).toUInt32 = 2 := by decide
  have hAddr :
      textSession.mbr.cytToSect (1 : Int32).toUInt32
        (2 : Int32).toUInt32 = some (0, 6) := by
    decide
  have hRead :
      textSession.mbr.readBloc (1 : Int32).toUInt32
          (2 : Int32).toUInt32 textSession.dev =
        some (Sector.filled 7, textSession.dev) := by
    rw [Mbr.readBloc_eq hAddr]
    rfl
  have hFinal :
      (run (step Session.sampleLibc) ⟨textSession, 1⟩
        elsewhere).map Watched.vol = some 0 := by
    decide
  rcases Option.map_eq_some_iff.mp hFinal with
    ⟨w, hRun, hZero⟩
  have hBlock : textSession.mbr.Addresses 1 2 := by decide
  have hKept :=
    block_kept_in_every_run Session.sampleLibc hHealthy
      hBlock hRead elsewhere (by decide) w
  rw [hVol, hBloc] at hKept
  exact ⟨w, hRun, hZero, hKept hRun⟩

end Watched

end AsaKernel
