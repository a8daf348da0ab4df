import AsaKernel.Superbloc.FreeList
import AsaKernel.Volume.DiskBounds

/-
  The commands of the volume manager (vm.c), each with the
  answers that the user types, and the life of the program
  from one start to the next.

  Main declarations:
    * `scanWord`
    * `Command`, `Command.exec`
    * `boot`, `Ending`, `Event`, `Event.step`
    * `Session.loadVol_cases`, `Command.exec_sameVolume`
-/

------------------------------------------------------------
-- Commands
------------------------------------------------------------

namespace AsaKernel

/-
  `scanf("%s", buffer)`: the word and its terminating zero
  replace the first bytes.  A longer word overflows.
-/
def scanWord
    (word : List UInt8)
    (buffer : Sector) : Option Sector :=
  if word.length < hdaSectorSize then
    some (buffer.memcpy (word ++ [0]))
  else none

/- The commands that do more than print a constant text. -/
inductive Command where
  | list
  | read (vol bloc : Int32)
  | write (vol bloc : Int32) (word : List UInt8)
  | format (vol value : Int32)
  | loadVol (choice : Int32)
  | saveVol
  | listVol
  | newVol
  | delVol (choice : Int32)
  | new (nbloc : Int32)
  | del (vol : Int32)
  | save
deriving DecidableEq, Repr

namespace Session

variable {δ : Type} [Drive δ]

/- display_current_vol -/
def displayCurrentVol
    (s : Session δ) : Option (Session δ) :=
  match s.currentSuperbloc with
  | none => some s
  | some sb => do
      let _ ←
        s.heap.walk ListBloc.next (s.heap.size + 1) sb.first
      some s

/- load_vol -/
def loadVol
    (libc : Libc)
    (choice : Int32)
    (s : Session δ) : Option (Session δ) := do
  let (currentVol, s) ← s.loadSuper libc choice.toUInt32
  some { s with currentVol := currentVol }

/- save, the command -/
def save
    (libc : Libc)
    (s : Session δ) : Session δ :=
  { s with
    heap := s.heap.scratch
    dev := saveMbr (libc.garbage s.heap.calls) s.mbr s.dev }

/- quit, up to the end of the process -/
def quit
    (libc : Libc)
    (s : Session δ) : Option (Session δ) :=
  (s.save libc).saveSuper libc

end Session

variable {δ : Type} [Drive δ]

namespace Command

/- Execute one command. -/
def exec
    (libc : Libc)
    (s : Session δ) : Command → Option (Session δ)
| .list => if s.mbr.count ≤ 8 then some s else none
| .read vol bloc => do
    let (_, dev) ←
      s.mbr.readBloc vol.toUInt32 bloc.toUInt32 s.dev
    some { s with dev := dev }
| .write vol bloc word => do
    let buffer ← scanWord word s.buffer
    let dev ←
      s.mbr.writeBloc vol.toUInt32 bloc.toUInt32 buffer
        s.dev
    some { s with buffer := buffer, dev := dev }
| .format vol value => do
    let dev ←
      s.mbr.formatVol vol.toUInt32 value.toUInt32 s.dev
    some { s with dev := dev }
| .loadVol choice => s.loadVol libc choice
| .saveVol => s.saveSuper libc
| .listVol => s.displayCurrentVol
| .newVol => do
    let (_, s) ← s.newBloc
    some s
| .delVol choice => do
    let (_, s) ← s.freeBloc libc choice.toUInt32
    some s
| .new nbloc => do
    let mbr ← s.mbr.new nbloc
    some { s with mbr := mbr }
| .del vol => do
    let mbr ← s.mbr.del vol
    some { s with mbr := mbr }
| .save => some (s.save libc)

end Command

------------------------------------------------------------
-- Processes
------------------------------------------------------------

/-
  The start of a process: an empty heap, and the table that
  the disk holds.  `calls` goes on counting, so that memory
  may be handed out differently in each process.
-/
def boot
    (libc : Libc)
    (calls : Nat)
    (dev : δ) : Session δ :=
  { mbr := (loadMbr dev).1
    buffer := libc.garbage calls
    currentSuperbloc := none
    currentVol := 0
    heap := { cells := ∅, calls := calls + 2 }
    dev := (loadMbr dev).2 }

/- How a process ends: `quit`, or `exit` and end of input. -/
inductive Ending where
  | quit
  | exit
deriving DecidableEq, Repr

/- A command, or the end of the process and a new start. -/
inductive Event where
  | command (cmd : Command)
  | restart (ending : Ending)
deriving DecidableEq, Repr

namespace Event

/- One event in the life of the program. -/
def step
    (libc : Libc)
    (s : Session δ) : Event → Option (Session δ)
| .command cmd => cmd.exec libc s
| .restart .exit => some (boot libc s.heap.calls s.dev)
| .restart .quit => do
    let s ← s.quit libc
    some (boot libc s.heap.calls s.dev)

end Event

------------------------------------------------------------
-- What a Command Can Do
------------------------------------------------------------

namespace Session

variable {libc : Libc} {s after : Session δ}

/- Initialisation only changes the loaded list and the drive. -/
theorem initVolume_frame
    {vol : UInt32}
    (hInit : s.initVolume libc vol = some after) :
    ∃ sb heap dev,
      sb.magic = magicNumber ∧
      after =
        { s with
          currentSuperbloc := some sb
          heap := heap
          dev := dev } := by
  simp only [initVolume, Option.bind_eq_bind,
    Option.bind_eq_some_iff] at hInit
  rcases hInit with
    ⟨_, _, _, _, _, _, _, _, _, _, _, _, hAfter⟩
  cases hAfter
  exact ⟨_, _, _, rfl, rfl⟩

/-
  A volume is loaded by trusting its superblock, or by
  initialising it when the superblock has no magic number.
-/
theorem loadVol_cases
    {choice : Int32}
    (hLoad : s.loadVol libc choice = some after) :
    ∃ image dev,
      s.mbr.readBloc choice.toUInt32 0 s.dev =
        some (image, dev) ∧
      (((Superbloc.layout.decode image.toList).magic =
          magicNumber ∧
        after =
          { s with
            currentSuperbloc :=
              some (Superbloc.layout.decode image.toList)
            currentVol := choice
            heap := s.heap.scratch.scratch
            dev := dev }) ∨
      ((Superbloc.layout.decode image.toList).magic ≠
          magicNumber ∧
        ∃ init,
          initVolume libc choice.toUInt32
            { s with
              currentSuperbloc :=
                some (Superbloc.layout.decode image.toList)
              heap := s.heap.scratch.scratch
              dev := dev } = some init ∧
          after = { init with currentVol := choice })) := by
  simp only [loadVol, loadSuper, Option.bind_eq_bind,
    Option.bind_eq_some_iff] at hLoad
  rcases hLoad with
    ⟨loaded, ⟨⟨image, dev⟩, hRead, hSuper⟩, hAfter⟩
  refine ⟨image, dev, hRead, ?_⟩
  by_cases hMagic :
      (Superbloc.layout.decode image.toList).magic =
        magicNumber
  · rw [if_neg (not_not.mpr hMagic), Option.some.injEq]
      at hSuper
    subst hSuper
    cases hAfter
    exact Or.inl ⟨hMagic, rfl⟩
  · rw [if_pos hMagic, Option.bind_eq_some_iff] at hSuper
    rcases hSuper with ⟨init, hInit, hLoaded⟩
    cases hLoaded
    cases hAfter
    exact Or.inr ⟨hMagic, init, hInit, rfl⟩

/- A loaded superblock has the magic number. -/
theorem loadVol_frame
    {choice : Int32}
    (hLoad : s.loadVol libc choice = some after) :
    ∃ sb heap dev,
      sb.magic = magicNumber ∧
      after =
        { s with
          currentSuperbloc := some sb
          currentVol := choice
          heap := heap
          dev := dev } := by
  rcases loadVol_cases hLoad with
    ⟨image, dev, _, ⟨hMagic, rfl⟩ | ⟨_, init, hInit, rfl⟩⟩
  · exact ⟨_, _, _, hMagic, rfl⟩
  · rcases initVolume_frame hInit with
      ⟨sb, heap, dev', hMagic, rfl⟩
    exact ⟨sb, heap, dev', hMagic, rfl⟩

/- Saving releases the superblock. -/
theorem saveSuper_frame
    (hSave : s.saveSuper libc = some after) :
    ∃ heap dev,
      after =
        { s with
          currentSuperbloc := none
          heap := heap
          dev := dev } := by
  simp only [saveSuper, Option.bind_eq_bind,
    Option.bind_eq_some_iff] at hSave
  rcases hSave with ⟨_, _, dev, _, hAfter⟩
  cases hAfter
  exact ⟨_, _, rfl⟩

/-
  The same table, the same loaded volume, and a superblock
  with the same magic number, if there is one.
-/
structure SameVolume
    (s after : Session δ) : Prop where
  mbr_eq : after.mbr = s.mbr
  currentVol_eq : after.currentVol = s.currentVol
  magic_eq :
    after.currentSuperbloc.map Superbloc.magic =
      s.currentSuperbloc.map Superbloc.magic

omit [Drive δ] in
theorem SameVolume.refl :
    s.SameVolume s :=
  ⟨rfl, rfl, rfl⟩

omit [Drive δ] in
theorem sameVolume_relist
    {sb : Superbloc}
    (hSb : s.currentSuperbloc = some sb)
    (first : UInt64)
    (heap : Heap ListBloc) :
    s.SameVolume (s.relist sb first heap) :=
  ⟨rfl, rfl, by rw [relist_currentSuperbloc, hSb]; rfl⟩

end Session

namespace Command

/-
  The answers that the user is expected to give: volumes that
  exist, and sizes that fit the disk.
-/
def Valid
    (mbr : Mbr) : Command → Prop
| .loadVol choice => mbr.Exists choice
| .new nbloc => TableCmd.SizeFits mbr (.new nbloc)
| .del vol => TableCmd.NamesExisting mbr (.del vol)
| _ => True

instance (mbr : Mbr) (cmd : Command) :
    Decidable (cmd.Valid mbr) :=
  match cmd with
  | .loadVol choice =>
      inferInstanceAs (Decidable (mbr.Exists choice))
  | .new nbloc =>
      inferInstanceAs
        (Decidable (TableCmd.SizeFits mbr (.new nbloc)))
  | .del vol =>
      inferInstanceAs
        (Decidable (TableCmd.NamesExisting mbr (.del vol)))
  | .list | .read _ _ | .write _ _ _ | .format _ _
  | .saveVol | .listVol | .newVol | .delVol _ | .save =>
      isTrue trivial

variable {libc : Libc} {s after : Session δ}

theorem exec_list
    (hExec : exec libc s .list = some after) :
    after = s := by
  simp only [exec, Option.ite_none_right_eq_some] at hExec
  exact (Option.some.inj hExec.2).symm

theorem exec_listVol
    (hExec : exec libc s .listVol = some after) :
    after = s := by
  have hDisplay : s.displayCurrentVol = some after := hExec
  unfold Session.displayCurrentVol at hDisplay
  split at hDisplay
  · exact (Option.some.inj hDisplay).symm
  · rcases Option.bind_eq_some_iff.mp hDisplay with
      ⟨_, _, hAfter⟩
    exact (Option.some.inj hAfter).symm

theorem exec_newVol
    (hExec : exec libc s .newVol = some after) :
    ∃ res, s.newBloc = some (res, after) := by
  rcases Option.bind_eq_some_iff.mp hExec with
    ⟨⟨res, last⟩, hCall, hAfter⟩
  cases hAfter
  exact ⟨res, hCall⟩

theorem exec_delVol
    {choice : Int32}
    (hExec : exec libc s (.delVol choice) = some after) :
    ∃ res,
      s.freeBloc libc choice.toUInt32 =
        some (res, after) := by
  rcases Option.bind_eq_some_iff.mp hExec with
    ⟨⟨res, last⟩, hCall, hAfter⟩
  cases hAfter
  exact ⟨res, hCall⟩

theorem exec_new
    {nbloc : Int32}
    (hExec : exec libc s (.new nbloc) = some after) :
    ∃ mbr, s.mbr.new nbloc = some mbr ∧
      after = { s with mbr := mbr } := by
  rcases Option.bind_eq_some_iff.mp hExec with
    ⟨mbr, hNew, hAfter⟩
  exact ⟨mbr, hNew, (Option.some.inj hAfter).symm⟩

theorem exec_del
    {vol : Int32}
    (hExec : exec libc s (.del vol) = some after) :
    ∃ mbr, s.mbr.del vol = some mbr ∧
      after = { s with mbr := mbr } := by
  rcases Option.bind_eq_some_iff.mp hExec with
    ⟨mbr, hDel, hAfter⟩
  exact ⟨mbr, hDel, (Option.some.inj hAfter).symm⟩

/- The commands that change the table or what is loaded. -/
def Rebinds : Command → Prop
| .loadVol _ | .saveVol | .new _ | .del _ => True
| _ => False

/- The other commands leave the loaded volume as it is. -/
theorem exec_sameVolume
    {cmd : Command}
    (hCmd : ¬ cmd.Rebinds)
    (hExec : cmd.exec libc s = some after) :
    s.SameVolume after := by
  cases cmd with
  | loadVol _ | saveVol | new _ | del _ =>
      exact absurd trivial hCmd
  | list =>
      rw [exec_list hExec]
      exact Session.SameVolume.refl
  | listVol =>
      rw [exec_listVol hExec]
      exact Session.SameVolume.refl
  | read _ _ | write _ _ _ | format _ _ =>
      simp only [exec, Option.bind_eq_bind,
        Option.bind_eq_some_iff, Option.some.injEq] at hExec
      grind [Session.SameVolume]
  | newVol =>
      rcases exec_newVol hExec with ⟨res, hCall⟩
      rcases Session.newBloc_cases hCall with
        rfl | ⟨sb, node, hSb, _, _, _, rfl⟩
      · exact Session.SameVolume.refl
      · exact Session.sameVolume_relist hSb _ _
  | delVol choice =>
      rcases exec_delVol hExec with ⟨res, hCall⟩
      rcases Session.freeBloc_cases hCall with
        rfl | ⟨sb, _, _, _, hSb, _, _, _, _, _, _, rfl⟩
      · exact Session.SameVolume.refl
      · exact Session.sameVolume_relist hSb _ _
  | save =>
      cases hExec
      exact ⟨rfl, rfl, rfl⟩

end Command

end AsaKernel
