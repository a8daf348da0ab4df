import AsaKernel.Foundations.Simulation
import AsaKernel.Vm.Commands

/-
  What the volume manager keeps for its user: a numbered list
  of volumes, each an array of sectors, the text that `write`
  has scanned so far and the number of the loaded volume.
  There is no disk, no table of positions and no address here.

  A load of a volume without a superblock, a save and a new
  volume leave open the bytes that the program does not
  determine.

  Main declarations:
    * `Shelf`, `Shelf.block?`, `Shelf.put`, `Shelf.fill`
    * `Shelf.Enlisted`
    * `Shelf.Does`
    * `Event.renumber`, `Event.Leaves`
    * `Shelf.Does.block?_renumber`
-/

------------------------------------------------------------
-- Shelves
------------------------------------------------------------

namespace AsaKernel

open Transition

structure Shelf where
  volumes : List (List Sector)
  buffer : Sector
  loaded : Option Int32
deriving DecidableEq

namespace Shelf

/- A block of a volume. -/
def block?
    (x : Shelf)
    (vol bloc : Nat) : Option Sector :=
  x.volumes[vol]?.bind fun blocks => blocks[bloc]?

/- The shelf with another content of one block. -/
def put
    (x : Shelf)
    (vol bloc : Nat)
    (content : Sector) : Shelf :=
  { x with
    volumes :=
      x.volumes.modify vol fun blocks =>
        blocks.set bloc content }

/- The shelf with one content in every block of a volume. -/
def fill
    (x : Shelf)
    (vol : Nat)
    (content : Sector) : Shelf :=
  { x with
    volumes :=
      x.volumes.modify vol fun blocks =>
        List.replicate blocks.length content }

/- The sector reads as a superblock with MAGIC. -/
def IsSuper
    (content : Sector) : Prop :=
  (Superbloc.layout.decode content.toList).magic =
    magicNumber

/- The first block of the volume is a superblock. -/
def Marked
    (x : Shelf)
    (vol : Int32) : Prop :=
  ∃ content ∈ x.block? vol.toInt.toNat 0,
    IsSuper content

/-
  The blocks of an initialised volume: a superblock, then the
  node of every other block.
-/
def Enlisted
    (blocks : List Sector) : Prop :=
  (∀ content, blocks[0]? = some content →
    IsSuper content) ∧
  ∀ (k : Nat) content, 1 ≤ k → blocks[k]? = some content →
    (ListBloc.layout.decode content.toList).magic =
        magicNumber ∧
      (ListBloc.layout.decode content.toList).posBloc.toInt =
        k

end Shelf

------------------------------------------------------------
-- Steps
------------------------------------------------------------

/- The commands that change no block and load nothing. -/
def Command.Idle : Command → Prop
| .list | .read _ _ | .listVol | .newVol | .delVol _
| .save => True
| _ => False

/- What an event may do to a shelf. -/
inductive Shelf.Does : Shelf → Event → Shelf → Prop
| idle (x : Shelf)
    {cmd : Command}
    (hIdle : cmd.Idle) :
    Does x (.command cmd) x
| write (x : Shelf)
    {vol bloc : Int32}
    {word : List UInt8}
    {buffer : Sector}
    (hScan : scanWord word x.buffer = some buffer) :
    Does x (.command (.write vol bloc word))
      { x.put vol.toInt.toNat bloc.toInt.toNat buffer with
        buffer := buffer }
| format (x : Shelf)
    (vol value : Int32) :
    Does x (.command (.format vol value))
      (x.fill vol.toInt.toNat
        (Sector.filled value.toUInt32))
| trust (x : Shelf)
    {choice : Int32}
    (hMarked : x.Marked choice) :
    Does x (.command (.loadVol choice))
      { x with loaded := some choice }
| enlist (x : Shelf)
    {choice : Int32}
    {old blocks : List Sector}
    (hOld : x.volumes[choice.toInt.toNat]? = some old)
    (hUnmarked : ¬ x.Marked choice)
    (hLength : blocks.length = old.length)
    (hEnlisted : Shelf.Enlisted blocks) :
    Does x (.command (.loadVol choice))
      { x with
        volumes := x.volumes.set choice.toInt.toNat blocks
        loaded := some choice }
| saveVol (x : Shelf)
    {vol : Int32}
    {image : Sector}
    (hLoaded : x.loaded = some vol)
    (hSuper : Shelf.IsSuper image) :
    Does x (.command .saveVol)
      { x.put vol.toInt.toNat 0 image with loaded := none }
| full (x : Shelf)
    (nbloc : Int32)
    (hFull : x.volumes.length = 8) :
    Does x (.command (.new nbloc)) x
| new (x : Shelf)
    {nbloc : Int32}
    {blocks : List Sector}
    (hRoom : x.volumes.length < 8)
    (hLength : blocks.length = nbloc.toInt.toNat) :
    Does x (.command (.new nbloc))
      { x with volumes := x.volumes ++ [blocks] }
| del (x : Shelf)
    (vol : Int32) :
    Does x (.command (.del vol))
      { x with
        volumes := x.volumes.eraseIdx vol.toInt.toNat }
| exit (x : Shelf)
    (buffer : Sector) :
    Does x (.restart .exit)
      { x with buffer := buffer, loaded := none }
| quit (x : Shelf)
    {vol : Int32}
    {image : Sector}
    (hLoaded : x.loaded = some vol)
    (hSuper : Shelf.IsSuper image)
    (buffer : Sector) :
    Does x (.restart .quit)
      { x.put vol.toInt.toNat 0 image with
        buffer := buffer
        loaded := none }

------------------------------------------------------------
-- A Block and Its Number
------------------------------------------------------------

/- The number of a volume after the event. -/
def Event.renumber
    (vol : Nat) : Event → Nat
| .command (.del gone) =>
    if gone.toInt.toNat < vol then vol - 1 else vol
| _ => vol

/- The event does not put anything into the block. -/
def Event.Leaves
    (x : Shelf)
    (vol bloc : Nat) : Event → Prop
| .command (.write vol' bloc' _) =>
    vol'.toInt.toNat = vol → bloc'.toInt.toNat ≠ bloc
| .command (.format vol' _) => vol'.toInt.toNat ≠ vol
| .command (.loadVol choice) =>
    choice.toInt.toNat = vol → x.Marked choice
| .command .saveVol | .restart .quit =>
    ∀ vol' ∈ x.loaded, vol'.toInt.toNat = vol → 0 < bloc
| .command (.del gone) => gone.toInt.toNat ≠ vol
| _ => True

instance :
    DecidablePred Shelf.IsSuper :=
  fun content =>
    inferInstanceAs
      (Decidable
        ((Superbloc.layout.decode content.toList).magic =
          magicNumber))

/- A sector is one of very many, an option holds one. -/
instance (x : Shelf) (vol : Int32) :
    Decidable (x.Marked vol) :=
  Option.decidableExistsMem (x.block? vol.toInt.toNat 0)

instance (x : Shelf) (vol bloc : Nat) (e : Event) :
    Decidable (e.Leaves x vol bloc) :=
  match e with
  | .command (.write _ _ _) =>
      inferInstanceAs (Decidable (_ = _ → _ ≠ _))
  | .command (.format _ _) | .command (.del _) =>
      inferInstanceAs (Decidable (_ ≠ _))
  | .command (.loadVol choice) =>
      inferInstanceAs (Decidable (_ = _ → x.Marked choice))
  | .command .saveVol | .restart .quit =>
      Option.decidableForallMem x.loaded
  | .command .list | .command (.read _ _)
  | .command .listVol | .command .newVol
  | .command (.delVol _) | .command (.new _)
  | .command .save | .restart .exit => isTrue trivial

theorem Command.Idle.renumber
    {cmd : Command}
    (hIdle : cmd.Idle)
    (vol : Nat) :
    (Event.command cmd).renumber vol = vol := by
  cases cmd with
  | del gone => exact hIdle.elim
  | list | read _ _ | write _ _ _ | format _ _ | loadVol _
  | saveVol | listVol | newVol | delVol _ | new _ | save =>
      rfl

namespace Shelf

variable {x y : Shelf} {vol bloc vol' bloc' : Nat}
variable {content : Sector}

theorem block?_put_of_ne
    (hNe : vol' = vol → bloc' ≠ bloc) :
    (x.put vol' bloc' content).block? vol bloc =
      x.block? vol bloc := by
  unfold block? put
  dsimp only
  by_cases hVol : vol' = vol
  · subst hVol
    rw [List.getElem?_modify_eq]
    cases hSlot : x.volumes[vol']? with
    | none => rfl
    | some blocks =>
        exact List.getElem?_set_ne (hNe rfl)
  · rw [List.getElem?_modify_ne _ _ hVol]

theorem block?_fill_of_ne
    (hNe : vol' ≠ vol) :
    (x.fill vol' content).block? vol bloc =
      x.block? vol bloc := by
  unfold block? fill
  dsimp only
  rw [List.getElem?_modify_ne _ _ hNe]

/- A volume with a block is one of the volumes. -/
theorem lt_length_of_block?
    (hBlock : x.block? vol bloc = some content) :
    vol < x.volumes.length := by
  rcases Option.bind_eq_some_iff.mp hBlock with
    ⟨blocks, hSlot, _⟩
  exact (List.getElem?_eq_some_iff.mp hSlot).1

/-
  An event that leaves a block alone keeps its content, under
  the number that its volume then has.
-/
theorem Does.block?_renumber
    {e : Event}
    (hDoes : Does x e y)
    (hLeaves : e.Leaves x vol bloc)
    (hBlock : x.block? vol bloc = some content) :
    y.block? (e.renumber vol) bloc = some content := by
  cases hDoes with
  | idle hIdle =>
      rw [hIdle.renumber]
      exact hBlock
  | write hScan =>
      exact (block?_put_of_ne hLeaves).trans hBlock
  | format vol' value =>
      exact (block?_fill_of_ne hLeaves).trans hBlock
  | trust hMarked => exact hBlock
  | enlist hOld hUnmarked hLength hEnlisted =>
      refine Eq.trans ?_ hBlock
      unfold block?
      dsimp only [Event.renumber]
      rw [List.getElem?_set_ne]
      intro hSame
      exact hUnmarked (hLeaves hSame)
  | saveVol hLoaded hSuper =>
      refine (block?_put_of_ne fun hSame => ?_).trans hBlock
      exact (hLeaves _ hLoaded hSame).ne
  | full nbloc hFull => exact hBlock
  | new hRoom hLength =>
      refine Eq.trans ?_ hBlock
      unfold block?
      dsimp only [Event.renumber]
      rw [List.getElem?_append_left
        (lt_length_of_block? hBlock)]
  | del gone =>
      have hNe : gone.toInt.toNat ≠ vol := hLeaves
      refine Eq.trans ?_ hBlock
      unfold block?
      dsimp only [Event.renumber]
      rw [List.getElem?_eraseIdx]
      by_cases hBelow : gone.toInt.toNat < vol
      · -- The volume moves down by one.
        have hMoved :
            ¬ vol - 1 < gone.toInt.toNat := by
          omega
        have hBack : vol - 1 + 1 = vol := by omega
        rw [if_pos hBelow, if_neg hMoved, hBack]
      · rw [if_neg hBelow, if_pos (by omega)]
  | exit buffer => exact hBlock
  | quit hLoaded hSuper buffer =>
      refine (block?_put_of_ne fun hSame => ?_).trans hBlock
      exact (hLeaves _ hLoaded hSame).ne

end Shelf

end AsaKernel
