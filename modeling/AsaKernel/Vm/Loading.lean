import AsaKernel.Vm.Commands
import AsaKernel.Volume.Isolation

/-
  Loading and saving a volume on the sector-level disk.

  The superblock of a volume lies in its first sector.  A load
  either trusts what this sector holds or initialises the
  volume; a save replaces this sector.

  Main declarations:
    * `storedSuperbloc`, `CarriesMagic`
    * `Session.saveSuper_eq`
    * `Session.loadVol_trusts`
    * `Session.loadVol_eq_init`
    * `Session.LoadedFresh`, `Session.loadVol_initialises`
    * `Session.loadVol_spares`
-/

------------------------------------------------------------
-- Superblocks on the Disk
------------------------------------------------------------

namespace AsaKernel

/- What the first sector of a volume spells as a superblock. -/
def storedSuperbloc
    (disk : Disk)
    (v : Volume) : Superbloc :=
  Superbloc.layout.decode (disk v.firstSector).toList

/- The first sector of the volume starts with MAGIC. -/
def CarriesMagic
    (disk : Disk)
    (v : Volume) : Prop :=
  (storedSuperbloc disk v).magic = magicNumber

instance (disk : Disk) (v : Volume) :
    Decidable (CarriesMagic disk v) :=
  inferInstanceAs (Decidable (_ = _))

namespace Session

variable (libc : Libc) {s after : Session Disk}
variable {v : Volume}

/- Saving replaces the first sector of the current volume. -/
theorem saveSuper_eq
    {sb : Superbloc}
    (hSb : s.currentSuperbloc = some sb)
    (hSlot : s.mbr.volume? s.currentVol.toInt = some v)
    (hPlaced : v.Placed) :
    ∃ image : Sector,
      Superbloc.layout.decode image.toList = sb ∧
      s.saveSuper libc = some
        { s with
          currentSuperbloc := none
          heap := s.heap.scratch
          dev :=
            Function.update s.dev v.firstSector image } := by
  have hFits : Superbloc.layout.size ≤ hdaSectorSize := by
    decide
  refine ⟨_, Sector.decode_memcpy _ hFits
    (libc.garbage s.heap.calls) sb, ?_⟩
  rw [← Mbr.volume?_toUInt32] at hSlot
  simp only [saveSuper, hSb,
    Mbr.writeBloc_eq (Mbr.cytToSect_zero hSlot hPlaced),
    Option.bind_eq_bind, Option.bind_some]
  rfl

/- Without a superblock there is nothing to save. -/
theorem saveSuper_none
    (hSb : s.currentSuperbloc = none) :
    s.saveSuper libc = none := by
  simp [saveSuper, hSb]

variable {choice : Int32}
variable (hSlot : s.mbr.volume? choice.toInt = some v)
variable (hPlaced : v.Placed)

include hSlot hPlaced

theorem readBloc_zero :
    s.mbr.readBloc choice.toUInt32 0 s.dev =
      some (s.dev v.firstSector, s.dev) := by
  rw [← Mbr.volume?_toUInt32] at hSlot
  exact Mbr.readBloc_eq (Mbr.cytToSect_zero hSlot hPlaced)
    s.dev

/- A superblock with the magic number is taken as it is. -/
theorem loadVol_trusts
    (hMagic : CarriesMagic s.dev v) :
    s.loadVol libc choice = some
      { s with
        currentSuperbloc := some (storedSuperbloc s.dev v)
        currentVol := choice
        heap := s.heap.scratch.scratch } := by
  have hTrust :
      ¬ (Superbloc.layout.decode
          (s.dev v.firstSector).toList).magic ≠
        magicNumber :=
    not_not.mpr hMagic
  simp only [loadVol, loadSuper,
    readBloc_zero hSlot hPlaced, if_neg hTrust,
    Option.bind_eq_bind, Option.bind_some]
  rfl

omit hSlot hPlaced

/-
  The session after a load that initialised the volume: a new
  list of the blocks 1, ..., n - 1, apart from every older
  cell, and a disk on which only blocks below `n` changed.
-/
structure LoadedFresh
    (before after : Session Disk)
    (choice : Int32)
    (v : Volume)
    (n : Nat) : Prop where
  list :
    ∃ sb nodes,
      after.currentSuperbloc = some sb ∧
      sb.magic = magicNumber ∧
      Chain ListBloc.next after.heap sb.first nodes ∧
      blocNumbers nodes = blocsBelow n ∧
      ∀ q ∈ nodes.map Prod.fst, before.heap.load q = none
  extends_heap : after.heap.Extends before.heap
  mbr_eq : after.mbr = before.mbr
  buffer_eq : after.buffer = before.buffer
  currentVol_eq : after.currentVol = choice
  dev_eq :
    ∀ addr,
      (∀ b : UInt32, b.toNat < n →
        sectorAddr (v.locate b) ≠ addr) →
      after.dev addr = before.dev addr

include hSlot hPlaced

/- Without the magic number the volume is initialised. -/
theorem loadVol_eq_init
    (hMagic : ¬ CarriesMagic s.dev v) :
    s.loadVol libc choice =
      (initVolume libc choice.toUInt32
        { s with
          currentSuperbloc :=
            some (storedSuperbloc s.dev v)
          heap := s.heap.scratch.scratch }).bind
        fun init =>
          some { init with currentVol := choice } := by
  have hNotTrust :
      (Superbloc.layout.decode
          (s.dev v.firstSector).toList).magic ≠
        magicNumber :=
    hMagic
  simp only [loadVol, loadSuper,
    readBloc_zero hSlot hPlaced, if_pos hNotTrust,
    Option.bind_eq_bind, Option.bind_some,
    Option.bind_assoc]
  rfl

/- The volume then has a list of its blocks. -/
theorem loadVol_initialises
    (hMagic : ¬ CarriesMagic s.dev v)
    {n : Nat}
    (hSize : max v.nbBlocs.toInt 2 = n) :
    (∀ after, s.loadVol libc choice = some after →
      LoadedFresh s after choice v n) ∧
    (s.heap.size + n ≤ libc.nodes.capacity →
      ∃ after, s.loadVol libc choice = some after) := by
  have hLoad := loadVol_eq_init libc hSlot hPlaced hMagic
  have hSlot' := hSlot
  rw [← Mbr.volume?_toUInt32] at hSlot'
  have hWrites :
      WritesKeep s.mbr choice.toUInt32 n fun dev : Disk =>
        ∀ addr,
          (∀ b : UInt32, b.toNat < n →
            sectorAddr (v.locate b) ≠ addr) →
          dev addr = s.dev addr := by
    intro b buffer dev dev' hb hDev hWrite addr hOutside
    have hAddr :
        s.mbr.cytToSect choice.toUInt32 b =
          some (v.locate b) :=
      Mbr.cytToSect_eq hSlot' b
    rw [Mbr.writeBloc_eq hAddr] at hWrite
    cases hWrite
    rw [Function.update_of_ne (hOutside b hb).symm]
    exact hDev addr hOutside
  rcases initVolume_spec libc
      (s :=
        { s with
          currentSuperbloc := some (storedSuperbloc s.dev v)
          heap := s.heap.scratch.scratch })
      hSlot' hSize hWrites (fun _ _ => rfl) with
    ⟨hPost, hDefined⟩
  rw [hLoad]
  constructor
  · intro after hAfter
    rcases Option.bind_eq_some_iff.mp hAfter with
      ⟨init, hInit, hCurrent⟩
    cases hCurrent
    rcases hPost init hInit with ⟨hFresh, hDev⟩
    exact
      { list := hFresh.list
        extends_heap := hFresh.extends_heap
        mbr_eq := hFresh.mbr_eq
        buffer_eq := hFresh.buffer_eq
        currentVol_eq := rfl
        dev_eq := hDev }
  · intro hRoom
    rcases hDefined hRoom with ⟨init, hInit⟩
    exact ⟨_, by rw [hInit]; rfl⟩

omit hSlot hPlaced

/-
  A load of an existing volume leaves the superblock of `v` on
  the disk alone, unless it initialises `v` itself or a volume
  of one block right before it.
-/
theorem loadVol_spares
    (hDisk : s.mbr.DiskPacked)
    {vol : Int32}
    (hExists : s.mbr.Exists vol)
    (hSlot : s.mbr.volume? vol.toInt = some v)
    (hOwn : CarriesMagic s.dev v ∨ choice ≠ vol)
    (hChoice : s.mbr.Exists choice)
    (hSpared :
      ∀ w ∈ s.mbr.volume? choice.toInt,
        CarriesMagic s.dev w ∨ 2 ≤ w.nbBlocs.toInt ∨
          w.fin ≠ v.start)
    (hLoad : s.loadVol libc choice = some after) :
    after.mbr = s.mbr ∧
      storedSuperbloc after.dev v =
        storedSuperbloc s.dev v ∧
      after.heap.Extends s.heap := by
  rcases hDisk.exists_volume hChoice with
    ⟨w, hSlot', hMem⟩
  have hPlaced := hDisk.packed.placed w hMem
  by_cases hTrust : CarriesMagic s.dev w
  · cases (loadVol_trusts libc hSlot' hPlaced
      hTrust).symm.trans hLoad
    exact ⟨rfl, rfl, fun _ _ hLive => hLive⟩
  · have hOther : choice ≠ vol := by
      rcases hOwn with hMagic | hNe
      · rintro rfl
        cases hSlot.symm.trans hSlot'
        exact hTrust hMagic
      · exact hNe
    have hAfter := (hSpared w hSlot').resolve_left hTrust
    rcases loadVol_initialises libc hSlot' hPlaced hTrust
        (n := (max w.nbBlocs.toInt 2).toNat) (by omega) with
      ⟨hPost, _⟩
    have hFresh := hPost after hLoad
    refine ⟨hFresh.mbr_eq, ?_, hFresh.extends_heap⟩
    rw [storedSuperbloc, hFresh.dev_eq]
    · rfl
    · intro b hb
      exact hDisk.locate_ne_firstSector hExists hSlot
        hChoice hSlot' hOther hAfter (by omega)

/- A load is defined when there is memory for the list. -/
theorem loadVol_defined
    (libc : Libc)
    (hDisk : s.mbr.DiskPacked)
    {choice : Int32}
    (hExists : s.mbr.Exists choice)
    (hOwn :
      ∀ v ∈ s.mbr.volume? choice.toInt,
        CarriesMagic s.dev v ∨ 2 ≤ v.nbBlocs.toInt)
    (hRoom :
      ∀ v ∈ s.mbr.volume? choice.toInt,
        s.heap.size + v.nbBlocs.toInt ≤
          libc.nodes.capacity) :
    ∃ after, s.loadVol libc choice = some after := by
  rcases hDisk.exists_volume hExists with
    ⟨v, hSlot, hMem⟩
  have hPlaced := hDisk.packed.placed v hMem
  by_cases hMagic : CarriesMagic s.dev v
  · exact ⟨_, loadVol_trusts libc hSlot hPlaced hMagic⟩
  · have hSize := (hOwn v hSlot).resolve_left hMagic
    have hMemory := hRoom v hSlot
    have hBlocks :
        max v.nbBlocs.toInt 2 = v.nbBlocs.toInt.toNat := by
      omega
    apply (loadVol_initialises libc hSlot hPlaced hMagic
      hBlocks).2
    omega

end Session

end AsaKernel
