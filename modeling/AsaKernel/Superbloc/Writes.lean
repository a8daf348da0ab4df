import AsaKernel.Superbloc.Conservation
import AsaKernel.Volume.Isolation

/-
  The sectors that an initialisation writes (superbloc.c).

  `Logged` is the sector-level disk with a record of the
  written sectors.  `init_volume` makes a node for block 1
  before its loop, whatever the size of the volume: a volume
  of one block gets a free list with the block behind it, and
  the sector of that block is written.

  Main declarations:
    * `Logged`, `Mbr.writeBloc_logged`
    * `Session.StaysInside`
    * `Session.load_stays_inside_iff`
-/

------------------------------------------------------------
-- A Disk With a Record
------------------------------------------------------------

namespace AsaKernel

/- A sector-level disk, and the sectors written so far. -/
structure Logged where
  disk : Disk
  written : List SectorAddr

instance : Drive Logged where
  readSector ncyl nsect dev :=
    (dev.disk (ncyl, nsect), dev)
  writeSector ncyl nsect buffer dev :=
    { disk := Drive.writeSector ncyl nsect buffer dev.disk
      written := dev.written ++ [(ncyl, nsect)] }
  formatOne cylinder sector value dev :=
    { disk :=
        Drive.formatOne cylinder sector value dev.disk
      written :=
        dev.written ++
          [(cylinder.toUInt16, sector.toUInt16)] }

namespace Mbr

variable {mbr : Mbr} {vol b : UInt32}
variable {p : Int32 × Int32}

/- A write is recorded with the sector that it replaces. -/
theorem writeBloc_logged
    (hAddr : mbr.cytToSect vol b = some p)
    (buffer : Sector)
    (dev : Logged) :
    mbr.writeBloc vol b buffer dev =
      some
        { disk :=
            Function.update dev.disk (sectorAddr p) buffer
          written := dev.written ++ [sectorAddr p] } := by
  simp [writeBloc, hAddr, sectorAddr, Drive.writeSector]

/- A read is not. -/
theorem readBloc_logged
    (hAddr : mbr.cytToSect vol b = some p)
    (dev : Logged) :
    mbr.readBloc vol b dev =
      some (dev.disk (sectorAddr p), dev) := by
  simp [readBloc, hAddr, sectorAddr, Drive.readSector]

end Mbr

------------------------------------------------------------
-- Initialisation
------------------------------------------------------------

namespace Session

/-
  Only sectors of the volume were written, and only blocks of
  the volume are listed as free.
-/
def StaysInside
    (vol : UInt32)
    (v : Volume)
    (s : Session Logged) : Prop :=
  (∀ addr ∈ s.dev.written, addr ∈ s.mbr.sectors vol) ∧
    ∃ blocs, s.freeBlocs = some blocs ∧
      ∀ b ∈ blocs, (b.toNat : Int) < v.nbBlocs.toInt

variable {libc : Libc} {s after : Session Logged}
variable {vol : UInt32} {v : Volume}

/- A load without the magic number is an initialisation. -/
theorem loadSuper_eq_init
    (hSlot : s.mbr.volume? vol.toNat = some v)
    (hMagic :
      (Superbloc.layout.decode
        (s.dev.disk (sectorAddr (v.locate 0))).toList).magic ≠
      magicNumber) :
    s.loadSuper libc vol =
      (initVolume libc vol
        { s with
          currentSuperbloc :=
            some (Superbloc.layout.decode
              (s.dev.disk (sectorAddr (v.locate 0))).toList)
          heap := s.heap.scratch.scratch }).map
        fun init => (vol.toInt32, init) := by
  have hAddr := Mbr.cytToSect_eq hSlot 0
  simp only [loadSuper, Mbr.readBloc_logged hAddr,
    if_pos hMagic, Option.bind_eq_bind, Option.bind_some]
  exact (Option.map_eq_bind ..).symm

/- The writes to blocks of the volume are inside. -/
theorem writesKeep_inside
    (hSlot : s.mbr.volume? vol.toNat = some v)
    {n : Nat}
    (hSize : v.nbBlocs.toInt = n) :
    WritesKeep s.mbr vol n fun dev : Logged =>
      ∀ addr ∈ dev.written, addr ∈ s.mbr.sectors vol := by
  intro b buffer dev dev' hb hDev hWrite
  have hAddr := Mbr.cytToSect_eq hSlot b
  rw [Mbr.writeBloc_logged hAddr] at hWrite
  cases hWrite
  intro addr hMem
  rcases List.mem_append.mp hMem with hBefore | hNew
  · exact hDev addr hBefore
  · rw [List.mem_singleton.mp hNew]
    exact ⟨_, ⟨v, b, hSlot, by omega, hAddr⟩, rfl⟩

/- The list has the blocks 1, ..., n - 1, or block 1. -/
theorem InitialisedFrom.freeBlocs
    {before : Session Logged}
    {n : Nat}
    (hInit : InitialisedFrom before s n) :
    s.freeBlocs = some (blocsBelow n) := by
  rcases hInit.list with
    ⟨sb, nodes, hSb, _, hChain, hBlocs, _⟩
  rw [← hBlocs]
  exact Lists.freeBlocs ⟨sb, hSb, hChain⟩

/-
  A load that initialises the volume stays inside it exactly
  when the volume has a block besides the first one.
-/
theorem load_stays_inside_iff
    (libc : Libc)
    (s : Session Logged)
    (vol : UInt32)
    (v : Volume)
    (hSlot : s.mbr.volume? vol.toNat = some v)
    (hSize : 1 ≤ v.nbBlocs.toInt)
    (hMagic :
      (Superbloc.layout.decode
        (s.dev.disk (sectorAddr (v.locate 0))).toList).magic ≠
      magicNumber)
    (hNew : s.dev.written = []) :
    (s.heap.size + (max v.nbBlocs.toInt 2).toNat ≤
        libc.nodes.capacity →
      (s.loadSuper libc vol).isSome) ∧
    ∀ res after,
      s.loadSuper libc vol = some (res, after) →
        (StaysInside vol v after ↔
          2 ≤ v.nbBlocs.toInt) := by
  have hRange := FixedWidth.toInt_range v.nbBlocs
  let opened : Session Logged :=
    { s with
      currentSuperbloc :=
        some (Superbloc.layout.decode
          (s.dev.disk (sectorAddr (v.locate 0))).toList)
      heap := s.heap.scratch.scratch }
  have hMax :
      max v.nbBlocs.toInt 2 =
        ((max v.nbBlocs.toInt 2).toNat : Nat) := by
    omega
  have hAny :
      WritesKeep opened.mbr vol
        (max v.nbBlocs.toInt 2).toNat
        fun _ : Logged => True :=
    fun _ _ _ _ _ _ _ => trivial
  rcases initVolume_spec (s := opened) libc hSlot hMax hAny
      trivial with ⟨hPost, hDefined⟩
  rw [loadSuper_eq_init hSlot hMagic]
  refine ⟨?_, ?_⟩
  · intro hRoom
    rcases hDefined hRoom with ⟨init, hInit⟩
    rw [Option.isSome_map]
    exact Option.isSome_iff_exists.mpr ⟨init, hInit⟩
  · intro res after hLoad
    rcases Option.map_eq_some_iff.mp hLoad with
      ⟨init, hInit, hResult⟩
    cases hResult
    have hFree := (hPost after hInit).1.freeBlocs
    constructor
    · rintro ⟨_, blocs, hBlocs, hInside⟩
      -- Block 1 is always in the list.
      cases hBlocs.symm.trans hFree
      have hOne : (1 : UInt32).toNat = 1 := rfl
      have hFirst := hInside 1
        ((mem_blocsBelow (by omega) 1).mpr (by omega))
      omega
    · intro hTwo
      have hBlocks :=
        writesKeep_inside (s := opened) hSlot
          (n := (max v.nbBlocs.toInt 2).toNat) (by omega)
      have hStart :
          ∀ addr ∈ opened.dev.written,
            addr ∈ opened.mbr.sectors vol := by
        intro addr hMem
        have hNone : addr ∈ s.dev.written := hMem
        rw [hNew] at hNone
        cases hNone
      rcases initVolume_spec (s := opened) libc hSlot hMax
          hBlocks hStart with ⟨hInside, _⟩
      rcases hInside after hInit with ⟨hFresh, hWritten⟩
      refine ⟨?_, _, hFree, ?_⟩
      · rw [hFresh.mbr_eq]
        exact hWritten
      · intro b hMem
        have hBlock :=
          (mem_blocsBelow (by omega) b).mp hMem
        omega

/- A volume of one block, and one of three blocks behind it. -/
def oneBlockFirst : Mbr where
  nbVolume := 2
  volumes :=
    #v[⟨TypeE.base, 0, 1, 1⟩, ⟨TypeE.base, 0, 2, 3⟩,
      ⟨TypeE.base, 0, 0, 0⟩, ⟨TypeE.base, 0, 0, 0⟩,
      ⟨TypeE.base, 0, 0, 0⟩, ⟨TypeE.base, 0, 0, 0⟩,
      ⟨TypeE.base, 0, 0, 0⟩, ⟨TypeE.base, 0, 0, 0⟩]

/- A blank disk on which nothing was written. -/
def loggedSession : Session Logged where
  mbr := oneBlockFirst
  buffer := Sector.filled 0
  currentSuperbloc := none
  currentVol := 0
  heap := Heap.empty
  dev := ⟨fun _ => Sector.filled 0, []⟩

theorem load_stays_inside_iff_second :
    ∃ res after,
      loggedSession.loadSuper sampleLibc 1 =
        some (res, after) ∧
      StaysInside 1 ⟨TypeE.base, 0, 2, 3⟩ after := by
  rcases load_stays_inside_iff sampleLibc loggedSession 1
      ⟨TypeE.base, 0, 2, 3⟩ rfl (by decide) (by decide) rfl
    with ⟨hDefined, hIff⟩
  rcases Option.isSome_iff_exists.mp
      (hDefined (by decide)) with ⟨⟨res, after⟩, hLoad⟩
  exact ⟨res, after, hLoad,
    (hIff res after hLoad).mpr (by decide)⟩

/- The first volume gets the block behind it. -/
theorem load_leaves_volume :
    ¬ ∀ libc (s : Session Logged) vol v res after,
      vol.toNat < s.mbr.nbVolume.toNat →
      s.mbr.volume? vol.toNat = some v →
      1 ≤ v.nbBlocs.toInt →
      (Superbloc.layout.decode
        (s.dev.disk (sectorAddr (v.locate 0))).toList).magic ≠
          magicNumber →
      s.dev.written = [] →
      s.loadSuper libc vol = some (res, after) →
        StaysInside vol v after := by
  intro hAll
  have hLoad :
      ∃ r ∈ loggedSession.loadSuper sampleLibc 0,
        r.2.dev.written = [(0, 1), (0, 2)] ∧
          r.2.freeBlocs = some [1] := by
    decide
  rcases hLoad with ⟨⟨res, after⟩, hLoad, _, hFree⟩
  rcases hAll sampleLibc loggedSession 0
      ⟨TypeE.base, 0, 1, 1⟩ res after (by decide) rfl
      (by decide) (by decide) rfl hLoad with
    ⟨_, blocs, hBlocs, hInside⟩
  cases hBlocs.symm.trans hFree
  exact absurd (hInside 1 List.mem_cons_self) (by decide)

end Session

end AsaKernel
