import AsaKernel.Frmt.Programs
import AsaKernel.Volume.Deletion
import AsaKernel.Volume.Regions

/-
  The program part (part.c), a demonstration of volume.h.

  It loads the table and prints it, dumps a block before and
  after a write, formats the next volume, and dumps 32 of the
  blocks of that volume.

  Main declarations:
    * `Mbr.displayAllVol`, `Mbr.dumpLoop`, `part`
    * `part_eq`
    * `part_shows`
-/

------------------------------------------------------------
-- The Program
------------------------------------------------------------

namespace AsaKernel

open Scanning

/- A line of `display_all_vol`. -/
def partitionLine
    (volume : Volume) : List UInt8 :=
  integer volume.debutCyl.toInt ++ text "\t" ++
    integer volume.debutSect.toInt ++ text "\t" ++
    integer volume.nbBlocs.toInt ++ text "\t" ++
    integer volume.type.toInt32.toInt ++ text "\n"

/- display_all_vol, which prints the unused entries too -/
def Mbr.displayAllVol
    (mbr : Mbr) : List UInt8 :=
  integer mbr.count.toInt ++ text " partition(s):\n" ++
    mbr.volumes.toList.flatMap partitionLine

/- The line that announces a dump. -/
def dumpTitle
    (between : String)
    (nbloc vol : Int32) : List UInt8 :=
  text "\nBloc = " ++ integer nbloc.toInt ++ text between ++
    integer vol.toInt ++ text " :\n0x"

/- The dump of a sector. -/
def Sector.dump
    (content : Sector) : List UInt8 :=
  (blocText content.toList).flatMap String.utf8EncodeChar

/- memset(buffer, 1, HDA_SECTORSIZE) -/
def Sector.ones : Sector :=
  List.Vector.replicate hdaSectorSize 1

namespace Mbr

variable {δ : Type} [Drive δ]

/- display_bloc, called with `int` arguments -/
def dumpBloc
    (mbr : Mbr)
    (vol nbloc : Int32)
    (dev : δ) : Option (List UInt8 × δ) := do
  let (bloc, dev) ←
    mbr.displayBloc vol.toUInt32 nbloc.toUInt32 dev
  some (bloc.flatMap String.utf8EncodeChar, dev)

/-
  The last loop of `main`, with the number of iterations left.
-/
def dumpLoop
    (mbr : Mbr)
    (vol nbloc : Int32) :
    Nat → (i : Int32) → δ → Option (List UInt8 × δ)
| 0, _, dev => some ([], dev)
| k + 1, i, dev => do
    let (dump, dev) ← mbr.dumpBloc vol (nbloc + i) dev
    let (dumps, dev) ← dumpLoop mbr vol nbloc k (i + 1) dev
    some
      (dumpTitle " | Volume = " (nbloc + i) vol ++ dump ++
        dumps, dev)

end Mbr

/-
  main of part.c, with the arguments after its name.  It does
  not check that there are two of them.
-/
def part
    {δ : Type}
    [Drive δ]
    (args : List (List UInt8))
    (dev : δ) : Option (List UInt8 × δ) :=
  match args with
  | volArg :: nblocArg :: _ => do
      let vol := atoi volArg
      let nbloc := atoi nblocArg
      let (mbr, dev) := loadMbr dev
      let (first, dev) ← mbr.dumpBloc vol nbloc dev
      let dev ←
        mbr.writeBloc vol.toUInt32 nbloc.toUInt32 Sector.ones
          dev
      let (second, dev) ← mbr.dumpBloc vol nbloc dev
      let dev ← mbr.formatVol (vol + 1).toUInt32 4 dev
      let (dumps, dev) ←
        mbr.dumpLoop (vol + 1) nbloc 32 0 dev
      some
        (mbr.displayAllVol ++ text "\n" ++
          dumpTitle "  | Volume = " nbloc vol ++ first ++
          text "\n>> Write \n" ++
          dumpTitle " | Volume = " nbloc vol ++ second ++
          text "\n>> Formatage\n" ++ dumps ++ text "\n", dev)
  | _ => none

------------------------------------------------------------
-- Dumps of Blocks
------------------------------------------------------------

/- The sector of a block that is given as an `int`. -/
def Volume.blockAddr
    (v : Volume)
    (nbloc : Int32) : SectorAddr :=
  sectorAddr (v.locate nbloc.toUInt32)

namespace Mbr

variable {mbr : Mbr} {vol : Int32} {v : Volume}

/- Any number of a table entry gives access to the disk. -/
theorem cytToSect_int
    (hSlot : mbr.volume? vol.toInt = some v)
    (nbloc : Int32) :
    mbr.cytToSect vol.toUInt32 nbloc.toUInt32 =
      some (v.locate nbloc.toUInt32) := by
  rw [← volume?_toUInt32] at hSlot
  exact cytToSect_eq hSlot _

theorem dumpBloc_eq
    (hSlot : mbr.volume? vol.toInt = some v)
    (nbloc : Int32)
    (disk : Disk) :
    mbr.dumpBloc vol nbloc disk =
      some ((disk (v.blockAddr nbloc)).dump, disk) := by
  have hRead := readBloc_eq (cytToSect_int hSlot nbloc) disk
  rw [dumpBloc, displayBloc_of_readBloc hRead]
  rfl

/- The loop dumps one block after the other. -/
theorem dumpLoop_eq
    (hSlot : mbr.volume? vol.toInt = some v)
    (nbloc : Int32)
    (k : Nat)
    (i : Int32)
    (disk : Disk) :
    mbr.dumpLoop vol nbloc k i disk =
      some
        ((List.range k).flatMap fun j =>
          dumpTitle " | Volume = "
              (nbloc + (i + Int32.ofNat j)) vol ++
            (disk (v.blockAddr
              (nbloc + (i + Int32.ofNat j)))).dump,
        disk) := by
  induction k generalizing i with
  | zero => rfl
  | succ k ih =>
      have hShift (j : Nat) :
          i + 1 + Int32.ofNat j =
            i + Int32.ofNat (j + 1) := by
        rw [Int32.ofNat_add, Int32.add_assoc,
          Int32.add_comm 1]
        rfl
      have hFirst : i + Int32.ofNat 0 = i := Int32.add_zero i
      rw [dumpLoop, dumpBloc_eq hSlot]
      simp only [Option.bind_eq_bind, Option.bind_some, ih,
        hShift]
      rw [List.range_succ_eq_map, List.flatMap_cons,
        List.flatMap_map, hFirst]

end Mbr

------------------------------------------------------------
-- What the Program Shows
------------------------------------------------------------

/- The text of a run, given the sectors that are dumped. -/
def partText
    (mbr : Mbr)
    (vol nbloc : Int32)
    (old : Sector)
    (shown : Nat → Sector) : List UInt8 :=
  mbr.displayAllVol ++ text "\n" ++
    dumpTitle "  | Volume = " nbloc vol ++ old.dump ++
    text "\n>> Write \n" ++
    dumpTitle " | Volume = " nbloc vol ++ Sector.ones.dump ++
    text "\n>> Formatage\n" ++
    ((List.range 32).flatMap fun i =>
      dumpTitle " | Volume = " (nbloc + Int32.ofNat i)
          (vol + 1) ++ (shown i).dump) ++
    text "\n"

section Run

variable {volArg nblocArg : List UInt8}
variable {vol nbloc : Int32} {v w : Volume}
variable {mbr : Mbr} {disk : Disk}

/-
  The two entries of the table decide what is printed and what
  becomes of the disk, whether they are volumes or not.
-/
theorem part_eq
    (hVol : atoi volArg = vol)
    (hBloc : atoi nblocArg = nbloc)
    (others : List (List UInt8))
    (hMbr : (loadMbr disk).1 = mbr)
    (hSlot : mbr.volume? vol.toInt = some v)
    (hNext : mbr.volume? (vol + 1).toInt = some w)
    {written after : Disk}
    (hWrite :
      mbr.writeBloc vol.toUInt32 nbloc.toUInt32 Sector.ones
        disk = some written)
    (hFormat :
      mbr.formatVol (vol + 1).toUInt32 4 written =
        some after) :
    part (volArg :: nblocArg :: others) disk =
      some
        (partText mbr vol nbloc (disk (v.blockAddr nbloc))
          (fun i =>
            after (w.blockAddr (nbloc + Int32.ofNat i))),
        after) := by
  have hLoad : loadMbr disk = (mbr, disk) := by
    rw [← hMbr]
    rfl
  have hShown :
      written (v.blockAddr nbloc) = Sector.ones := by
    rw [Mbr.writeBloc_eq (Mbr.cytToSect_int hSlot nbloc)]
      at hWrite
    cases hWrite
    exact Function.update_self ..
  simp only [part, hVol, hBloc, hLoad, Option.bind_eq_bind,
    Mbr.dumpBloc_eq hSlot, Option.bind_some, hWrite, hFormat,
    Mbr.dumpLoop_eq hNext, Int32.zero_add, hShown]
  rfl

/- A block of a formatted volume holds the value. -/
theorem content_of_format
    (hExists : mbr.Exists vol)
    (hSlot : mbr.volume? vol.toInt = some v)
    (hLow : 0 ≤ nbloc.toInt)
    (hHigh : nbloc.toInt < v.nbBlocs.toInt)
    {before after : List (List Sector)}
    {value : Sector}
    (hBefore : after =
      before.modify vol.toInt.toNat fun blocks =>
        List.replicate blocks.length value)
    (hAfter : mbr.contents disk = after) :
    disk (v.blockAddr nbloc) = value := by
  rcases Mbr.DiskPacked.readBloc_contents disk hExists hSlot
    hLow hHigh with ⟨content, hRead, hBlock⟩
  rw [Mbr.readBloc_eq (Mbr.cytToSect_int hSlot nbloc)]
    at hRead
  cases hRead
  rcases Option.bind_eq_some_iff.mp hBlock with
    ⟨blocks, hArray, hContent⟩
  rw [hAfter, hBefore, List.getElem?_modify_eq] at hArray
  rcases Option.map_eq_some_iff.mp hArray with
    ⟨old, _, hFilled⟩
  rw [← hFilled] at hContent
  exact List.eq_of_mem_replicate
    (List.mem_of_getElem? hContent)

/-
  On a table whose volumes lie on the disk, the first dump is
  the old content of the block, the second one is what was
  written, and the dumps inside the next volume are the value
  of the format.  The table and the other volumes stay.
-/
theorem part_shows
    (hVol : atoi volArg = vol)
    (hBloc : atoi nblocArg = nbloc)
    (others : List (List UInt8))
    (hMbr : (loadMbr disk).1 = mbr)
    (hDisk : mbr.DiskPacked)
    (hExists : mbr.Exists vol)
    (hNext : mbr.Exists (vol + 1))
    (hSlot : mbr.volume? vol.toInt = some v)
    (hSlot' : mbr.volume? (vol + 1).toInt = some w)
    (hLow : 0 ≤ nbloc.toInt)
    (hHigh : nbloc.toInt < v.nbBlocs.toInt) :
    ∃ old shown after,
      part (volArg :: nblocArg :: others) disk =
          some (partText mbr vol nbloc old shown, after) ∧
        (mbr.contents disk)[vol.toInt.toNat]?.bind
            (fun blocks => blocks[nbloc.toInt.toNat]?) =
          some old ∧
        (∀ i : Nat, i < 32 →
          nbloc.toInt + i < w.nbBlocs.toInt →
          shown i = Sector.filled 4) ∧
        (loadMbr after).1 = mbr ∧
        mbr.contents after =
          ((mbr.contents disk).modify vol.toInt.toNat
            fun blocks =>
              blocks.set nbloc.toInt.toNat
                Sector.ones).modify (vol + 1).toInt.toNat
            fun blocks =>
              List.replicate blocks.length
                (Sector.filled 4) := by
  rcases Mbr.DiskPacked.readBloc_contents disk hExists hSlot
    hLow hHigh with ⟨old, hRead, hOld⟩
  rcases hDisk.writeBloc_contents disk hExists hSlot hLow
    hHigh Sector.ones with
    ⟨written, hWrite, hBoot, hWritten⟩
  rcases hDisk.formatVol_contents written hNext hSlot' 4 with
    ⟨after, hFormat, hBoot', hFilled⟩
  have hRun :=
    part_eq hVol hBloc others hMbr hSlot hSlot' hWrite hFormat
  have hSame : disk (v.blockAddr nbloc) = old := by
    rw [Mbr.readBloc_eq (Mbr.cytToSect_int hSlot nbloc)]
      at hRead
    exact congrArg Prod.fst (Option.some.inj hRead)
  rw [hSame] at hRun
  refine ⟨old, _, after, hRun, hOld, ?_, ?_, ?_⟩
  · intro i hi hInside
    have hRange := FixedWidth.toInt_range w.nbBlocs
    have hIndex : (Int32.ofNat i).toInt = i :=
      Int32.toInt_ofNat_of_lt (by omega)
    have hSum :
        (nbloc + Int32.ofNat i).toInt = nbloc.toInt + i := by
      rw [FixedWidth.toInt_add (by omega) (by omega), hIndex]
    exact content_of_format hNext hSlot' (by omega)
      (by omega) hFilled rfl
  · have hBoth : after (0, 0) = disk (0, 0) :=
      hBoot'.trans hBoot
    rw [← hMbr]
    exact congrArg
      (fun content : Sector =>
        Mbr.layout.decode content.toList) hBoth
  · rw [hFilled, hWritten]

end Run

/- Volume 1 of the sample has fewer blocks than are dumped. -/
theorem part_shows_two :
    let disk : Disk :=
      saveMbr (Sector.filled 0) Mbr.twoVolumes
        fun _ => Sector.filled 9
    ∃ old shown after,
      part [integer 0, integer 1] disk =
          some (partText Mbr.twoVolumes 0 1 old shown,
            after) ∧
        (Mbr.twoVolumes.contents disk)[0]?.bind
            (fun blocks => blocks[1]?) = some old ∧
        (∀ i : Nat, i < 32 → 1 + (i : Int) < 5 →
          shown i = Sector.filled 4) ∧
        (loadMbr after).1 = Mbr.twoVolumes ∧
        Mbr.twoVolumes.contents after =
          ((Mbr.twoVolumes.contents disk).modify 0
            fun blocks => blocks.set 1 Sector.ones).modify 1
            fun blocks =>
              List.replicate blocks.length
                (Sector.filled 4) := by
  intro disk
  exact
    part_shows (v := ⟨TypeE.base, 0, 1, 3⟩)
      (w := ⟨TypeE.base, 0, 4, 5⟩) (atoi_integer 0)
      (atoi_integer 1) [] (loadMbr_saveMbr _ _ _)
      Mbr.diskPacked_twoVolumes (by decide) (by decide) rfl
      rfl (by decide) (by decide)

end AsaKernel
