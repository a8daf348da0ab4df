import AsaKernel.Volume.Packing
import AsaKernel.Foundations.Transition

/-
  Runs of the commands `new` and `del` on the volume table.

  Main declarations:
    * `TableCmd`, `TableCmd.step`
    * `Mbr.ValidDels`, `Mbr.PositiveNews`
    * `Mbr.FittingStarts`
    * `Mbr.packed_of_run`
    * `Mbr.volumes_disjoint_in_every_run`
-/

------------------------------------------------------------
-- Table Commands
------------------------------------------------------------

namespace AsaKernel

open Transition

/- The commands that change the table, with their answers. -/
inductive TableCmd where
  | new (nbloc : Int32)
  | del (vol : Int32)
deriving DecidableEq, Repr

/- Execute one command on the table. -/
def TableCmd.step
    (mbr : Mbr) : TableCmd → Option Mbr
| .new nbloc => mbr.new nbloc
| .del vol => mbr.del vol

namespace TableCmd

/- A `del` names an existing volume. -/
def NamesExisting
    (mbr : Mbr) : TableCmd → Prop
| .new _ => True
| .del vol =>
    0 ≤ vol.toInt ∧ vol.toInt < mbr.nbVolume.toNat

/- A `new` asks for at least one block. -/
def AsksBlocks : TableCmd → Prop
| .new nbloc => 1 ≤ nbloc.toInt
| .del _ => True

/-
  A `new` that finds room computes its start from an end that
  fits the fields of a volume.
-/
def StartFits
    (mbr : Mbr) : TableCmd → Prop
| .new _ => mbr.nbVolume.toNat < 8 → mbr.EndFits
| .del _ => True

instance (mbr : Mbr) (cmd : TableCmd) :
    Decidable (cmd.NamesExisting mbr) :=
  match cmd with
  | .new _ => isTrue trivial
  | .del _ => inferInstanceAs (Decidable (_ ∧ _))

instance (cmd : TableCmd) :
    Decidable cmd.AsksBlocks :=
  match cmd with
  | .new _ => inferInstanceAs (Decidable (_ ≤ _))
  | .del _ => isTrue trivial

instance (mbr : Mbr) (cmd : TableCmd) :
    Decidable (cmd.StartFits mbr) :=
  match cmd with
  | .new _ => inferInstanceAs (Decidable (_ → _))
  | .del _ => isTrue trivial

end TableCmd

namespace Mbr

variable {mbr : Mbr}
variable (cmds : List TableCmd)

/- Every `del` of the run names an existing volume. -/
abbrev ValidDels
    (mbr : Mbr)
    (cmds : List TableCmd) : Prop :=
  Always TableCmd.step mbr cmds
    fun t cmd => cmd.NamesExisting t

/- Every `new` of the run asks for at least one block. -/
abbrev PositiveNews
    (mbr : Mbr)
    (cmds : List TableCmd) : Prop :=
  Always TableCmd.step mbr cmds fun _ cmd => cmd.AsksBlocks

/- No `new` of the run computes a start that overflows. -/
abbrev FittingStarts
    (mbr : Mbr)
    (cmds : List TableCmd) : Prop :=
  Always TableCmd.step mbr cmds
    fun t cmd => cmd.StartFits t

/- One valid command keeps the table packed. -/
theorem Packed.step
    (hPacked : mbr.Packed)
    {cmd : TableCmd}
    (hDel : cmd.NamesExisting mbr)
    (hNew : cmd.AsksBlocks)
    (hStart : cmd.StartFits mbr) :
    ∃ after, cmd.step mbr = some after ∧ after.Packed := by
  cases cmd with
  | new n =>
      have hCount := hPacked.count_le
      by_cases hRoom : mbr.nbVolume.toNat < 8
      · rcases hPacked.new hRoom (hStart hRoom) hNew with
          ⟨after, v, hStep, hAfter, _⟩
        exact ⟨after, hStep, hAfter⟩
      · exact ⟨mbr, new_full (by omega) n, hPacked⟩
  | del vol =>
      rcases hPacked.del hDel.1 hDel.2 with
        ⟨after, hStep, hAfter, _⟩
      exact ⟨after, hStep, hAfter⟩

/- Every table of a valid run is packed, and the run is defined. -/
theorem packed_of_run
    (hEmpty : mbr.nbVolume = 0)
    (hDels : mbr.ValidDels cmds)
    (hNews : mbr.PositiveNews cmds)
    (hStarts :
      Always TableCmd.step mbr cmds
        fun t cmd => t.Packed → cmd.StartFits t) :
    (∃ t, run TableCmd.step mbr cmds = some t) ∧
      Throughout TableCmd.step mbr cmds Packed := by
  have hStep :
      ∀ t cmd, Performs TableCmd.step mbr cmds t cmd →
        t.Packed →
          ∃ u, TableCmd.step t cmd = some u ∧ u.Packed :=
    fun t cmd hPerforms hPacked =>
      hPacked.step (hDels t cmd hPerforms)
        (hNews t cmd hPerforms)
        (hStarts t cmd hPerforms hPacked)
  have hInit := packed_of_empty hEmpty
  constructor
  · rcases run_defined Packed hInit hStep with
      ⟨t, hRun, _⟩
    exact ⟨t, hRun⟩
  · intro t hReached
    exact reached_of_defined Packed hInit hStep hReached

------------------------------------------------------------
-- Disjoint Volumes
------------------------------------------------------------

/- Volumes that end below 2^31 - 1 have ends that fit. -/
theorem Packed.endFits
    (hPacked : mbr.Packed)
    (hBound :
      ∀ v ∈ mbr.entries, v.fin - 1 < 2147483647) :
    mbr.EndFits := by
  intro last hLast
  have hMem := List.mem_of_getLast? hLast
  have hFin := hBound last hMem
  unfold Volume.fin at hFin
  exact (hPacked.placed last hMem).reaches (by omega)

/-
  The table invariant over whole runs.  From the empty table,
  as long as no created volume reaches the linear number
  2^31 - 1, every command is executed and in every table
  there are at most 8 volumes, each starts inside a cylinder,
  two of them share no sector and none holds sector (0,0).
-/
theorem volumes_disjoint_in_every_run
    (hEmpty : mbr.nbVolume = 0)
    (hDels : mbr.ValidDels cmds)
    (hNews : mbr.PositiveNews cmds)
    (hEnds :
      Throughout TableCmd.step mbr cmds fun t =>
        ∀ v ∈ t.entries, v.fin - 1 < 2147483647) :
    (∃ t, run TableCmd.step mbr cmds = some t) ∧
      Throughout TableCmd.step mbr cmds fun t =>
        t.nbVolume.toNat ≤ 8 ∧
        (∀ v ∈ t.entries,
          0 ≤ v.debutSect.toInt ∧ v.debutSect.toInt < 16) ∧
        (∀ vol vol' : UInt32,
          vol.toNat < t.nbVolume.toNat →
          vol'.toNat < t.nbVolume.toNat → vol ≠ vol' →
            Disjoint (t.sectorSet vol)
              (t.sectorSet vol')) ∧
        ∀ vol : UInt32, vol.toNat < t.nbVolume.toNat →
          (0, 0) ∉ t.sectorSet vol := by
  have hStarts :
      Always TableCmd.step mbr cmds
        fun t cmd => t.Packed → cmd.StartFits t := by
    intro t cmd hPerforms hPacked
    cases cmd with
    | new n =>
        intro _
        exact hPacked.endFits (hEnds t hPerforms.reached)
    | del vol => trivial
  rcases packed_of_run cmds hEmpty hDels hNews hStarts with
    ⟨hRun, hPacked⟩
  refine ⟨hRun, ?_⟩
  intro t hReached
  have hTable := hPacked t hReached
  have hBound : ∀ v ∈ t.entries, v.fin ≤ 2147483648 := by
    intro v hMem
    have hEnd := hEnds t hReached v hMem
    omega
  refine ⟨hTable.count_le, ?_, ?_, ?_⟩
  · intro v hMem
    have hPlaced := hTable.placed v hMem
    exact ⟨hPlaced.sect_nonneg, hPlaced.sect_lt⟩
  · intro vol vol' hVol hVol' hNe
    exact hTable.disjoint_sectorSet hBound hVol hVol' hNe
  · intro vol hVol
    exact hTable.mbr_notMem_sectorSet hBound hVol

/- A table without volumes. -/
def emptyTable : Mbr where
  nbVolume := 0
  volumes := Vector.replicate 8 ⟨TypeE.base, 0, 0, 0⟩

/- Three volumes, then a gap where the second one was. -/
def sampleCmds : List TableCmd :=
  [.new 20, .new 3, .new 40, .del 1]

theorem volumes_disjoint_in_sample :
    ∃ t, run TableCmd.step emptyTable sampleCmds = some t ∧
      t.nbVolume = 2 ∧
      Disjoint (t.sectorSet 0) (t.sectorSet 1) := by
  have hEmpty : emptyTable.nbVolume = 0 := rfl
  rcases volumes_disjoint_in_every_run sampleCmds hEmpty
      (by decide) (by decide) (by decide) with
    ⟨⟨t, hRun⟩, hTables⟩
  have hCount : t.nbVolume = 2 := by
    have hFinal :
        (run TableCmd.step emptyTable sampleCmds).map
          Mbr.nbVolume = some 2 := by
      decide
    rw [hRun] at hFinal
    exact Option.some.inj hFinal
  rcases hTables t (reached_of_run hRun) with
    ⟨_, _, hDisjoint, _⟩
  refine ⟨t, hRun, hCount, hDisjoint 0 1 ?_ ?_ (by decide)⟩
  · rw [hCount]
    decide
  · rw [hCount]
    decide

end Mbr

end AsaKernel
