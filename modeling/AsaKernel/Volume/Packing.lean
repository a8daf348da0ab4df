import AsaKernel.Volume.Partitioning

/-
  The table invariant of `new` and `del`: the existing volumes
  are laid out in increasing order after the sector of the
  master boot record.

  Main declarations:
    * `Mbr.Packed`, `Mbr.frontier`
    * `Mbr.Packed.new`, `Mbr.Packed.del`
    * `Mbr.sectorSet`
    * `Mbr.Packed.disjoint_sectorSet`
    * `Mbr.Packed.mbr_notMem_sectorSet`
-/

------------------------------------------------------------
-- Packed Tables
------------------------------------------------------------

namespace AsaKernel

namespace Mbr

/- The existing volumes are ordered and start after sector 0. -/
structure Packed
    (mbr : Mbr) : Prop where
  count_le : mbr.nbVolume.toNat ≤ 8
  placed : ∀ v ∈ mbr.entries, v.Placed
  occupied : ∀ v ∈ mbr.entries, 1 ≤ v.nbBlocs.toInt
  after_mbr : ∀ v ∈ mbr.entries, 1 ≤ v.start
  sorted :
    Extents.Packed Volume.start Volume.fin mbr.entries

/- The first linear number after the last volume. -/
def frontier
    (mbr : Mbr) : Int :=
  match mbr.entries.getLast? with
  | none => 1
  | some last => last.fin

/- The end of the last volume fits the fields of a volume. -/
def EndFits
    (mbr : Mbr) : Prop :=
  ∀ last ∈ mbr.entries.getLast?,
    last.Reaches last.nbBlocs.toInt

instance (mbr : Mbr) :
    Decidable mbr.EndFits :=
  inferInstanceAs
    (Decidable
      (∀ last ∈ mbr.entries.getLast?, _ ∧ _))

variable {mbr : Mbr}

theorem entries_eq_nil
    (hEmpty : mbr.nbVolume = 0) :
    mbr.entries = [] := by
  simp [entries, hEmpty]

theorem packed_of_empty
    (hEmpty : mbr.nbVolume = 0) :
    mbr.Packed where
  count_le := by simp [hEmpty]
  placed := by simp [entries_eq_nil hEmpty]
  occupied := by simp [entries_eq_nil hEmpty]
  after_mbr := by simp [entries_eq_nil hEmpty]
  sorted := by
    rw [entries_eq_nil hEmpty]
    exact Extents.packed_nil

namespace Packed

theorem start_le_fin
    (hPacked : mbr.Packed) :
    ∀ v ∈ mbr.entries, v.start ≤ v.fin := by
  intro v hMem
  have hSize := hPacked.occupied v hMem
  unfold Volume.fin
  omega

/- The frontier lies after every volume. -/
theorem fin_le_frontier
    (hPacked : mbr.Packed) :
    ∀ v ∈ mbr.entries, v.fin ≤ mbr.frontier := by
  intro v hMem
  unfold frontier
  cases hLast : mbr.entries.getLast? with
  | none =>
      rw [List.getLast?_eq_none_iff] at hLast
      simp [hLast] at hMem
  | some last =>
      exact hPacked.sorted.hi_le_getLast
        hPacked.start_le_fin hLast hMem

theorem frontier_pos
    (hPacked : mbr.Packed) :
    1 ≤ mbr.frontier := by
  unfold frontier
  cases hLast : mbr.entries.getLast? with
  | none => exact Int.le_refl 1
  | some last =>
      have hMem := List.mem_of_getLast? hLast
      exact (hPacked.after_mbr last hMem).trans
        (hPacked.start_le_fin last hMem)

/- `new` computes the frontier as the start of its volume. -/
theorem nextCylSect_start
    (hPacked : mbr.Packed)
    (hEnd : mbr.EndFits)
    {cylSect : Int32 × Int32}
    (hNext : mbr.nextCylSect = some cylSect) :
    lin cylSect = mbr.frontier ∧
      0 ≤ cylSect.1.toInt ∧ 0 ≤ cylSect.2.toInt ∧
      cylSect.2.toInt < 16 := by
  rw [mbr.nextCylSect_eq hPacked.count_le,
    Option.some.injEq] at hNext
  unfold frontier
  cases hLast : mbr.entries.getLast? with
  | none =>
      rw [hLast] at hNext
      subst hNext
      decide
  | some last =>
      simp only [hLast] at hNext
      subst hNext
      have hMem := List.mem_of_getLast? hLast
      have hPlaced := hPacked.placed last hMem
      have hSize := hPacked.occupied last hMem
      have hBlocks :
          (last.nbBlocs.toUInt32.toNat : Int) =
            last.nbBlocs.toInt :=
        FixedWidth.toNat_toUInt32_of_nonneg (by omega)
      have hReaches :
          last.Reaches last.nbBlocs.toUInt32.toNat := by
        rw [hBlocks]
        exact hEnd last hLast
      have hCyl := hPlaced.cyl_nonneg
      have hSect := hPlaced.sect_nonneg
      rcases Volume.locate_eq hPlaced hReaches with
        ⟨hCyl', hSect'⟩
      refine ⟨?_, ?_, ?_, ?_⟩
      · rw [Volume.lin_locate hPlaced hReaches, hBlocks]
        rfl
      all_goals omega

/- `new` with a positive size appends after the frontier. -/
theorem new
    (hPacked : mbr.Packed)
    (hRoom : mbr.nbVolume.toNat < 8)
    (hEnd : mbr.EndFits)
    {nbloc : Int32}
    (hPos : 1 ≤ nbloc.toInt) :
    ∃ after v,
      mbr.new nbloc = some after ∧ after.Packed ∧
      after.nbVolume.toNat = mbr.nbVolume.toNat + 1 ∧
      after.entries = mbr.entries ++ [v] ∧
      v.nbBlocs = nbloc ∧ v.start = mbr.frontier := by
  rcases mbr.new_spec hRoom nbloc with
    ⟨after, v, hNew, hCount, hEntries, hSize, hNext⟩
  rcases hPacked.nextCylSect_start hEnd hNext with
    ⟨hStart, hCyl, hLow, hHigh⟩
  have hFrontier := hPacked.frontier_pos
  refine
    ⟨after, v, hNew, ?_, hCount, hEntries, hSize, hStart⟩
  -- Each field splits over the old volumes and the new one.
  constructor
  · omega
  · rw [hEntries, List.forall_mem_append]
    exact ⟨hPacked.placed, by
      simpa using ⟨hCyl, hLow, hHigh⟩⟩
  · rw [hEntries, List.forall_mem_append]
    exact ⟨hPacked.occupied, by simpa [hSize] using hPos⟩
  · rw [hEntries, List.forall_mem_append]
    refine ⟨hPacked.after_mbr, ?_⟩
    simp only [List.mem_singleton, forall_eq]
    rw [Volume.start, hStart]
    exact hFrontier
  · rw [hEntries]
    apply hPacked.sorted.concat hPacked.start_le_fin
    intro last hLast
    have hBefore :=
      hPacked.fin_le_frontier last
        (List.mem_of_getLast? hLast)
    rw [Volume.start, hStart]
    exact hBefore

/- `del` of an existing volume leaves a gap. -/
theorem del
    (hPacked : mbr.Packed)
    {vol : Int32}
    (hLow : 0 ≤ vol.toInt)
    (hHigh : vol.toInt < mbr.nbVolume.toNat) :
    ∃ after,
      mbr.del vol = some after ∧ after.Packed ∧
      after.nbVolume.toNat = mbr.nbVolume.toNat - 1 ∧
      after.entries =
        mbr.entries.eraseIdx vol.toInt.toNat := by
  rcases mbr.del_spec hPacked.count_le hLow hHigh with
    ⟨after, hDel, hCount, hEntries⟩
  have hMem : ∀ v ∈ after.entries, v ∈ mbr.entries := by
    rw [hEntries]
    exact fun v hv => List.mem_of_mem_eraseIdx hv
  have hOld := hPacked.count_le
  refine ⟨after, hDel, ?_, hCount, hEntries⟩
  exact
    { count_le := by omega
      placed := fun v hv => hPacked.placed v (hMem v hv)
      occupied := fun v hv => hPacked.occupied v (hMem v hv)
      after_mbr := fun v hv =>
        hPacked.after_mbr v (hMem v hv)
      sorted := by
        rw [hEntries]
        exact hPacked.sorted.eraseIdx _ }

end Packed

------------------------------------------------------------
-- Sectors of a Volume
------------------------------------------------------------

/- {cytToSect(vol, b) : 0 <= b < nbBlocs(vol)} -/
def sectorSet
    (mbr : Mbr)
    (vol : UInt32) : Set (Int32 × Int32) :=
  { cylSect | ∃ (v : Volume) (b : UInt32),
      mbr.volume? vol.toNat = some v ∧
      (b.toNat : Int) < v.nbBlocs.toInt ∧
      mbr.cytToSect vol b = some cylSect }

/- An existing volume, seen as an entry and as a table slot. -/
theorem volume?_existing
    (hCount : mbr.nbVolume.toNat ≤ 8)
    {i : Nat}
    (hi : i < mbr.nbVolume.toNat) :
    ∃ (h : i < mbr.entries.length),
      mbr.volume? i = some mbr.entries[i] := by
  have hLength : i < mbr.entries.length := by
    rw [length_entries hCount]
    exact hi
  refine ⟨hLength, ?_⟩
  rw [volume?_natCast, ← entries_getElem? hi,
    List.getElem?_eq_getElem hLength]

/- The block of an existing volume lies in its extent. -/
theorem Packed.lin_mem_extent
    (hPacked : mbr.Packed)
    {vol : UInt32}
    (hVol : vol.toNat < mbr.entries.length)
    (hBound :
      mbr.entries[vol.toNat].fin ≤ 2147483648)
    {cylSect : Int32 × Int32}
    (hMem : cylSect ∈ mbr.sectorSet vol) :
    mbr.entries[vol.toNat].start ≤ lin cylSect ∧
      lin cylSect < mbr.entries[vol.toNat].fin := by
  rcases hMem with ⟨v, b, hEntry, hBlock, hSector⟩
  have hExisting : vol.toNat < mbr.nbVolume.toNat := by
    rw [← length_entries hPacked.count_le]
    exact hVol
  rcases volume?_existing hPacked.count_le hExisting with
    ⟨_, hSlot⟩
  rw [hSlot, Option.some.injEq] at hEntry
  subst hEntry
  have hPlaced := hPacked.placed _ (List.getElem_mem hVol)
  unfold Volume.fin at hBound ⊢
  have hReaches :
      mbr.entries[vol.toNat].Reaches b.toNat :=
    hPlaced.reaches (by omega)
  have hLin := Volume.lin_locate hPlaced hReaches
  rw [cytToSect_eq hSlot, Option.some.injEq] at hSector
  rw [← hSector, hLin]
  constructor <;> omega

/- Distinct existing volumes share no sector. -/
theorem Packed.disjoint_sectorSet
    (hPacked : mbr.Packed)
    (hBound : ∀ v ∈ mbr.entries, v.fin ≤ 2147483648)
    {vol vol' : UInt32}
    (hVol : vol.toNat < mbr.nbVolume.toNat)
    (hVol' : vol'.toNat < mbr.nbVolume.toNat)
    (hNe : vol ≠ vol') :
    Disjoint (mbr.sectorSet vol) (mbr.sectorSet vol') := by
  rw [← length_entries hPacked.count_le] at hVol hVol'
  have hExtents :=
    hPacked.sorted.disjoint hVol hVol' fun hEq =>
      hNe (UInt32.toNat_inj.mp hEq)
  rw [Set.disjoint_left] at hExtents ⊢
  intro cylSect hLeft hRight
  exact hExtents
    (hPacked.lin_mem_extent hVol
      (hBound _ (List.getElem_mem hVol)) hLeft)
    (hPacked.lin_mem_extent hVol'
      (hBound _ (List.getElem_mem hVol')) hRight)

/- No existing volume contains the master boot record. -/
theorem Packed.mbr_notMem_sectorSet
    (hPacked : mbr.Packed)
    (hBound : ∀ v ∈ mbr.entries, v.fin ≤ 2147483648)
    {vol : UInt32}
    (hVol : vol.toNat < mbr.nbVolume.toNat) :
    (0, 0) ∉ mbr.sectorSet vol := by
  rw [← length_entries hPacked.count_le] at hVol
  have hMem := List.getElem_mem hVol
  intro hZero
  have hLin :=
    hPacked.lin_mem_extent hVol (hBound _ hMem) hZero
  have hStart := hPacked.after_mbr _ hMem
  have hOrigin : lin (0, 0) = 0 := by decide
  rw [hOrigin] at hLin
  omega

end Mbr

end AsaKernel
