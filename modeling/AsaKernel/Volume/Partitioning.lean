import AsaKernel.Volume.Table
import AsaKernel.Foundations.Extents

/-
  The commands `new` and `del` of vm.c on the volume table,
  and their effect on the list of existing volumes.

  Main declarations:
    * `Mbr.new`, `Mbr.del`
    * `Mbr.entries`, `Mbr.Exists`
    * `Mbr.new_full`, `Mbr.new_records`, `Mbr.new_spec`
    * `Mbr.del_moves`, `Mbr.del_spec`
    * `Mbr.volume?_new_kept`, `Mbr.volume?_del_kept`
-/

------------------------------------------------------------
-- Commands
------------------------------------------------------------

namespace AsaKernel

namespace Mbr

/- The count of volumes read into an `int`. -/
def count
    (mbr : Mbr) : Int32 :=
  mbr.nbVolume.toInt32

/- The start that `new` gives to the volume it creates. -/
def nextCylSect
    (mbr : Mbr) : Option (Int32 × Int32) :=
  if mbr.count ≠ 0 then do
    let lastPart ← mbr.volume? (mbr.count - 1).toInt
    mbr.cytToSect (mbr.count - 1).toUInt32
      lastPart.nbBlocs.toUInt32
  else some (0, 1)

/- new, with the number of blocks that the user types -/
def new
    (mbr : Mbr)
    (nbloc : Int32) : Option Mbr :=
  if 8 ≤ mbr.count then some mbr
  else do
    let cylSect ← mbr.nextCylSect
    let newPart : Volume :=
      { type := TypeE.base
        debutCyl := cylSect.1
        debutSect := cylSect.2
        nbBlocs := nbloc }
    let mbr ← mbr.setVolume? mbr.count.toInt newPart
    some { mbr with nbVolume := mbr.nbVolume + 1 }

/-
  The loop of `del`, with the number of iterations left: copy
  entry `vol` over its predecessor.
-/
def shiftLoop :
    Nat → Int32 → Mbr → Option Mbr
| 0, _, mbr => some mbr
| k + 1, vol, mbr => do
    let tmpPart ← mbr.volume? vol.toInt
    let mbr ← mbr.setVolume? (vol - 1).toInt tmpPart
    shiftLoop k (vol + 1) mbr

/- del, with the volume number that the user types -/
def del
    (mbr : Mbr)
    (vol : Int32) : Option Mbr :=
  if mbr.count ≤ 0 then some mbr
  else do
    let vol := vol + 1
    let mbr ← shiftLoop
      (mbr.count.toInt - vol.toInt).toNat vol mbr
    some { mbr with nbVolume := mbr.nbVolume - 1 }

------------------------------------------------------------
-- Existing Volumes
------------------------------------------------------------

/- The volumes that the table counts, in order. -/
def entries
    (mbr : Mbr) : List Volume :=
  mbr.volumes.toList.take mbr.nbVolume.toNat

variable {mbr : Mbr}

theorem length_entries
    (hCount : mbr.nbVolume.toNat ≤ 8) :
    mbr.entries.length = mbr.nbVolume.toNat := by
  simp [entries, hCount]

theorem count_toInt
    (hCount : mbr.nbVolume.toNat ≤ 8) :
    mbr.count.toInt = mbr.nbVolume.toNat :=
  FixedWidth.toInt_toInt32_of_lt (by omega)

theorem volume?_natCast
    (i : Nat) :
    mbr.volume? i = mbr.volumes[i]? := by
  simp [volume?]

/- Exactly the numbers from 0 to 7 index an entry. -/
theorem volume?_isSome_iff
    {i : Int} :
    (mbr.volume? i).isSome ↔ 0 ≤ i ∧ i < 8 := by
  unfold volume?
  by_cases hNonneg : 0 ≤ i
  · rw [if_pos hNonneg, isSome_getElem?]
    omega
  · rw [if_neg hNonneg]
    simp [hNonneg]

/- An `int` and its unsigned reading index the same entry. -/
theorem volume?_toUInt32
    (i : Int32) :
    mbr.volume? i.toUInt32.toNat = mbr.volume? i.toInt := by
  have hValue := FixedWidth.toNat_toUInt32 i
  have hRange := FixedWidth.toInt_range i
  by_cases hNonneg : 0 ≤ i.toInt
  · rw [FixedWidth.toNat_toUInt32_of_nonneg hNonneg]
  · have hLarge : 8 ≤ i.toUInt32.toNat := by omega
    rw [volume?_natCast, Vector.getElem?_eq_none hLarge,
      volume?, if_neg hNonneg]

/- An existing volume is the table entry of the same index. -/
theorem entries_getElem?
    {i : Nat}
    (hi : i < mbr.nbVolume.toNat) :
    mbr.entries[i]? = mbr.volumes[i]? := by
  rw [entries, List.getElem?_take_of_lt hi,
    Vector.getElem?_toList]

/- The number names an existing volume. -/
def Exists
    (mbr : Mbr)
    (vol : Int32) : Prop :=
  0 ≤ vol.toInt ∧ vol.toInt < mbr.nbVolume.toNat

instance (mbr : Mbr) (vol : Int32) :
    Decidable (mbr.Exists vol) :=
  inferInstanceAs (Decidable (_ ∧ _))

/- The slot of an existing volume is an entry of the table. -/
theorem Exists.volume?_eq
    {vol : Int32}
    (hExists : mbr.Exists vol) :
    mbr.volume? vol.toInt =
      mbr.entries[vol.toInt.toNat]? := by
  rcases hExists with ⟨hLow, hHigh⟩
  have hIndex :
      ((vol.toInt.toNat : Nat) : Int) = vol.toInt := by
    omega
  rw [entries_getElem? (by omega), ← volume?_natCast,
    hIndex]

/- An existing volume as the block functions see it. -/
theorem Exists.toNat_lt
    {vol : Int32}
    (hExists : mbr.Exists vol) :
    vol.toUInt32.toNat < mbr.nbVolume.toNat := by
  rcases hExists with ⟨hLow, hHigh⟩
  have hVol := FixedWidth.toNat_toUInt32_of_nonneg hLow
  omega

theorem setVolume?_natCast
    {i : Nat}
    (hi : i < 8)
    (v : Volume) :
    mbr.setVolume? i v =
      some { mbr with
        volumes := mbr.volumes.set i v hi } := by
  simp [setVolume?, hi]

------------------------------------------------------------
-- Creation
------------------------------------------------------------

/- A full table is left alone. -/
theorem new_full
    (hFull : mbr.nbVolume.toNat = 8)
    (nbloc : Int32) :
    mbr.new nbloc = some mbr := by
  have hValue := mbr.count_toInt (by omega)
  rw [new, if_pos]
  rw [Int32.le_iff_toInt_le, hValue, hFull]
  decide

/- The last entry of a table that is not empty. -/
theorem volume?_last
    (hCount : mbr.nbVolume.toNat ≤ 8)
    (hPos : 0 < mbr.nbVolume.toNat) :
    (mbr.count - 1).toInt =
        ((mbr.nbVolume.toNat - 1 : Nat) : Int) ∧
      ((mbr.count - 1).toUInt32.toNat : Int) =
        ((mbr.nbVolume.toNat - 1 : Nat) : Int) ∧
      ∃ last, mbr.entries.getLast? = some last ∧
        mbr.volumes[mbr.nbVolume.toNat - 1]? =
          some last := by
  have hValue := mbr.count_toInt hCount
  have hIndex :
      (mbr.count - 1).toInt =
        ((mbr.nbVolume.toNat - 1 : Nat) : Int) := by
    have hOne : (1 : Int32).toInt = 1 := rfl
    rw [FixedWidth.toInt_sub] <;> rw [hValue, hOne]
    all_goals omega
  refine ⟨hIndex, ?_, ?_⟩
  · rw [FixedWidth.toNat_toUInt32_of_nonneg] <;>
      rw [hIndex]
    omega
  · have hLast :=
      mbr.entries_getElem?
        (i := mbr.nbVolume.toNat - 1) (by omega)
    have hLength := mbr.length_entries hCount
    rw [List.getLast?_eq_getElem?, hLength, hLast]
    have hBound : mbr.nbVolume.toNat - 1 < 8 := by omega
    exact ⟨_, Vector.getElem?_eq_getElem hBound,
      Vector.getElem?_eq_getElem hBound⟩

/- The start of the next volume follows the last volume. -/
theorem nextCylSect_eq
    (hCount : mbr.nbVolume.toNat ≤ 8) :
    mbr.nextCylSect =
      some (match mbr.entries.getLast? with
        | none => (0, 1)
        | some last =>
            last.locate last.nbBlocs.toUInt32) := by
  have hValue := mbr.count_toInt hCount
  by_cases hZero : mbr.nbVolume.toNat = 0
  · have hCountZero : mbr.count = 0 := by
      apply Int32.toInt_inj.mp
      rw [hValue, hZero]
      rfl
    have hEmpty : mbr.entries = [] := by
      simp [entries, hZero]
    simp [nextCylSect, hCountZero, hEmpty]
  · have hCountNe : mbr.count ≠ 0 := by
      intro hEq
      rw [hEq] at hValue
      have hZeroInt : (0 : Int32).toInt = 0 := rfl
      omega
    rcases mbr.volume?_last hCount (by omega) with
      ⟨hInt, hNat, last, hLast, hEntry⟩
    simp only [nextCylSect, if_pos hCountNe, cytToSect,
      hInt, hNat, volume?_natCast, hEntry, hLast,
      Option.bind_eq_bind, Option.bind_some]

/- A table with room always records a volume. -/
theorem new_records
    (hRoom : mbr.nbVolume.toNat < 8)
    (nbloc : Int32) :
    ∃ cylSect,
      mbr.nextCylSect = some cylSect ∧
      mbr.new nbloc = some
        { nbVolume := mbr.nbVolume + 1
          volumes := mbr.volumes.set mbr.nbVolume.toNat
            { type := TypeE.base
              debutCyl := cylSect.1
              debutSect := cylSect.2
              nbBlocs := nbloc } hRoom } := by
  have hValue := mbr.count_toInt (by omega)
  have hNotFull : ¬ (8 : Int32) ≤ mbr.count := by
    have hEight : (8 : Int32).toInt = 8 := rfl
    rw [Int32.le_iff_toInt_le, hValue, hEight]
    omega
  refine ⟨_, mbr.nextCylSect_eq (by omega), ?_⟩
  simp only [new, if_neg hNotFull,
    mbr.nextCylSect_eq (by omega), hValue,
    setVolume?_natCast hRoom, Option.bind_eq_bind,
    Option.bind_some]

theorem nbVolume_succ
    (hRoom : mbr.nbVolume.toNat < 8) :
    (mbr.nbVolume + 1).toNat = mbr.nbVolume.toNat + 1 := by
  rw [UInt32.toNat_add]
  exact Nat.mod_eq_of_lt (by simp; omega)

/- The volume recorded in a free slot joins the entries. -/
theorem entries_record
    (hRoom : mbr.nbVolume.toNat < 8)
    (v : Volume) :
    entries
        { nbVolume := mbr.nbVolume + 1
          volumes :=
            mbr.volumes.set mbr.nbVolume.toNat v hRoom } =
      mbr.entries ++ [v] := by
  have hLength :
      mbr.nbVolume.toNat < mbr.volumes.toList.length := by
    simpa using hRoom
  simp only [entries, nbVolume_succ hRoom,
    Vector.toList_set]
  rw [List.take_succ_eq_append_getElem (by simpa using hLength),
    List.getElem_set_self, List.take_set_of_le (Nat.le_refl _)]

/-
  `new` on a table with room appends one volume, which starts
  where the last one ends.
-/
theorem new_spec
    (hRoom : mbr.nbVolume.toNat < 8)
    (nbloc : Int32) :
    ∃ after v,
      mbr.new nbloc = some after ∧
      after.nbVolume.toNat = mbr.nbVolume.toNat + 1 ∧
      after.entries = mbr.entries ++ [v] ∧
      v.nbBlocs = nbloc ∧
      mbr.nextCylSect =
        some (v.debutCyl, v.debutSect) := by
  rcases mbr.new_records hRoom nbloc with
    ⟨cylSect, hNext, hNew⟩
  exact
    ⟨_, _, hNew, nbVolume_succ hRoom,
      entries_record hRoom _, rfl, hNext⟩

/- Every slot but the one that `new` records in is kept. -/
theorem volume?_new_kept
    (hCount : mbr.nbVolume.toNat ≤ 8)
    {nbloc : Int32}
    {after : Mbr}
    (hNew : mbr.new nbloc = some after)
    {i : Int}
    (hKept :
      mbr.nbVolume.toNat < 8 → i ≠ mbr.nbVolume.toNat) :
    after.volume? i = mbr.volume? i := by
  by_cases hRoom : mbr.nbVolume.toNat < 8
  · rcases mbr.new_records hRoom nbloc with
      ⟨cylSect, _, hRecord⟩
    cases hRecord.symm.trans hNew
    have hNe := hKept hRoom
    by_cases hNonneg : 0 ≤ i
    · rw [volume?, volume?, if_pos hNonneg, if_pos hNonneg]
      exact Vector.getElem?_set_ne hRoom (by omega)
    · rw [volume?, volume?, if_neg hNonneg, if_neg hNonneg]
  · cases (new_full (by omega) nbloc).symm.trans hNew
    rfl

------------------------------------------------------------
-- Deletion
------------------------------------------------------------

/- The loop moves the `k` entries from index `i` down by one. -/
theorem shiftLoop_spec
    (mbr : Mbr)
    (k i : Nat)
    {vol : Int32}
    (hVol : vol.toInt = i)
    (hLow : 1 ≤ i)
    (hHigh : i + k ≤ 8) :
    ∃ after,
      shiftLoop k vol mbr = some after ∧
      after.nbVolume = mbr.nbVolume ∧
      ∀ j,
        after.volumes[j]? =
          if i - 1 ≤ j ∧ j < i - 1 + k then
            mbr.volumes[j + 1]?
          else mbr.volumes[j]? := by
  induction k generalizing vol i mbr with
  | zero =>
      refine ⟨mbr, rfl, rfl, fun j => ?_⟩
      rw [if_neg (by omega)]
  | succ k ih =>
      have hOne : (1 : Int32).toInt = 1 := rfl
      have hPrev : (vol - 1).toInt = ((i - 1 : Nat) : Int) := by
        rw [FixedWidth.toInt_sub] <;> rw [hVol, hOne]
        all_goals omega
      have hNext : (vol + 1).toInt = ((i + 1 : Nat) : Int) := by
        rw [FixedWidth.toInt_add] <;> rw [hVol, hOne]
        all_goals omega
      have hi : i < 8 := by omega
      have hPrevLt : i - 1 < 8 := by omega
      rcases ih
          { mbr with
            volumes :=
              mbr.volumes.set (i - 1) mbr.volumes[i]
                hPrevLt }
          (i + 1) hNext (by omega) (by omega) with
        ⟨after, hLoop, hCount, hEntries⟩
      refine ⟨after, ?_, hCount, ?_⟩
      · simp only [shiftLoop, hVol, hPrev, volume?_natCast,
          Vector.getElem?_eq_getElem hi,
          setVolume?_natCast hPrevLt, Option.bind_eq_bind,
          Option.bind_some, hLoop]
      · intro j
        rw [hEntries]
        simp only [Nat.add_sub_cancel]
        -- Entry `i - 1` is the one written in this iteration.
        by_cases hHere : j = i - 1
        · subst hHere
          rw [if_neg (by omega), if_pos (by omega)]
          simp [show i - 1 + 1 = i by omega, hPrevLt, hi]
        · by_cases hMoved : i ≤ j ∧ j < i + k
          · rw [if_pos hMoved, if_pos (by omega)]
            exact Vector.getElem?_set_ne hPrevLt (by omega)
          · rw [if_neg hMoved, if_neg (by omega)]
            exact Vector.getElem?_set_ne hPrevLt (by omega)

theorem nbVolume_pred
    (hPos : 0 < mbr.nbVolume.toNat) :
    (mbr.nbVolume - 1).toNat = mbr.nbVolume.toNat - 1 := by
  have hOne : (1 : UInt32) ≤ mbr.nbVolume := by
    rw [UInt32.le_iff_toNat_le]
    exact hPos
  rw [UInt32.toNat_sub_of_le _ _ hOne]
  rfl

/-
  `del` of an existing volume moves the later entries down.
  The slot of the last one keeps its old content.
-/
theorem del_moves
    (hCount : mbr.nbVolume.toNat ≤ 8)
    {vol : Int32}
    (hLow : 0 ≤ vol.toInt)
    (hHigh : vol.toInt < mbr.nbVolume.toNat) :
    ∃ after,
      mbr.del vol = some after ∧
      after.nbVolume.toNat = mbr.nbVolume.toNat - 1 ∧
      ∀ j,
        after.volumes[j]? =
          if vol.toInt.toNat ≤ j ∧
              j < mbr.nbVolume.toNat - 1 then
            mbr.volumes[j + 1]?
          else mbr.volumes[j]? := by
  have hValue := mbr.count_toInt hCount
  have hOne : (1 : Int32).toInt = 1 := rfl
  have hZero : (0 : Int32).toInt = 0 := rfl
  have hNotEmpty : ¬ mbr.count ≤ 0 := by
    rw [Int32.le_iff_toInt_le, hValue, hZero]
    omega
  have hNext :
      (vol + 1).toInt = ((vol.toInt.toNat + 1 : Nat) : Int) := by
    rw [FixedWidth.toInt_add] <;> rw [hOne]
    all_goals omega
  rcases shiftLoop_spec mbr
      (mbr.nbVolume.toNat - (vol.toInt.toNat + 1))
      (vol.toInt.toNat + 1) hNext (by omega) (by omega) with
    ⟨after, hLoop, hSame, hEntries⟩
  have hFuel :
      (mbr.count.toInt - (vol + 1).toInt).toNat =
        mbr.nbVolume.toNat - (vol.toInt.toNat + 1) := by
    rw [hValue, hNext]
    omega
  refine
    ⟨{ after with nbVolume := after.nbVolume - 1 },
      ?_, ?_, ?_⟩
  · simp only [del, if_neg hNotEmpty, hFuel, hLoop,
      Option.bind_eq_bind, Option.bind_some]
  · simp only [hSame]
    exact nbVolume_pred (by omega)
  · intro j
    rw [hEntries]
    congr 1
    simp only [Nat.add_sub_cancel, eq_iff_iff]
    omega

/- Slots before the removed one, or from the last one on. -/
theorem volume?_del_kept
    (hCount : mbr.nbVolume.toNat ≤ 8)
    {vol : Int32}
    (hLow : 0 ≤ vol.toInt)
    (hHigh : vol.toInt < mbr.nbVolume.toNat)
    {after : Mbr}
    (hDel : mbr.del vol = some after)
    {i : Int}
    (hKept :
      i < vol.toInt ∨ (mbr.nbVolume.toNat : Int) - 1 ≤ i) :
    after.volume? i = mbr.volume? i := by
  rcases mbr.del_moves hCount hLow hHigh with
    ⟨after', hDel', _, hSlots⟩
  cases hDel'.symm.trans hDel
  by_cases hNonneg : 0 ≤ i
  · rw [volume?, volume?, if_pos hNonneg, if_pos hNonneg,
      hSlots, if_neg (by omega)]
  · rw [volume?, volume?, if_neg hNonneg, if_neg hNonneg]

/- `del` of an existing volume removes it from the entries. -/
theorem del_spec
    (hCount : mbr.nbVolume.toNat ≤ 8)
    {vol : Int32}
    (hLow : 0 ≤ vol.toInt)
    (hHigh : vol.toInt < mbr.nbVolume.toNat) :
    ∃ after,
      mbr.del vol = some after ∧
      after.nbVolume.toNat = mbr.nbVolume.toNat - 1 ∧
      after.entries =
        mbr.entries.eraseIdx vol.toInt.toNat := by
  rcases mbr.del_moves hCount hLow hHigh with
    ⟨after, hDel, hPred, hEntries⟩
  refine ⟨after, hDel, hPred, ?_⟩
  apply List.ext_getElem?
  intro j
  rw [List.getElem?_eraseIdx]
  simp only [entries, List.getElem?_take,
    Vector.getElem?_toList, hPred, hEntries]
  by_cases hBefore : j < vol.toInt.toNat
  · rw [if_pos hBefore, if_pos (by omega),
      if_neg (by omega), if_pos (by omega)]
  · rw [if_neg hBefore]
    by_cases hMoved : j < mbr.nbVolume.toNat - 1
    · rw [if_pos hMoved, if_pos ⟨by omega, hMoved⟩,
        if_pos (by omega)]
    · rw [if_neg hMoved, if_neg (by omega)]

end Mbr

end AsaKernel
