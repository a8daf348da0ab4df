import AsaKernel.Volume.DiskBounds

/-
  The command `del` with an arbitrary answer.

  `del` compares the answer with nothing: it shifts the
  entries behind the answer and then always lowers the count.
  A number past the last volume thus removes the last volume,
  and a negative number indexes in front of the array.

  Main declarations:
    * `Mbr.del_nbVolume`, `Mbr.shiftLoop_outside`
    * `Mbr.DeletesNamed`
    * `Mbr.deletesNamed_iff`
-/

------------------------------------------------------------
-- Any Answer
------------------------------------------------------------

namespace AsaKernel

open Transition

namespace Mbr

variable {mbr after : Mbr} {vol : Int32}

theorem setVolume?_nbVolume
    {i : Int}
    {v : Volume}
    (hSet : mbr.setVolume? i v = some after) :
    after.nbVolume = mbr.nbVolume := by
  unfold setVolume? at hSet
  split at hSet
  · cases hSet
    rfl
  · cases hSet

/- Shifting entries does not touch the count. -/
theorem shiftLoop_nbVolume
    {k : Nat}
    (hLoop : shiftLoop k vol mbr = some after) :
    after.nbVolume = mbr.nbVolume := by
  induction k generalizing vol mbr with
  | zero =>
      cases hLoop
      rfl
  | succ k ih =>
      unfold shiftLoop at hLoop
      rcases Option.bind_eq_some_iff.mp hLoop with
        ⟨tmpPart, _, hLoop⟩
      rcases Option.bind_eq_some_iff.mp hLoop with
        ⟨mid, hSet, hLoop⟩
      rw [ih hLoop, setVolume?_nbVolume hSet]

theorem count_pos
    (hCount : mbr.nbVolume.toNat ≤ 8)
    (hPos : 1 ≤ mbr.nbVolume.toNat) :
    ¬ mbr.count ≤ 0 := by
  have hValue := mbr.count_toInt hCount
  have hZero : (0 : Int32).toInt = 0 := rfl
  rw [Int32.le_iff_toInt_le, hValue, hZero]
  omega

/- Whatever the answer, `del` lowers the count. -/
theorem del_nbVolume
    (hCount : mbr.nbVolume.toNat ≤ 8)
    (hPos : 1 ≤ mbr.nbVolume.toNat)
    (hDel : mbr.del vol = some after) :
    after.nbVolume = mbr.nbVolume - 1 := by
  unfold del at hDel
  rw [if_neg (count_pos hCount hPos)] at hDel
  rcases Option.bind_eq_some_iff.mp hDel with
    ⟨shifted, hLoop, hAfter⟩
  cases hAfter
  rw [shiftLoop_nbVolume hLoop]

/- A shift that starts at entry 0 or before leaves the array. -/
theorem shiftLoop_outside
    (hStart : vol.toInt ≤ 0)
    (k : Nat) :
    shiftLoop (k + 1) vol mbr = none := by
  unfold shiftLoop
  by_cases hEntry : vol.toInt < 0
  · have hRead : mbr.volume? vol.toInt = none :=
      if_neg (by omega)
    rw [hRead]
    rfl
  · have hOne : (1 : Int32).toInt = 1 := rfl
    have hPrev : (vol - 1).toInt = -1 := by
      rw [FixedWidth.toInt_sub] <;> rw [hOne]
      all_goals omega
    have hSet :
        ∀ v, mbr.setVolume? (vol - 1).toInt v = none :=
      fun v => dif_neg fun hBounds => by
        rw [hPrev] at hBounds
        omega
    cases mbr.volume? vol.toInt with
    | none => rfl
    | some tmpPart =>
        rw [Option.bind_eq_bind, Option.bind_some, hSet]
        rfl

------------------------------------------------------------
-- Exact Effect
------------------------------------------------------------

/-
  What the name of the command promises: it indexes inside the
  array, removes the named volume and no other, and leaves the
  table as it is when no volume has the number.
-/
def DeletesNamed
    (mbr : Mbr)
    (vol : Int32) : Prop :=
  ∃ after,
    mbr.del vol = some after ∧
    (mbr.Exists vol →
      after.nbVolume.toNat = mbr.nbVolume.toNat - 1 ∧
      after.entries =
        mbr.entries.eraseIdx vol.toInt.toNat) ∧
    (¬ mbr.Exists vol → after = mbr)

/-
  `del` has this effect exactly when the number is that of a
  volume.
-/
theorem deletesNamed_iff
    (hPos : 1 ≤ mbr.nbVolume.toNat)
    (hCount : mbr.nbVolume.toNat ≤ 8)
    (vol : Int32) :
    mbr.DeletesNamed vol ↔
      0 ≤ vol.toInt ∧ vol.toInt < mbr.nbVolume.toNat := by
  constructor
  · rintro ⟨after, hDel, _, hUnchanged⟩
    by_contra hNot
    -- The count is lowered although no volume was named.
    have hPred := del_nbVolume hCount hPos hDel
    rw [hUnchanged hNot] at hPred
    have hNat := congrArg UInt32.toNat hPred
    rw [nbVolume_pred hPos] at hNat
    omega
  · rintro ⟨hLow, hHigh⟩
    rcases mbr.del_spec hCount hLow hHigh with
      ⟨after, hDel, hPred, hErased⟩
    exact
      ⟨after, hDel, fun _ => ⟨hPred, hErased⟩,
        fun hNot => absurd ⟨hLow, hHigh⟩ hNot⟩

/- A table of two volumes. -/
def twoVolumes : Mbr where
  nbVolume := 2
  volumes :=
    #v[⟨TypeE.base, 0, 1, 3⟩, ⟨TypeE.base, 0, 4, 5⟩,
      ⟨TypeE.base, 0, 0, 0⟩, ⟨TypeE.base, 0, 0, 0⟩,
      ⟨TypeE.base, 0, 0, 0⟩, ⟨TypeE.base, 0, 0, 0⟩,
      ⟨TypeE.base, 0, 0, 0⟩, ⟨TypeE.base, 0, 0, 0⟩]

/- It is what `new` records for 3 and for 5 blocks. -/
theorem diskPacked_twoVolumes :
    twoVolumes.DiskPacked := by
  have hRun :
      run TableCmd.step emptyTable [.new 3, .new 5] =
        some twoVolumes := by
    decide
  exact (diskPacked_of_run [.new 3, .new 5] rfl (by decide)
    (by decide)).2 twoVolumes (reached_of_run hRun)

theorem deletesNamed_sample :
    twoVolumes.DeletesNamed 0 := by
  have hPos : 1 ≤ twoVolumes.nbVolume.toNat := by decide
  exact (deletesNamed_iff hPos (by decide) 0).mpr
    (by decide)

/- The number 5 names no volume, and volume 1 is lost. -/
theorem del_five_drops_last :
    ¬ twoVolumes.DeletesNamed 5 := by
  rintro ⟨after, hDel, _, hUnchanged⟩
  rw [hUnchanged (by decide)] at hDel
  exact absurd hDel (by decide)

end Mbr

end AsaKernel
