import Mathlib.Order.Interval.Set.Disjoint
import Mathlib.Order.CompletePartialOrder
import Mathlib.Data.List.Pairwise

/-
  Lists of half-open extents laid out in increasing order.

  The elements of the list are arbitrary; `lo` and `hi` read
  their bounds in a linear order.  A list is packed when each
  extent ends before every later one starts, so gaps are
  allowed and overlaps are not.

  Main declarations:
    * `Packed`
    * `Packed.eraseIdx`
    * `Packed.concat`
    * `Packed.disjoint`
-/

------------------------------------------------------------
-- Packed Extents
------------------------------------------------------------

namespace AsaKernel

namespace Extents

variable {β ι : Type*} [LinearOrder ι]
variable (lo hi : β → ι)

/- Every extent ends before each later one starts. -/
def Packed
    (extents : List β) : Prop :=
  extents.Pairwise (fun a b => hi a ≤ lo b)

variable {lo hi}

theorem packed_nil :
    Packed lo hi ([] : List β) :=
  List.Pairwise.nil

/- Removing an extent leaves a gap and keeps the order. -/
theorem Packed.eraseIdx
    {extents : List β}
    (hPacked : Packed lo hi extents)
    (i : Nat) :
    Packed lo hi (extents.eraseIdx i) :=
  hPacked.sublist (List.eraseIdx_sublist extents i)

/- No extent of a packed list ends after the last one. -/
theorem Packed.hi_le_getLast
    {extents : List β}
    {last a : β}
    (hPacked : Packed lo hi extents)
    (hOrder : ∀ b ∈ extents, lo b ≤ hi b)
    (hLast : extents.getLast? = some last)
    (hMem : a ∈ extents) :
    hi a ≤ hi last := by
  rcases List.getLast?_eq_some_iff.mp hLast with
    ⟨front, rfl⟩
  rcases List.mem_append.mp hMem with hFront | hEnd
  · have hBefore : hi a ≤ lo last :=
      (List.pairwise_append.mp hPacked).2.2 a hFront
        last (by simp)
    exact hBefore.trans (hOrder last (by simp))
  · rw [List.mem_singleton.mp hEnd]

/- An extent that starts after the last one can be appended. -/
theorem Packed.concat
    {extents : List β}
    {a : β}
    (hPacked : Packed lo hi extents)
    (hOrder : ∀ b ∈ extents, lo b ≤ hi b)
    (hAfter :
      ∀ last, extents.getLast? = some last →
        hi last ≤ lo a) :
    Packed lo hi (extents ++ [a]) := by
  apply List.pairwise_append.mpr
  refine ⟨hPacked, List.pairwise_singleton _ _, ?_⟩
  intro b hMem c hNew
  rw [List.mem_singleton.mp hNew]
  cases hLast : extents.getLast? with
  | none =>
      rw [List.getLast?_eq_none_iff] at hLast
      simp [hLast] at hMem
  | some last =>
      exact
        (hPacked.hi_le_getLast hOrder hLast hMem).trans
          (hAfter last hLast)

/- Two distinct extents of a packed list share no point. -/
theorem Packed.disjoint
    {extents : List β}
    (hPacked : Packed lo hi extents)
    {i j : Nat}
    (hi' : i < extents.length)
    (hj : j < extents.length)
    (hNe : i ≠ j) :
    Disjoint
      (Set.Ico (lo extents[i]) (hi extents[i]))
      (Set.Ico (lo extents[j]) (hi extents[j])) := by
  have hOrdered := List.pairwise_iff_getElem.mp hPacked
  rw [Set.Ico_disjoint_Ico]
  rcases Nat.lt_or_gt_of_ne hNe with hLt | hGt
  · exact (min_le_left _ _).trans
      ((hOrdered i j hi' hj hLt).trans (le_max_right _ _))
  · exact (min_le_right _ _).trans
      ((hOrdered j i hj hi' hGt).trans (le_max_left _ _))

end Extents

end AsaKernel
