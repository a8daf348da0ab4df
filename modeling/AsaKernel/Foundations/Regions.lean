import Mathlib.Data.List.InsertIdx
import Mathlib.Data.List.Nodup
import Mathlib.Logic.Function.Basic

/-
  A memory seen through lists of addresses.

  A region is a list of addresses.  As long as no address
  occurs twice, the contents of the regions are independent
  arrays: what happens to the memory at one address happens to
  one element of one array.

  Main declarations:
    * `Regions.contents`, `Regions.Apart`
    * `Regions.contents_congr`, `Regions.contents_inside`
    * `Regions.contents_update`, `Regions.contents_fill`
-/

------------------------------------------------------------
-- Contents
------------------------------------------------------------

namespace AsaKernel

namespace Regions

variable {κ β : Type*}

/- What the memory holds at the addresses of each region. -/
def contents
    (regions : List (List κ))
    (memory : κ → β) : List (List β) :=
  regions.map fun region => region.map memory

/- No address occurs twice, in one region or in two. -/
def Apart
    (regions : List (List κ)) : Prop :=
  regions.flatten.Nodup

variable {regions : List (List κ)} {region : List κ}
variable {memory after : κ → β}
variable {i j : Nat} {a : κ} {b : β}

@[simp] theorem length_contents :
    (contents regions memory).length = regions.length :=
  List.length_map _

theorem getElem?_contents :
    (contents regions memory)[i]? =
      regions[i]?.map fun region => region.map memory :=
  List.getElem?_map

@[simp] theorem contents_append
    (first second : List (List κ)) :
    contents (first ++ second) memory =
      contents first memory ++ contents second memory :=
  List.map_append

theorem contents_eraseIdx
    (regions : List (List κ))
    (i : Nat) :
    contents (regions.eraseIdx i) memory =
      (contents regions memory).eraseIdx i :=
  (List.eraseIdx_map _ regions i).symm

/- Only the addresses of the regions matter. -/
theorem contents_congr
    (hSame :
      ∀ region ∈ regions, ∀ a ∈ region,
        after a = memory a) :
    contents regions after = contents regions memory := by
  apply List.map_congr_left
  intro region hRegion
  exact List.map_congr_left (hSame region hRegion)

------------------------------------------------------------
-- Changes Inside One Region
------------------------------------------------------------

/- An address of one region lies in no other. -/
theorem Apart.index_eq
    (hApart : Apart regions)
    {region' : List κ}
    (hRegion : regions[i]? = some region)
    (hRegion' : regions[j]? = some region')
    (ha : a ∈ region)
    (ha' : a ∈ region') :
    i = j := by
  rw [Apart, List.nodup_flatten] at hApart
  rcases List.getElem?_eq_some_iff.mp hRegion with
    ⟨hi, rfl⟩
  rcases List.getElem?_eq_some_iff.mp hRegion' with
    ⟨hj, rfl⟩
  have hPairs := List.pairwise_iff_getElem.mp hApart.2
  rcases Nat.lt_trichotomy i j with hLt | hEq | hGt
  · exact absurd ha' (hPairs i j hi hj hLt ha)
  · exact hEq
  · exact absurd ha (hPairs j i hj hi hGt ha')

theorem Apart.nodup
    (hApart : Apart regions)
    (hRegion : regions[i]? = some region) :
    region.Nodup := by
  rw [Apart, List.nodup_flatten] at hApart
  exact hApart.1 region (List.mem_of_getElem? hRegion)

/-
  A change of the memory inside one region replaces one of the
  arrays.
-/
theorem contents_inside
    (hApart : Apart regions)
    (hRegion : regions[i]? = some region)
    (hOutside : ∀ a, a ∉ region → after a = memory a) :
    contents regions after =
      (contents regions memory).set i
        (region.map after) := by
  apply List.ext_getElem?
  intro j
  rw [getElem?_contents, List.getElem?_set,
    getElem?_contents, length_contents]
  by_cases hIndex : i = j
  · have hLength : i < regions.length :=
      (List.getElem?_eq_some_iff.mp hRegion).1
    rw [if_pos hIndex, if_pos hLength, ← hIndex, hRegion]
    rfl
  · rw [if_neg hIndex]
    cases hOther : regions[j]? with
    | none => rfl
    | some region' =>
        rw [Option.map_some, Option.map_some,
          Option.some.injEq]
        apply List.map_congr_left
        intro a ha
        apply hOutside
        intro hMem
        exact hIndex (hApart.index_eq hRegion hOther hMem ha)

/- Filling a region gives every element of its array. -/
theorem contents_fill
    (hApart : Apart regions)
    (hRegion : regions[i]? = some region)
    (hInside : ∀ a ∈ region, after a = b)
    (hOutside : ∀ a, a ∉ region → after a = memory a) :
    contents regions after =
      (contents regions memory).modify i
        fun array => List.replicate array.length b := by
  have hFilled : region.map after =
      List.replicate (region.map memory).length b := by
    rw [List.eq_replicate_iff, List.length_map,
      List.length_map]
    refine ⟨rfl, ?_⟩
    intro c hc
    rcases List.mem_map.mp hc with ⟨a, ha, rfl⟩
    exact hInside a ha
  rw [contents_inside hApart hRegion hOutside, hFilled,
    List.modify_eq_set_getElem?, getElem?_contents, hRegion]
  rfl

variable [DecidableEq κ]

/- The array of a region after a store to its address. -/
theorem map_update
    (hNodup : region.Nodup)
    (hAddr : region[j]? = some a) :
    region.map (Function.update memory a b) =
      (region.map memory).set j b := by
  rcases List.getElem?_eq_some_iff.mp hAddr with ⟨hj, rfl⟩
  apply List.ext_getElem
  · simp
  · intro k hk hk'
    rw [List.length_map] at hk
    rw [List.getElem_map, List.getElem_set,
      List.getElem_map]
    by_cases hIndex : j = k
    · subst hIndex
      rw [if_pos rfl, Function.update_self]
    · rw [if_neg hIndex, Function.update_of_ne]
      intro hEq
      exact hIndex ((hNodup.getElem_inj_iff).mp hEq).symm

/- A store replaces one element of one array. -/
theorem contents_update
    (hApart : Apart regions)
    (hRegion : regions[i]? = some region)
    (hAddr : region[j]? = some a)
    (b : β) :
    contents regions (Function.update memory a b) =
      (contents regions memory).modify i
        fun array => array.set j b := by
  have hMem := List.mem_of_getElem? hAddr
  rw [contents_inside hApart hRegion (fun a' hOutside => by
      apply Function.update_of_ne
      rintro rfl
      exact hOutside hMem),
    map_update (hApart.nodup hRegion) hAddr,
    List.modify_eq_set_getElem?, getElem?_contents, hRegion]
  rfl

end Regions

end AsaKernel
