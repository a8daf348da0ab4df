import Mathlib.Data.Finset.Insert
import Mathlib.Data.Finset.Erase
import Mathlib.Data.Set.Defs

/-
  A pool of resources that are handed out and given back.

  Each resource of a fixed set is either free or held, never
  both.  The free ones are listed in the order in which they
  will be handed out.  The laws are fields, so no operation
  can lose a resource or hand one out twice.

  Main declarations:
    * `Pool`
    * `Pool.ofList`, `Pool.take`, `Pool.give`
    * `Pool.free_eq_nil_iff`
-/

------------------------------------------------------------
-- Pools
------------------------------------------------------------

namespace AsaKernel

/- Every resource is free or held, and none is both. -/
structure Pool
    {β : Type}
    (resources : Set β) where
  free : List β
  held : Finset β
  nodup : free.Nodup
  apart : ∀ b ∈ free, b ∉ held
  cover : ∀ b, b ∈ resources ↔ b ∈ free ∨ b ∈ held

namespace Pool

variable {β : Type} {resources : Set β}

/- A pool of which nothing has been handed out. -/
def ofList
    (free : List β)
    (hNodup : free.Nodup)
    (hCover : ∀ b, b ∈ resources ↔ b ∈ free) :
    Pool resources where
  free := free
  held := ∅
  nodup := hNodup
  apart b _ := Finset.notMem_empty b
  cover b := by simp [hCover]

variable (pool : Pool resources)

/- The pool is exhausted when every resource is held. -/
theorem free_eq_nil_iff :
    pool.free = [] ↔ ∀ b ∈ resources, b ∈ pool.held := by
  constructor
  · intro hNil b hb
    rcases (pool.cover b).mp hb with hFree | hHeld
    · simp [hNil] at hFree
    · exact hHeld
  · intro hAll
    apply List.eq_nil_iff_forall_not_mem.mpr
    intro b hFree
    exact pool.apart b hFree
      (hAll b ((pool.cover b).mpr (Or.inl hFree)))

variable [DecidableEq β]

/- Hand out the first free resource. -/
def take
    {b : β}
    {rest : List β}
    (hFree : pool.free = b :: rest) :
    Pool resources where
  free := rest
  held := insert b pool.held
  nodup := by
    have hNodup := pool.nodup
    rw [hFree, List.nodup_cons] at hNodup
    exact hNodup.2
  apart c hc := by
    have hNodup := pool.nodup
    rw [hFree, List.nodup_cons] at hNodup
    rw [Finset.mem_insert, not_or]
    refine ⟨?_, pool.apart c (by simp [hFree, hc])⟩
    rintro rfl
    exact hNodup.1 hc
  cover c := by
    rw [pool.cover, hFree, List.mem_cons,
      Finset.mem_insert]
    tauto

/- Take back a held resource, which becomes the first free. -/
def give
    {b : β}
    (hHeld : b ∈ pool.held) :
    Pool resources where
  free := b :: pool.free
  held := pool.held.erase b
  nodup :=
    List.nodup_cons.mpr
      ⟨fun hFree => pool.apart b hFree hHeld, pool.nodup⟩
  apart c hc := by
    rw [Finset.mem_erase, not_and]
    intro hNe
    rcases List.mem_cons.mp hc with hHead | hTail
    · exact absurd hHead hNe
    · exact pool.apart c hTail
  cover c := by
    rw [pool.cover, List.mem_cons, Finset.mem_erase]
    by_cases hEq : c = b
    · simp [hEq, hHeld]
    · simp [hEq]

end Pool

end AsaKernel
