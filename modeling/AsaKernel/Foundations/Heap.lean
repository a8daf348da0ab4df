import Mathlib.Data.List.AList

/-
  A heap of cells of one type, addressed by 64-bit pointers.

  Access through a pointer that designates no live cell is
  undefined, so `load` and `store` are partial.  An
  `Allocator` stands for the memory allocator of a system: it
  chooses the address of each new cell.  The choice may depend
  on the live cells and on how often memory was requested
  before, and the laws hold for every heap.

  Main declarations:
    * `Heap`, `Heap.load`, `Heap.store`, `Heap.release`
    * `Allocator`, `Heap.alloc`
    * `Heap.Extends`
    * `Heap.alloc_ne_none`, `Heap.alloc_spec`
    * `Allocator.firstFit`
-/

------------------------------------------------------------
-- Heaps
------------------------------------------------------------

namespace AsaKernel

/- Live cells, with the number of past memory requests. -/
structure Heap (α : Type) where
  cells : AList fun _ : UInt64 => α
  calls : Nat

namespace Heap

variable {α : Type}

/- A heap without cells. -/
def empty : Heap α where
  cells := ∅
  calls := 0

/- The number of live cells. -/
def size
    (heap : Heap α) : Nat :=
  heap.cells.keys.length

/- Read the cell that a pointer designates. -/
def load
    (heap : Heap α)
    (p : UInt64) : Option α :=
  heap.cells.lookup p

/- Overwrite the cell that a pointer designates. -/
def store
    (heap : Heap α)
    (p : UInt64)
    (a : α) : Option (Heap α) :=
  if p ∈ heap.cells then
    some { heap with cells := heap.cells.insert p a }
  else none

/- Give a cell back. -/
def release
    (heap : Heap α)
    (p : UInt64) : Heap α :=
  { heap with cells := heap.cells.erase p }

/- A request for memory that will not hold a cell. -/
def scratch
    (heap : Heap α) : Heap α :=
  { heap with calls := heap.calls + 1 }

variable {heap after : Heap α} {p q : UInt64} {a : α}

theorem mem_cells_iff :
    p ∈ heap.cells ↔ heap.load p ≠ none := by
  rw [load, Ne, AList.lookup_eq_none, not_not]

@[simp] theorem load_scratch :
    heap.scratch.load p = heap.load p := rfl

@[simp] theorem size_scratch :
    heap.scratch.size = heap.size := rfl

theorem load_release_ne
    (hNe : q ≠ p) :
    (heap.release p).load q = heap.load q := by
  unfold load release
  exact AList.lookup_erase_ne hNe

theorem load_release_self :
    (heap.release p).load p = none := by
  unfold load release
  exact AList.lookup_erase p heap.cells

theorem size_release
    (hLive : heap.load p = some a) :
    (heap.release p).size + 1 = heap.size := by
  have hMem : p ∈ heap.cells := by
    rw [mem_cells_iff, hLive]
    exact Option.some_ne_none a
  simp only [size, release, AList.keys_erase]
  exact List.length_erase_add_one (AList.mem_keys.mp hMem)

/- Different live cells are counted once each. -/
theorem length_le_size
    {ps : List UInt64}
    (hNodup : ps.Nodup)
    (hLive : ∀ p ∈ ps, heap.load p ≠ none) :
    ps.length ≤ heap.size := by
  refine List.Nodup.length_le_of_subset hNodup ?_
  intro p hMem
  rw [← AList.mem_keys, mem_cells_iff]
  exact hLive p hMem

/- Overwriting a live cell changes this cell only. -/
theorem store_spec
    {old : α}
    (hLive : heap.load p = some old)
    (a : α) :
    ∃ after,
      heap.store p a = some after ∧
      after.load p = some a ∧
      (∀ q, q ≠ p → after.load q = heap.load q) ∧
      after.size = heap.size ∧
      after.calls = heap.calls := by
  have hMem : p ∈ heap.cells := by
    rw [mem_cells_iff, hLive]
    exact Option.some_ne_none old
  refine ⟨_, if_pos hMem, ?_, ?_, ?_, rfl⟩
  · exact AList.lookup_insert heap.cells
  · intro q hNe
    exact AList.lookup_insert_ne hNe
  · simp only [size, AList.keys_insert, List.length_cons]
    exact List.length_erase_add_one (AList.mem_keys.mp hMem)

/- Every live cell of `base` is live in the heap, unchanged. -/
def Extends
    (heap base : Heap α) : Prop :=
  ∀ p a, base.load p = some a → heap.load p = some a

theorem Extends.refl :
    heap.Extends heap :=
  fun _ _ hLive => hLive

theorem Extends.trans
    {base : Heap α}
    (hAfter : after.Extends heap)
    (hHeap : heap.Extends base) :
    after.Extends base :=
  fun q b hLive => hAfter q b (hHeap q b hLive)

/- A free address was free in every smaller heap. -/
theorem Extends.free
    {base : Heap α}
    (hExtends : heap.Extends base)
    (hFree : heap.load p = none) :
    base.load p = none := by
  cases hBase : base.load p with
  | none => rfl
  | some b =>
      rw [hExtends p b hBase] at hFree
      exact absurd hFree (Option.some_ne_none b)

/- Only an address outside `base` was written. -/
theorem Extends.write
    {base : Heap α}
    (hExtends : heap.Extends base)
    (hFree : base.load p = none)
    (hOthers :
      ∀ q, q ≠ p → after.load q = heap.load q) :
    after.Extends base := by
  intro q b hLive
  rw [hOthers q (by
    rintro rfl
    rw [hFree] at hLive
    exact absurd hLive.symm (Option.some_ne_none b))]
  exact hExtends q b hLive

end Heap

------------------------------------------------------------
-- Allocation
------------------------------------------------------------

/- Where the next cell is placed; 0 means that none is left. -/
structure Allocator (α : Type) where
  malloc : Heap α → UInt64
  capacity : Nat
  malloc_ne_zero :
    ∀ heap : Heap α,
      heap.size < capacity → malloc heap ≠ 0
  malloc_fresh :
    ∀ heap : Heap α,
      malloc heap ≠ 0 → heap.load (malloc heap) = none

namespace Heap

variable {α : Type}

/-
  Place a new cell.  The cell is written without a test of the
  address, so a failed request is undefined.
-/
def alloc
    (allocator : Allocator α)
    (heap : Heap α)
    (a : α) : Option (UInt64 × Heap α) :=
  let p := allocator.malloc heap
  if p = 0 then none
  else
    some (p,
      { cells := heap.cells.insert p a
        calls := heap.calls + 1 })

variable {allocator : Allocator α}
variable {heap : Heap α}

/- As long as there is room a new cell can be placed. -/
theorem alloc_ne_none
    (hRoom : heap.size < allocator.capacity)
    (a : α) :
    heap.alloc allocator a ≠ none := by
  rw [alloc, if_neg (allocator.malloc_ne_zero heap hRoom)]
  exact Option.some_ne_none _

/- A new cell is placed apart from the live ones. -/
theorem alloc_spec
    {a : α}
    {p : UInt64}
    {after : Heap α}
    (hAlloc : heap.alloc allocator a = some (p, after)) :
    p ≠ 0 ∧ heap.load p = none ∧
      after.load p = some a ∧
      (∀ q, q ≠ p → after.load q = heap.load q) ∧
      after.size = heap.size + 1 := by
  simp only [alloc, Option.ite_none_left_eq_some,
    Option.some.injEq, Prod.mk.injEq] at hAlloc
  rcases hAlloc with ⟨hNonzero, rfl, rfl⟩
  have hFresh := allocator.malloc_fresh heap hNonzero
  have hNotMem :
      allocator.malloc heap ∉ heap.cells.keys := by
    rw [← AList.mem_keys, mem_cells_iff, hFresh]
    simp
  refine ⟨hNonzero, hFresh, ?_, ?_, ?_⟩
  · exact AList.lookup_insert heap.cells
  · intro q hNe
    exact AList.lookup_insert_ne hNe
  · simp only [size, AList.keys_insert, List.length_cons,
      List.erase_of_not_mem hNotMem]

end Heap

------------------------------------------------------------
-- First Fit
------------------------------------------------------------

namespace Allocator

variable {α : Type}

/- The address of the `k`th slot of 16 bytes. -/
def slot
    (k : Nat) : UInt64 :=
  UInt64.ofNat (16 * (k + 1))

theorem toNat_slot
    {k : Nat}
    (hk : k ≤ 4294967296) :
    (slot k).toNat = 16 * (k + 1) := by
  rw [slot, UInt64.toNat_ofNat']
  exact Nat.mod_eq_of_lt (by omega)

/- The first slot that holds no live cell. -/
def firstFree
    (heap : Heap α) : UInt64 :=
  match (List.range (heap.size + 1)).find? fun k =>
      (heap.load (slot k)).isNone with
  | some k => slot k
  | none => 0

/- Among more slots than live cells, one is free. -/
theorem firstFree_ne_zero
    (heap : Heap α)
    (hRoom : heap.size < 4294967296) :
    firstFree heap ≠ 0 := by
  unfold firstFree
  cases hFind : (List.range (heap.size + 1)).find? fun k =>
      (heap.load (slot k)).isNone with
  | some k =>
      have hk := List.mem_of_find?_eq_some hFind
      rw [List.mem_range] at hk
      intro hZero
      have hValue := toNat_slot (k := k) (by omega)
      have hAddress : slot k = 0 := hZero
      rw [hAddress] at hValue
      simp at hValue
  | none =>
      rw [List.find?_eq_none] at hFind
      have hLive :
          ∀ p ∈ (List.range (heap.size + 1)).map slot,
            heap.load p ≠ none := by
        intro p hp
        rcases List.mem_map.mp hp with ⟨k, hk, rfl⟩
        have hTaken := hFind k hk
        rwa [Option.isNone_iff_eq_none] at hTaken
      have hNodup :
          ((List.range (heap.size + 1)).map slot).Nodup := by
        apply List.Nodup.map_on _ List.nodup_range
        intro i hi j hj hEq
        rw [List.mem_range] at hi hj
        have hiValue := toNat_slot (k := i) (by omega)
        have hjValue := toNat_slot (k := j) (by omega)
        rw [hEq] at hiValue
        omega
      have hLength := Heap.length_le_size hNodup hLive
      rw [List.length_map, List.length_range] at hLength
      omega

/- Place each new cell in the first free slot. -/
def firstFit : Allocator α where
  malloc := firstFree
  capacity := 4294967296
  malloc_ne_zero := firstFree_ne_zero
  malloc_fresh heap hNonzero := by
    unfold firstFree at hNonzero ⊢
    split at hNonzero
    · next k hFind =>
        simpa using List.find?_some hFind
    · exact absurd rfl hNonzero

end Allocator

end AsaKernel
