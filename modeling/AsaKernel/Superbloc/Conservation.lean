import AsaKernel.Superbloc.FreeList
import AsaKernel.Foundations.Pool
import AsaKernel.Foundations.Transition
import Mathlib.Data.Finset.Card

/-
  Runs of `new_bloc` and `free_bloc` on a loaded volume.

  A ledger records the blocks that were handed out and not
  taken back.  The session with its ledger refines the pool of
  the volume's data blocks, as long as block 0, which holds
  the superblock, is not freed.

  Main declarations:
    * `BlocCall`, `Ledger`, `Ledger.step`
    * `Ledger.Refines`, `Ledger.Sound`, `Ledger.Sound.step`
    * `Session.no_double_allocation`
    * `Session.zero_reserved_iff`
-/

------------------------------------------------------------
-- Ledgers
------------------------------------------------------------

namespace AsaKernel

open Transition

/- The calls that take a free block or give one back. -/
inductive BlocCall where
  | newBloc
  | freeBloc (bloc : UInt32)
deriving DecidableEq, Repr

/- The block numbers 1, ..., n - 1. -/
def dataBlocs
    (n : Nat) : Set UInt32 :=
  { b | 1 ≤ b.toNat ∧ b.toNat < n }

theorem mem_dataBlocs
    {n : Nat}
    {b : UInt32} :
    b ∈ dataBlocs n ↔ 1 ≤ b.toNat ∧ b.toNat < n :=
  Iff.rfl

/- A session with the blocks that are in use. -/
structure Ledger (δ : Type) where
  session : Session δ
  held : Finset UInt32

namespace Ledger

variable {δ : Type} {libc : Libc} {n : Nat}

/-
  Perform one call.  What `new_bloc` returns is held from then
  on, unless it is 0, its answer for no block.  A block that
  `free_bloc` takes back is no longer held.
-/
def step
    (libc : Libc)
    (t : Ledger δ) : BlocCall → Option (Ledger δ)
| .newBloc => do
    let (res, session) ← t.session.newBloc
    some
      { session := session
        held :=
          if res = 0 then t.held else insert res t.held }
| .freeBloc bloc => do
    let (res, session) ← t.session.freeBloc libc bloc
    some
      { session := session
        held :=
          if res = 1 then t.held.erase bloc else t.held }

/-
  The list is finite, has no block twice, and shares the data
  blocks of the volume with the ledger.
-/
def Partitioned
    (n : Nat)
    (t : Ledger δ) : Prop :=
  ∃ free,
    t.session.freeBlocs = some free ∧ free.Nodup ∧
    (∀ b ∈ free, b ∉ t.held) ∧
    ∀ b, b ∈ dataBlocs n ↔ b ∈ free ∨ b ∈ t.held

/-
  What the answer to a call says of the ledger.  A block that
  `new_bloc` returns was the first one of the list.
-/
def Answers
    (libc : Libc)
    (n : Nat)
    (t : Ledger δ) : BlocCall → Prop
| .newBloc =>
    ∃ res after,
      t.session.newBloc = some (res, after) ∧
      res ∉ t.held ∧
      (res = 0 ↔ ∀ b, b ∈ t.held ↔ b ∈ dataBlocs n) ∧
      (res ≠ 0 → ∃ rest,
        t.session.freeBlocs = some (res :: rest) ∧
        after.freeBlocs = some rest)
| .freeBloc bloc =>
    ∃ res after,
      t.session.freeBloc libc bloc = some (res, after) ∧
      (res = 1 ↔ bloc ∈ t.held) ∧
      (res = 0 ↔ ∃ free,
        t.session.freeBlocs = some free ∧ bloc ∈ free) ∧
      (res = -1 ↔ n ≤ bloc.toNat) ∧
      (res = 0 ∨ res = -1 → after = t.session)

------------------------------------------------------------
-- Refinement of the Pool
------------------------------------------------------------

/- The list of the session is the free list of the pool. -/
structure Refines
    (t : Ledger δ)
    (pool : Pool (dataBlocs n)) : Prop where
  held_eq : t.held = pool.held
  lists :
    ∃ nodes, t.session.Lists nodes ∧
      blocNumbers nodes = pool.free

/-
  The invariant of the calls: the volume is the loaded one,
  the session refines a pool, and each node of the heap
  beyond `base` stands for a block that is free.
-/
structure Sound
    (n base : Nat)
    (t : Ledger δ) : Prop where
  volume :
    ∃ v, t.session.mbr.volume? t.session.currentVol.toInt =
        some v ∧ v.nbBlocs.toInt = n
  pool : ∃ pool : Pool (dataBlocs n), t.Refines pool
  size_heap :
    t.session.heap.size + t.held.card + 1 = base + n

variable {base : Nat} {t : Ledger δ}

theorem Refines.freeBlocs
    {pool : Pool (dataBlocs n)}
    (hRefines : t.Refines pool) :
    t.session.freeBlocs = some pool.free := by
  rcases hRefines.lists with ⟨nodes, hLists, hFree⟩
  rw [hLists.freeBlocs, hFree]

theorem Refines.apart
    {pool : Pool (dataBlocs n)}
    (hRefines : t.Refines pool) :
    ∀ b ∈ pool.free, b ∉ t.held := by
  rw [hRefines.held_eq]
  exact pool.apart

theorem Refines.cover
    {pool : Pool (dataBlocs n)}
    (hRefines : t.Refines pool) :
    ∀ b, b ∈ dataBlocs n ↔ b ∈ pool.free ∨ b ∈ t.held := by
  rw [hRefines.held_eq]
  exact pool.cover

theorem Refines.partitioned
    {pool : Pool (dataBlocs n)}
    (hRefines : t.Refines pool) :
    t.Partitioned n :=
  ⟨pool.free, hRefines.freeBlocs, pool.nodup,
    hRefines.apart, hRefines.cover⟩

/- No data block is the answer for no block. -/
theorem ne_of_mem_dataBlocs
    {b : UInt32}
    (hb : b ∈ dataBlocs n) :
    b ≠ 0 := by
  rintro rfl
  exact absurd hb.1 (by decide)

/- `new_bloc` hands out the first free block of the pool. -/
theorem Sound.newBloc
    (hSound : t.Sound n base) :
    (∃ after,
      t.step libc .newBloc = some after ∧
      after.Sound n base) ∧
      t.Answers libc n .newBloc := by
  rcases hSound.volume with ⟨v, hVol, hSize⟩
  rcases hSound.pool with ⟨pool, hRefines⟩
  rcases hRefines.lists with ⟨nodes, hLists, hFree⟩
  have hExhausted :
      pool.free = [] ↔
        ∀ b, b ∈ t.held ↔ b ∈ dataBlocs n := by
    rw [pool.free_eq_nil_iff, hRefines.held_eq]
    constructor
    · intro hAll b
      exact ⟨fun hHeld =>
        (pool.cover b).mpr (Or.inr hHeld), hAll b⟩
    · intro hAll b hb
      exact (hAll b).mpr hb
  cases nodes with
  | nil =>
      have hCall := Session.newBloc_nil hLists
      have hStep : t.step libc .newBloc = some t := by
        simp [step, hCall]
      have hZero : (0 : UInt32) ∉ t.held := by
        intro hHeld
        exact ne_of_mem_dataBlocs
          ((hRefines.cover 0).mpr (Or.inr hHeld)) rfl
      refine ⟨⟨t, hStep, hSound⟩, 0, t.session, hCall,
        hZero, ?_, fun hNonzero => absurd rfl hNonzero⟩
      exact iff_of_true rfl (hExhausted.mp hFree.symm)
  | cons head rest =>
      rcases head with ⟨p, node⟩
      rcases Session.newBloc_cons hLists with
        ⟨sb, hSb, _, hCall, hRest⟩
      rw [blocNumbers_cons] at hFree
      have hMem :
          node.posBloc.toUInt32 ∈ pool.free := by
        simp [← hFree]
      have hData :=
        (pool.cover _).mpr (Or.inl hMem)
      have hNotHeld := hRefines.apart _ hMem
      have hBlock := ne_of_mem_dataBlocs hData
      have hAfter :
          (t.session.relist sb node.next
            (t.session.heap.release p)).freeBlocs =
              some (blocNumbers rest) :=
        (Session.lists_relist hRest).freeBlocs
      have hStep :
          t.step libc .newBloc = some
            { session :=
                t.session.relist sb node.next
                  (t.session.heap.release p)
              held :=
                insert node.posBloc.toUInt32 t.held } := by
        simp only [step, hCall, Option.bind_eq_bind,
          Option.bind_some, if_neg hBlock]
      refine ⟨⟨_, hStep, ⟨v, hVol, hSize⟩, ?_, ?_⟩, _, _,
        hCall, hNotHeld, ?_, fun _ =>
          ⟨_, hLists.freeBlocs, hAfter⟩⟩
      · exact ⟨pool.take hFree.symm,
          congrArg (insert _) hRefines.held_eq,
          rest, Session.lists_relist hRest, rfl⟩
      · rcases hLists with ⟨_, _, hChain⟩
        have hHeap :=
          Heap.size_release
            (hChain.load_of_mem (List.mem_cons_self))
        have hCard := Finset.card_insert_of_notMem hNotHeld
        have hTotal := hSound.size_heap
        simp only [Session.relist_heap]
        omega
      · rw [← hExhausted, ← hFree]
        exact iff_of_false hBlock (by simp)

theorem Refines.mem_freeBlocs_iff
    {pool : Pool (dataBlocs n)}
    (hRefines : t.Refines pool)
    (bloc : UInt32) :
    (∃ free, t.session.freeBlocs = some free ∧
      bloc ∈ free) ↔ bloc ∈ pool.free := by
  rw [hRefines.freeBlocs]
  simp

/- A block outside the volume is neither free nor held. -/
theorem Sound.freeBloc_beyond
    (hSound : t.Sound n base)
    (libc : Libc)
    {bloc : UInt32}
    (hOutside : n ≤ bloc.toNat) :
    (∃ after,
      t.step libc (.freeBloc bloc) = some after ∧
      after.Sound n base) ∧
      t.Answers libc n (.freeBloc bloc) := by
  rcases hSound.volume with ⟨v, hVol, hSize⟩
  rcases hSound.pool with ⟨pool, hRefines⟩
  rcases hRefines.lists with ⟨nodes, hLists, _⟩
  have hCall :=
    Session.freeBloc_outside libc hLists hVol hSize hOutside
  have hStep : t.step libc (.freeBloc bloc) = some t := by
    simp [step, hCall]
  have hNeither : ¬ (bloc ∈ pool.free ∨ bloc ∈ t.held) := by
    rw [← hRefines.cover, mem_dataBlocs]
    omega
  rw [not_or] at hNeither
  refine ⟨⟨t, hStep, hSound⟩, _, _, hCall, ?_, ?_, ?_,
    fun _ => rfl⟩
  · exact iff_of_false (by decide) hNeither.2
  · rw [hRefines.mem_freeBlocs_iff]
    exact iff_of_false (by decide) hNeither.1
  · exact iff_of_true rfl hOutside

/- A block that is already free stays free. -/
theorem Sound.freeBloc_free
    (hSound : t.Sound n base)
    (libc : Libc)
    {pool : Pool (dataBlocs n)}
    (hRefines : t.Refines pool)
    {bloc : UInt32}
    (hInside : bloc.toNat < n)
    (hMem : bloc ∈ pool.free) :
    (∃ after,
      t.step libc (.freeBloc bloc) = some after ∧
      after.Sound n base) ∧
      t.Answers libc n (.freeBloc bloc) := by
  rcases hSound.volume with ⟨v, hVol, hSize⟩
  rcases hRefines.lists with ⟨nodes, hLists, hFree⟩
  have hListed : bloc ∈ blocNumbers nodes := by
    rw [hFree]
    exact hMem
  have hCall :=
    Session.freeBloc_listed libc hLists hVol hSize hInside
      hListed
  have hStep : t.step libc (.freeBloc bloc) = some t := by
    simp [step, hCall]
  refine ⟨⟨t, hStep, hSound⟩, _, _, hCall, ?_, ?_, ?_,
    fun _ => rfl⟩
  · exact iff_of_false (by decide)
      (hRefines.apart bloc hMem)
  · rw [hRefines.mem_freeBlocs_iff]
    exact iff_of_true rfl hMem
  · exact iff_of_false (by decide) (by omega)

/- A held block becomes the first free block. -/
theorem Sound.freeBloc_held
    (hSound : t.Sound n base)
    (hRoom : base + n ≤ libc.nodes.capacity)
    {pool : Pool (dataBlocs n)}
    (hRefines : t.Refines pool)
    {bloc : UInt32}
    (hInside : bloc.toNat < n)
    (hHeld : bloc ∈ t.held) :
    (∃ after,
      t.step libc (.freeBloc bloc) = some after ∧
      after.Sound n base) ∧
      t.Answers libc n (.freeBloc bloc) := by
  rcases hSound.volume with ⟨v, hVol, hSize⟩
  rcases hRefines.lists with ⟨nodes, hLists, hFree⟩
  have hNotFree : bloc ∉ pool.free :=
    fun hMem => hRefines.apart bloc hMem hHeld
  have hNew : bloc ∉ blocNumbers nodes := by
    rw [hFree]
    exact hNotFree
  have hTotal := hSound.size_heap
  have hCard := Finset.card_erase_add_one hHeld
  rcases Session.freeBloc_pushes libc hLists hVol hSize
      hInside hNew (by omega) with
    ⟨sb, p, node, heap, hSb, hCall, hChain, hNode, hHeap⟩
  have hStep :
      t.step libc (.freeBloc bloc) = some
        { session := t.session.relist sb p heap
          held := t.held.erase bloc } := by
    simp [step, hCall]
  refine ⟨⟨_, hStep, ⟨v, hVol, hSize⟩, ?_, ?_⟩, _, _, hCall,
    ?_, ?_, ?_, ?_⟩
  · rw [hRefines.held_eq] at hHeld
    refine ⟨pool.give hHeld, ?_, _,
      Session.lists_relist hChain, ?_⟩
    · change t.held.erase bloc = pool.held.erase bloc
      rw [hRefines.held_eq]
    · rw [blocNumbers_cons, hNode, hFree]
      rfl
  · simp only [Session.relist_heap]
    omega
  · exact iff_of_true rfl hHeld
  · rw [hRefines.mem_freeBlocs_iff]
    exact iff_of_false (by decide) hNotFree
  · exact iff_of_false (by decide) (by omega)
  · rintro (hZero | hMinus)
    · exact absurd hZero (by decide)
    · exact absurd hMinus (by decide)

/-
  `free_bloc` takes a held block back, and leaves everything
  as it is for any other block number but 0.
-/
theorem Sound.freeBloc
    (hSound : t.Sound n base)
    (hRoom : base + n ≤ libc.nodes.capacity)
    {bloc : UInt32}
    (hBloc : bloc ≠ 0) :
    (∃ after,
      t.step libc (.freeBloc bloc) = some after ∧
      after.Sound n base) ∧
      t.Answers libc n (.freeBloc bloc) := by
  by_cases hOutside : n ≤ bloc.toNat
  · exact hSound.freeBloc_beyond libc hOutside
  rcases hSound.pool with ⟨pool, hRefines⟩
  have hInside : bloc.toNat < n := by omega
  have hData : bloc ∈ dataBlocs n := by
    have hPos : bloc.toNat ≠ 0 := fun hZero =>
      hBloc (UInt32.toNat_inj.mp hZero)
    rw [mem_dataBlocs]
    omega
  rcases (hRefines.cover bloc).mp hData with hMem | hHeld
  · exact hSound.freeBloc_free libc hRefines hInside hMem
  · exact hSound.freeBloc_held hRoom hRefines hInside hHeld

/- One call other than freeing block 0 keeps the invariant. -/
theorem Sound.step
    (hSound : t.Sound n base)
    (hRoom : base + n ≤ libc.nodes.capacity)
    {call : BlocCall}
    (hCall : call ≠ .freeBloc 0) :
    (∃ after,
      t.step libc call = some after ∧
      after.Sound n base) ∧
      t.Answers libc n call := by
  cases call with
  | newBloc => exact hSound.newBloc
  | freeBloc bloc =>
      exact hSound.freeBloc hRoom fun hZero =>
        hCall (by rw [hZero])

/- After an initialisation nothing is held. -/
theorem sound_of_initialised
    {s start : Session δ}
    (hInit : s.InitialisedFrom start n)
    {v : Volume}
    (hVol : s.mbr.volume? s.currentVol.toInt = some v)
    (hSize : v.nbBlocs.toInt = n) :
    Sound n s.heap.size
      { session := start, held := ∅ } := by
  have hRange := FixedWidth.toInt_range v.nbBlocs
  rcases hInit.list with
    ⟨sb, nodes, hSb, _, hChain, hBlocs, _⟩
  constructor
  · refine ⟨v, ?_, hSize⟩
    rw [hInit.mbr_eq, hInit.currentVol_eq]
    exact hVol
  · have hCover (b : UInt32) :
        b ∈ dataBlocs n ↔ b ∈ blocsBelow n := by
      rw [mem_dataBlocs, mem_blocsBelow (by omega)]
    exact ⟨Pool.ofList (blocsBelow n)
      (nodup_blocsBelow (by omega)) hCover, rfl, nodes,
      ⟨sb, hSb, hChain⟩, hBlocs⟩
  · have hHeap := hInit.size_heap
    simp only [Finset.card_empty]
    omega

------------------------------------------------------------
-- Runs
------------------------------------------------------------

variable {calls : List BlocCall}

/- Runs that do not free block 0 keep the invariant. -/
theorem sound_of_run
    (hSound : t.Sound n base)
    (hRoom : base + n ≤ libc.nodes.capacity)
    (hCalls : .freeBloc 0 ∉ calls) :
    (∃ last, run (step libc) t calls = some last ∧
      last.Sound n base) ∧
    Throughout (step libc) t calls (Sound n base) ∧
    Always (step libc) t calls (Answers libc n) := by
  have hStep :
      ∀ t' call, Performs (step libc) t calls t' call →
        t'.Sound n base →
          ∃ after, t'.step libc call = some after ∧
            after.Sound n base := by
    intro t' call hPerforms hSound'
    refine (hSound'.step hRoom ?_).1
    rintro rfl
    exact hCalls hPerforms.mem
  have hAll :
      Throughout (step libc) t calls (Sound n base) :=
    fun t' hReached =>
      reached_of_defined (Sound n base) hSound hStep hReached
  refine ⟨run_defined (Sound n base) hSound hStep, hAll, ?_⟩
  intro t' call hPerforms
  refine ((hAll t' hPerforms.reached).step hRoom ?_).2
  rintro rfl
  exact hCalls hPerforms.mem

/- Freeing block 0 puts it in front of the list. -/
theorem Sound.freeBloc_zero
    (hSound : t.Sound n base)
    (hn : 2 ≤ n)
    (hRoom : base + n ≤ libc.nodes.capacity) :
    ∃ after blocs,
      t.step libc (.freeBloc 0) = some after ∧
      after.session.freeBlocs = some (0 :: blocs) := by
  rcases hSound.volume with ⟨v, hVol, hSize⟩
  rcases hSound.pool with ⟨pool, hRefines⟩
  rcases hRefines.lists with ⟨nodes, hLists, hFree⟩
  have hTotal := hSound.size_heap
  have hZero : (0 : UInt32).toNat < n := by
    have hValue : (0 : UInt32).toNat = 0 := rfl
    omega
  have hNew : 0 ∉ blocNumbers nodes := by
    intro hMem
    rw [hFree] at hMem
    have hData := (pool.cover 0).mpr (Or.inl hMem)
    exact absurd hData.1 (by decide)
  rcases Session.freeBloc_pushes libc hLists hVol hSize
      hZero hNew (by omega) with
    ⟨sb, p, node, heap, _, hCall, hChain, hNode, _⟩
  have hStep :
      t.step libc (.freeBloc 0) = some
        { session := t.session.relist sb p heap
          held := t.held.erase 0 } := by
    simp [Ledger.step, hCall]
  refine ⟨_, blocNumbers nodes, hStep, ?_⟩
  rw [(Session.lists_relist hChain).freeBlocs,
    blocNumbers_cons, hNode]

/- The answer 0 means an empty list and changes nothing. -/
theorem Sound.newBloc_zero
    (hSound : t.Sound n base)
    {after : Session δ}
    (hCall : t.session.newBloc = some (0, after)) :
    t.session.freeBlocs = some [] ∧ after = t.session := by
  rcases hSound.volume with ⟨v, _, hSize⟩
  rcases hSound.pool with ⟨pool, hRefines⟩
  rcases hRefines.lists with ⟨nodes, hLists, hFree⟩
  cases nodes with
  | nil =>
      cases (Session.newBloc_nil hLists).symm.trans hCall
      exact ⟨hLists.freeBlocs, rfl⟩
  | cons head rest =>
      rcases head with ⟨p, node⟩
      rcases Session.newBloc_cons hLists with
        ⟨sb, _, _, hOther, _⟩
      have hData : node.posBloc.toUInt32 ∈ dataBlocs n :=
        (pool.cover _).mpr (Or.inl (by simp [← hFree]))
      rw [hOther, Option.some.injEq, Prod.mk.injEq] at hCall
      exact absurd hCall.1 (ne_of_mem_dataBlocs hData)

/-
  Every call is executed, block 0 is in no list of the run,
  and `new_bloc` returns 0 only when the list is empty, and
  then changes nothing.
-/
def ZeroReserved
    (libc : Libc)
    (start : Session δ)
    (calls : List BlocCall) : Prop :=
  (∃ last,
    run (step libc)
      { session := start, held := ∅ } calls = some last) ∧
  (Throughout (step libc)
    { session := start, held := ∅ } calls fun t =>
      ∃ free, t.session.freeBlocs = some free ∧ 0 ∉ free) ∧
  Always (step libc)
    { session := start, held := ∅ } calls fun t call =>
      call = .newBloc → ∀ after,
        t.session.newBloc = some (0, after) →
          t.session.freeBlocs = some [] ∧ after = t.session

/- The first time block 0 is freed it enters the list. -/
theorem Sound.not_zeroReserved
    {start : Session δ}
    (hSound : Sound n base { session := start, held := ∅ })
    (hn : 2 ≤ n)
    (hRoom : base + n ≤ libc.nodes.capacity)
    (hZero : .freeBloc 0 ∈ calls) :
    ¬ ZeroReserved libc start calls := by
  rintro ⟨_, hAll, _⟩
  rcases List.eq_append_cons_of_mem hZero with
    ⟨before, rest, rfl, hBefore⟩
  rcases sound_of_run hSound hRoom hBefore with
    ⟨⟨t, hRun, hLast⟩, _, _⟩
  rcases hLast.freeBloc_zero hn hRoom with
    ⟨after, blocs, hStep, hList⟩
  have hPerforms :
      Performs (Ledger.step libc)
        { session := start, held := ∅ }
        (before ++ .freeBloc 0 :: rest) t (.freeBloc 0) :=
    ⟨before, rest, rfl, hRun⟩
  rcases hAll after (hPerforms.reached_step hStep) with
    ⟨free, hFree, hNotMem⟩
  cases hList.symm.trans hFree
  exact hNotMem List.mem_cons_self

end Ledger

------------------------------------------------------------
-- Allocation After Initialisation
------------------------------------------------------------

namespace Session

variable {δ : Type} [Drive δ]

/- Initialising the loaded volume starts an empty ledger. -/
theorem initVolume_sound
    (libc : Libc)
    {s : Session δ}
    {vol : UInt32}
    {v : Volume}
    {n : Nat}
    (hVol : s.mbr.volume? vol.toNat = some v)
    (hSize : v.nbBlocs.toInt = n)
    (hn : 2 ≤ n)
    (hCurrent : s.currentVol.toInt = vol.toNat)
    (hRoom : s.heap.size + n ≤ libc.nodes.capacity) :
    ∃ start,
      s.initVolume libc vol = some start ∧
      Ledger.Sound n s.heap.size
        { session := start, held := ∅ } := by
  have hWrites :
      WritesKeep s.mbr vol n fun _ : δ => True :=
    fun _ _ _ _ _ _ _ => trivial
  rcases initVolume_spec libc hVol (by omega)
      hWrites trivial with ⟨hPost, hDefined⟩
  rcases hDefined hRoom with ⟨start, hStart⟩
  rw [← hCurrent] at hVol
  exact ⟨start, hStart, Ledger.sound_of_initialised
    (hPost start hStart).1 hVol hSize⟩

/-
  Conservation of blocks.  From an initialised volume, in
  every run that does not free block 0, the list and the
  blocks in use share the data blocks, and every answer agrees
  with the ledger.
-/
theorem no_double_allocation
    (libc : Libc)
    {s : Session δ}
    {vol : UInt32}
    {v : Volume}
    {n : Nat}
    (hVol : s.mbr.volume? vol.toNat = some v)
    (hSize : v.nbBlocs.toInt = n)
    (hn : 2 ≤ n)
    (hCurrent : s.currentVol.toInt = vol.toNat)
    (hRoom : s.heap.size + n ≤ libc.nodes.capacity)
    (calls : List BlocCall)
    (hCalls : .freeBloc 0 ∉ calls) :
    ∃ start,
      s.initVolume libc vol = some start ∧
      (∃ last,
        run (Ledger.step libc)
          { session := start, held := ∅ } calls =
            some last) ∧
      Throughout (Ledger.step libc)
        { session := start, held := ∅ } calls
        (Ledger.Partitioned n) ∧
      Always (Ledger.step libc)
        { session := start, held := ∅ } calls
        (Ledger.Answers libc n) := by
  rcases initVolume_sound libc hVol hSize hn hCurrent hRoom
    with ⟨start, hStart, hSound⟩
  rcases Ledger.sound_of_run hSound hRoom hCalls with
    ⟨⟨last, hRun, _⟩, hAll, hAnswers⟩
  refine ⟨start, hStart, ⟨last, hRun⟩, ?_, hAnswers⟩
  intro t hReached
  rcases (hAll t hReached).pool with ⟨pool, hRefines⟩
  exact hRefines.partitioned

/-
  Block 0 stays reserved exactly in the runs that do not free
  it: `free_bloc` has no lower bound on the block number.
-/
theorem zero_reserved_iff
    (libc : Libc)
    {s : Session δ}
    {vol : UInt32}
    {v : Volume}
    {n : Nat}
    (hVol : s.mbr.volume? vol.toNat = some v)
    (hSize : v.nbBlocs.toInt = n)
    (hn : 2 ≤ n)
    (hCurrent : s.currentVol.toInt = vol.toNat)
    (hRoom : s.heap.size + n ≤ libc.nodes.capacity)
    (calls : List BlocCall) :
    ∃ start,
      s.initVolume libc vol = some start ∧
      (Ledger.ZeroReserved libc start calls ↔
        .freeBloc 0 ∉ calls) := by
  rcases initVolume_sound libc hVol hSize hn hCurrent hRoom
    with ⟨start, hStart, hSound⟩
  refine ⟨start, hStart, ?_, ?_⟩
  · intro hReserved hZero
    exact
      hSound.not_zeroReserved hn hRoom hZero hReserved
  · intro hCalls
    rcases Ledger.sound_of_run hSound hRoom hCalls with
      ⟨⟨last, hRun, _⟩, hAll, _⟩
    refine ⟨⟨last, hRun⟩, ?_, ?_⟩
    · intro t hReached
      rcases (hAll t hReached).pool with ⟨pool, hRefines⟩
      rcases hRefines.partitioned with
        ⟨free, hFree, _, _, hCover⟩
      refine ⟨free, hFree, fun hMem => ?_⟩
      have hData := (hCover 0).mpr (Or.inl hMem)
      exact absurd hData.1 (by decide)
    · rintro t call hPerforms rfl after hCall
      exact (hAll t hPerforms.reached).newBloc_zero hCall

/- A C library whose memory is filled with zeros. -/
def sampleLibc : Libc where
  nodes := Allocator.firstFit
  garbage _ := Sector.filled 0
  rand _ := 42
  pastLiteral := List.Vector.replicate 19 0

/- A new process on a blank disk, with a table in memory. -/
def blankSession
    (mbr : Mbr) : Session Disk where
  mbr := mbr
  buffer := Sector.filled 0
  currentSuperbloc := none
  currentVol := 0
  heap := Heap.empty
  dev := fun _ => Sector.filled 0

/- A blank disk with one volume. -/
def sampleSession
    (nbBlocs : Int32) : Session Disk :=
  blankSession
    { nbVolume := 1
      volumes :=
        #v[⟨TypeE.base, 0, 1, nbBlocs⟩,
          ⟨TypeE.base, 0, 0, 0⟩, ⟨TypeE.base, 0, 0, 0⟩,
          ⟨TypeE.base, 0, 0, 0⟩, ⟨TypeE.base, 0, 0, 0⟩,
          ⟨TypeE.base, 0, 0, 0⟩, ⟨TypeE.base, 0, 0, 0⟩,
          ⟨TypeE.base, 0, 0, 0⟩] }

/- Both blocks are taken, one is given back and taken again. -/
def sampleCalls : List BlocCall :=
  [.newBloc, .newBloc, .freeBloc 1, .newBloc]

theorem no_double_allocation_sample :
    ∃ start,
      (sampleSession 3).initVolume sampleLibc 0 =
        some start ∧
      (∃ last,
        run (Ledger.step sampleLibc)
          { session := start, held := ∅ } sampleCalls =
            some last) ∧
      Throughout (Ledger.step sampleLibc)
        { session := start, held := ∅ } sampleCalls
        (Ledger.Partitioned 3) ∧
      Always (Ledger.step sampleLibc)
        { session := start, held := ∅ } sampleCalls
        (Ledger.Answers sampleLibc 3) :=
  no_double_allocation sampleLibc
    (s := sampleSession 3) (n := 3) rfl rfl (by decide)
    rfl (by decide) sampleCalls (by decide)

theorem zero_reserved_sample :
    ∃ start,
      (sampleSession 3).initVolume sampleLibc 0 =
        some start ∧
      Ledger.ZeroReserved sampleLibc start sampleCalls := by
  rcases zero_reserved_iff sampleLibc
      (s := sampleSession 3) (n := 3) rfl rfl (by decide)
      rfl (by decide) sampleCalls with
    ⟨start, hStart, hIff⟩
  exact ⟨start, hStart, hIff.mpr (by decide)⟩

/-
  After `free_bloc(0)` block 0 is free, and the next
  `new_bloc` answers 0 although the list is not empty.
-/
theorem free_zero_lists_zero :
    ∃ start,
      (sampleSession 3).initVolume sampleLibc 0 =
        some start ∧
      ¬ Ledger.ZeroReserved sampleLibc start
        [.freeBloc 0, .newBloc] := by
  rcases initVolume_sound sampleLibc
      (s := sampleSession 3) (n := 3) rfl rfl (by decide)
      rfl (by decide) with ⟨start, hStart, hSound⟩
  exact ⟨start, hStart,
    hSound.not_zeroReserved (by decide) (by decide)
      List.mem_cons_self⟩

end Session

end AsaKernel
