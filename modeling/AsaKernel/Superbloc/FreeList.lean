import AsaKernel.Superbloc.Operations

/-
  What the operations of the superblock do to the list of free
  blocks.

  Main declarations:
    * `Session.Lists`, `Session.freeBlocs_eq_some_iff`
    * `Session.InitialisedFrom`, `Session.initVolume_spec`
    * `Session.newBloc_nil`, `Session.newBloc_cons`
    * `Session.freeBloc_outside`, `Session.freeBloc_listed`,
      `Session.freeBloc_pushes`
-/

------------------------------------------------------------
-- Lists of Free Blocks
------------------------------------------------------------

namespace AsaKernel

/- The block numbers of the nodes of a list. -/
def blocNumbers
    (nodes : List (UInt64 × ListBloc)) : List UInt32 :=
  nodes.map fun node => node.2.posBloc.toUInt32

@[simp] theorem blocNumbers_nil :
    blocNumbers [] = [] := rfl

@[simp] theorem blocNumbers_cons
    (node : UInt64 × ListBloc)
    (nodes : List (UInt64 × ListBloc)) :
    blocNumbers (node :: nodes) =
      node.2.posBloc.toUInt32 :: blocNumbers nodes := rfl

@[simp] theorem blocNumbers_append
    (front rest : List (UInt64 × ListBloc)) :
    blocNumbers (front ++ rest) =
      blocNumbers front ++ blocNumbers rest :=
  List.map_append

/- The block numbers 1, ..., n - 1 in order. -/
def blocsBelow
    (n : Nat) : List UInt32 :=
  (List.range' 1 (n - 1)).map UInt32.ofNat

theorem mem_blocsBelow
    {n : Nat}
    (hn : n ≤ 4294967296)
    (b : UInt32) :
    b ∈ blocsBelow n ↔ 1 ≤ b.toNat ∧ b.toNat < n := by
  simp only [blocsBelow, List.mem_map, List.mem_range'_1]
  constructor
  · rintro ⟨j, hj, rfl⟩
    rw [UInt32.toNat_ofNat', Nat.mod_eq_of_lt (by omega)]
    omega
  · intro hb
    exact ⟨b.toNat, by omega, UInt32.ofNat_toNat⟩

theorem nodup_blocsBelow
    {n : Nat}
    (hn : n ≤ 4294967296) :
    (blocsBelow n).Nodup := by
  apply List.Nodup.map_on _ List.nodup_range'
  intro i hi j hj hEq
  rw [List.mem_range'_1] at hi hj
  have hValues := congrArg UInt32.toNat hEq
  rw [UInt32.toNat_ofNat', UInt32.toNat_ofNat',
    Nat.mod_eq_of_lt (by omega),
    Nat.mod_eq_of_lt (by omega)] at hValues
  exact hValues

theorem blocsBelow_succ
    {n : Nat}
    (hn : 1 ≤ n) :
    blocsBelow (n + 1) =
      blocsBelow n ++ [UInt32.ofNat n] := by
  have hCount : n + 1 - 1 = (n - 1) + 1 := by omega
  have hLast : 1 + (n - 1) = n := by omega
  rw [blocsBelow, hCount, List.range'_1_concat,
    List.map_append, hLast]
  rfl

namespace Session

variable {δ : Type} {libc : Libc}
variable {s : Session δ}
variable {nodes : List (UInt64 × ListBloc)}

/- The list of the current superblock has these nodes. -/
def Lists
    (s : Session δ)
    (nodes : List (UInt64 × ListBloc)) : Prop :=
  ∃ sb, s.currentSuperbloc = some sb ∧
    Chain ListBloc.next s.heap sb.first nodes

/- The displayed block numbers are those of the list's nodes. -/
theorem freeBlocs_eq_some_iff
    {blocs : List UInt32} :
    s.freeBlocs = some blocs ↔
      ∃ nodes, s.Lists nodes ∧ blocNumbers nodes = blocs := by
  simp only [freeBlocs, Option.bind_eq_bind,
    Option.bind_eq_some_iff, Chain.walk_eq_some_iff,
    Option.some.injEq, Lists, blocNumbers]
  constructor
  · rintro ⟨sb, hSb, nodes, hChain, hBlocs⟩
    exact ⟨nodes, ⟨sb, hSb, hChain⟩, hBlocs⟩
  · rintro ⟨nodes, ⟨sb, hSb, hChain⟩, hBlocs⟩
    exact ⟨sb, hSb, nodes, hChain, hBlocs⟩

/- The session with another list under its superblock. -/
def relist
    (s : Session δ)
    (sb : Superbloc)
    (first : UInt64)
    (heap : Heap ListBloc) : Session δ :=
  { s with
    currentSuperbloc := some { sb with first := first }
    heap := heap }

section Relist

variable (s : Session δ) (sb : Superbloc)
variable (first : UInt64) (heap : Heap ListBloc)

@[simp] theorem relist_mbr :
    (s.relist sb first heap).mbr = s.mbr := rfl

@[simp] theorem relist_buffer :
    (s.relist sb first heap).buffer = s.buffer := rfl

@[simp] theorem relist_currentSuperbloc :
    (s.relist sb first heap).currentSuperbloc =
      some { sb with first := first } := rfl

@[simp] theorem relist_currentVol :
    (s.relist sb first heap).currentVol =
      s.currentVol := rfl

@[simp] theorem relist_heap :
    (s.relist sb first heap).heap = heap := rfl

@[simp] theorem relist_dev :
    (s.relist sb first heap).dev = s.dev := rfl

end Relist

theorem lists_relist
    {sb : Superbloc}
    {first : UInt64}
    {heap : Heap ListBloc}
    (hChain : Chain ListBloc.next heap first nodes) :
    (s.relist sb first heap).Lists nodes :=
  ⟨{ sb with first := first }, rfl, hChain⟩

theorem Lists.freeBlocs
    (hLists : s.Lists nodes) :
    s.freeBlocs = some (blocNumbers nodes) :=
  freeBlocs_eq_some_iff.mpr ⟨nodes, hLists, rfl⟩

------------------------------------------------------------
-- Initialisation
------------------------------------------------------------

theorem createList_ne_none
    {heap : Heap ListBloc}
    (hRoom : heap.size < libc.nodes.capacity)
    (bloc : UInt32) :
    createList libc bloc heap ≠ none :=
  Heap.alloc_ne_none hRoom _

theorem createList_spec
    {heap after : Heap ListBloc}
    {bloc : UInt32}
    {p : UInt64}
    (hCreate : createList libc bloc heap = some (p, after)) :
    p ≠ 0 ∧ heap.load p = none ∧
      after.load p =
        some ⟨magicNumber, bloc.toInt32, 0⟩ ∧
      (∀ q, q ≠ p → after.load q = heap.load q) ∧
      after.size = heap.size + 1 :=
  Heap.alloc_spec hCreate

/- Blocks of a volume in the table can be written. -/
theorem writeBloc_defined
    [Drive δ]
    {mbr : Mbr}
    {vol : UInt32}
    {v : Volume}
    (hVol : mbr.volume? vol.toNat = some v)
    (b : UInt32)
    (buffer : Sector)
    (dev : δ) :
    ∃ dev', mbr.writeBloc vol b buffer dev = some dev' := by
  simp [Mbr.writeBloc, Mbr.cytToSect_eq hVol]

/-
  A list built apart from the cells of `base`: its nodes stand
  for the blocks below `j`, and the last one is `list`.
-/
structure Built
    (base heap : Heap ListBloc)
    (first list : UInt64)
    (j : Nat) : Prop where
  extends_base : heap.Extends base
  nodes :
    ∃ front node,
      Chain ListBloc.next heap first
        (front ++ [(list, node)]) ∧
      node.posBloc.toUInt32.toNat + 1 = j ∧
      blocNumbers (front ++ [(list, node)]) =
        blocsBelow j ∧
      ∀ q ∈ (front ++ [(list, node)]).map Prod.fst,
        base.load q = none

/- The same, with the last node and those in front of it. -/
structure Linked
    (base heap : Heap ListBloc)
    (first list : UInt64)
    (front : List (UInt64 × ListBloc))
    (node : ListBloc)
    (j : Nat) : Prop where
  extends_base : heap.Extends base
  chain :
    Chain ListBloc.next heap first (front ++ [(list, node)])
  pos : node.posBloc.toUInt32.toNat + 1 = j
  blocs :
    blocNumbers (front ++ [(list, node)]) = blocsBelow j
  apart :
    ∀ q ∈ (front ++ [(list, node)]).map Prod.fst,
      base.load q = none

/- One iteration links a node for block `j` behind the last. -/
theorem Linked.link
    {base heap : Heap ListBloc}
    {first list : UInt64}
    {front : List (UInt64 × ListBloc)}
    {node : ListBloc}
    {j : Nat}
    (hLinked : Linked base heap first list front node j)
    (hj : 1 ≤ j)
    {i : Int32}
    (hi : i.toInt = j)
    {tmp : UInt64}
    {heap₁ : Heap ListBloc}
    (hCreate :
      createList libc i.toUInt32 heap = some (tmp, heap₁)) :
    ∃ heap₂,
      heap₁.load list = some node ∧
      heap₁.store list { node with next := tmp } =
        some heap₂ ∧
      Linked base heap₂ first tmp
        (front ++ [(list, { node with next := tmp })])
        ⟨magicNumber, i.toUInt32.toInt32, 0⟩ (j + 1) ∧
      heap₂.size = heap.size + 1 := by
  rcases hLinked with
    ⟨hExtends, hChain, hPos, hBlocs, hApart⟩
  rcases createList_spec hCreate with
    ⟨hNonnull, hFree, hCell, hOthers, hSize⟩
  have hLive : heap.load list = some node :=
    hChain.load_of_mem (by simp)
  have hNe : list ≠ tmp :=
    hChain.ne_of_mem hFree (by simp)
  have hLive₁ : heap₁.load list = some node := by
    rw [hOthers list hNe, hLive]
  rcases Heap.store_spec hLive₁ { node with next := tmp }
    with ⟨heap₂, hStore, hWritten, hOthers₂, hSize₂, _⟩
  refine ⟨heap₂, hLive₁, hStore, ?_, by omega⟩
  have hBaseList : base.load list = none :=
    hApart list (by simp)
  have hBaseTmp : base.load tmp = none :=
    hExtends.free hFree
  refine ⟨?_, ?_, ?_, ?_, ?_⟩
  · exact (hExtends.write hBaseTmp hOthers).write hBaseList
      hOthers₂
  · have hLast :
        Chain ListBloc.next heap₂ tmp
          [(tmp, ⟨magicNumber, i.toUInt32.toInt32, 0⟩)] :=
      Chain.cons hNonnull
        (by rw [hOthers₂ tmp hNe.symm, hCell]) Chain.nil
    have hFront :
        ∀ r ∈ front.map Prod.fst,
          heap₂.load r = heap.load r := by
      intro r hMem
      have hNodup := hChain.nodup
      rw [List.map_append, List.nodup_append] at hNodup
      have hrList : r ≠ list :=
        hNodup.2.2 r hMem list (by simp)
      have hrTmp : r ≠ tmp :=
        hChain.ne_of_mem hFree (by
          rw [List.map_append]
          exact List.mem_append_left _ hMem)
      rw [hOthers₂ r hrList, hOthers r hrTmp]
    simpa using hChain.relink_last hFront hWritten hLast
  · have hValue := FixedWidth.toNat_toUInt32_of_nonneg
      (x := i) (by omega)
    change i.toUInt32.toNat + 1 = j + 1
    omega
  · have hBlock : i.toUInt32 = UInt32.ofNat j := by
      have hValue := FixedWidth.toNat_toUInt32_of_nonneg
        (x := i) (by omega)
      have hRange := FixedWidth.toInt_range i
      apply UInt32.toNat_inj.mp
      rw [UInt32.toNat_ofNat', Nat.mod_eq_of_lt (by omega)]
      omega
    rw [blocsBelow_succ hj, ← hBlocs, ← hBlock]
    simp
  · intro q hMem
    simp only [List.map_append, List.map_cons, List.map_nil,
      List.mem_append, List.mem_singleton] at hMem
    rcases hMem with (hFrontMem | rfl) | rfl
    · exact hApart q (by simp [hFrontMem])
    · exact hBaseList
    · exact hBaseTmp

/- The list starts with the node of block 1. -/
theorem linked_first
    {heap heap₁ : Heap ListBloc}
    {first : UInt64}
    (hCreate : createList libc 1 heap = some (first, heap₁)) :
    Linked heap heap₁ first first [] ⟨magicNumber, 1, 0⟩
      2 := by
  rcases createList_spec hCreate with
    ⟨hNonnull, hFree, hCell, hOthers, _⟩
  refine ⟨?_, ?_, rfl, rfl, ?_⟩
  · exact Heap.Extends.refl.write hFree hOthers
  · exact Chain.cons hNonnull hCell Chain.nil
  · intro q hMem
    rw [List.nil_append, List.map_singleton,
      List.mem_singleton] at hMem
    rw [hMem]
    exact hFree

theorem Linked.built
    {base heap : Heap ListBloc}
    {first list : UInt64}
    {front : List (UInt64 × ListBloc)}
    {node : ListBloc}
    {j : Nat}
    (hLinked : Linked base heap first list front node j) :
    Built base heap first list j :=
  ⟨hLinked.extends_base, front, node, hLinked.chain,
    hLinked.pos, hLinked.blocs, hLinked.apart⟩

/- In a built list, too. -/
theorem Built.link
    {base heap : Heap ListBloc}
    {first list : UInt64}
    {j : Nat}
    (hBuilt : Built base heap first list j)
    (hj : 1 ≤ j)
    {i : Int32}
    (hi : i.toInt = j)
    {tmp : UInt64}
    {heap₁ : Heap ListBloc}
    (hCreate :
      createList libc i.toUInt32 heap = some (tmp, heap₁)) :
    ∃ node heap₂,
      heap₁.load list = some node ∧
      heap₁.store list { node with next := tmp } =
        some heap₂ ∧
      node.posBloc.toUInt32.toNat + 1 = j ∧
      Built base heap₂ first tmp (j + 1) ∧
      heap₂.size = heap.size + 1 := by
  rcases hBuilt.nodes with
    ⟨front, node, hChain, hPos, hBlocs, hApart⟩
  have hLinked : Linked base heap first list front node j :=
    ⟨hBuilt.extends_base, hChain, hPos, hBlocs, hApart⟩
  rcases hLinked.link hj hi hCreate with
    ⟨heap₂, hLive, hStore, hNext, hSize⟩
  exact ⟨node, heap₂, hLive, hStore, hPos, hNext.built,
    hSize⟩

/-
  The writes that initialisation makes to blocks below `n`
  preserve what `Q` says of the drive.
-/
def WritesKeep
    [Drive δ]
    (mbr : Mbr)
    (vol : UInt32)
    (n : Nat)
    (Q : δ → Prop) : Prop :=
  ∀ (b : UInt32) (buffer : Sector) (dev dev' : δ),
    b.toNat < n → Q dev →
      mbr.writeBloc vol b buffer dev = some dev' → Q dev'

/-
  So do the writes of list nodes, which stay away from the
  block of the superblock.
-/
def LinksKeep
    [Drive δ]
    (mbr : Mbr)
    (vol : UInt32)
    (n : Nat)
    (Q : δ → Prop) : Prop :=
  ∀ (b : UInt32) (buffer : Sector) (dev dev' : δ),
    1 ≤ b.toNat → b.toNat < n → Q dev →
      mbr.writeBloc vol b buffer dev = some dev' → Q dev'

/-
  The loop links nodes for the blocks up to `j + k`, writes
  only to blocks below, and is defined when there is room for
  the new nodes.
-/
theorem initLoop_spec
    [Drive δ]
    (libc : Libc)
    {mbr : Mbr}
    {vol : UInt32}
    {v : Volume}
    (hVol : mbr.volume? vol.toNat = some v)
    {base heap : Heap ListBloc}
    {first list : UInt64}
    (k : Nat)
    {j : Nat}
    (hBuilt : Built base heap first list j)
    (hj : 2 ≤ j)
    (hBound : j + k < 2147483648)
    {i : Int32}
    (hi : i.toInt = j)
    {Q : δ → Prop}
    (hLinks : LinksKeep mbr vol (j + k) Q)
    (buffer : Sector)
    {dev : δ}
    (hDev : Q dev) :
    (∀ list' buffer' heap' dev',
      initLoop libc mbr vol k i list buffer heap dev =
        some (list', buffer', heap', dev') →
      Built base heap' first list' (j + k) ∧
        heap'.size = heap.size + k ∧ Q dev') ∧
    (heap.size + k ≤ libc.nodes.capacity →
      ∃ list' buffer' heap' dev',
        initLoop libc mbr vol k i list buffer heap dev =
          some (list', buffer', heap', dev')) := by
  induction k generalizing j list heap i buffer dev with
  | zero =>
      refine ⟨?_, fun _ => ⟨list, buffer, heap, dev, rfl⟩⟩
      rintro _ _ _ _ hLoop
      cases hLoop
      exact ⟨hBuilt, rfl, hDev⟩
  | succ k ih =>
      have hNext : (i + 1).toInt = ((j + 1 : Nat) : Int) := by
        have hOne : (1 : Int32).toInt = 1 := rfl
        rw [FixedWidth.toInt_add] <;> rw [hi, hOne]
        all_goals omega
      have hShift : j + 1 + k = j + (k + 1) := by omega
      cases hCreate : createList libc i.toUInt32 heap with
      | none =>
          refine ⟨?_, fun hRoom => ?_⟩
          · intro _ _ _ _ hLoop
            simp [initLoop, hCreate] at hLoop
          · exact absurd hCreate
              (createList_ne_none (by omega) i.toUInt32)
      | some created =>
          rcases created with ⟨tmp, heap₁⟩
          rcases hBuilt.link (by omega) hi hCreate with
            ⟨node, heap₂, hLive, hStore, hPos, hBuilt₂,
              hSize⟩
          rcases writeBloc_defined hVol
            node.posBloc.toUInt32
            (buffer.memcpy
              (ListBloc.layout.encode
                { node with next := tmp })) dev with
            ⟨dev₁, hWrite⟩
          have hDev₁ : Q dev₁ :=
            hLinks _ _ _ _ (by omega) (by omega) hDev hWrite
          have hLoop :
              initLoop libc mbr vol (k + 1) i list buffer
                  heap dev =
                initLoop libc mbr vol k (i + 1) tmp
                  (buffer.memcpy
                    (ListBloc.layout.encode
                      { node with next := tmp }))
                  heap₂ dev₁ := by
            simp only [initLoop, hCreate, hLive, hStore,
              hWrite, Option.bind_eq_bind, Option.bind_some]
          rw [hLoop, ← hShift]
          rw [← hShift] at hLinks
          rcases ih hBuilt₂ (by omega) (by omega) hNext
            hLinks
            (buffer.memcpy
              (ListBloc.layout.encode
                { node with next := tmp }))
            hDev₁ with ⟨hPost, hDefined⟩
          refine ⟨?_, fun hRoom => hDefined (by omega)⟩
          intro list' buffer' heap' dev' hRest
          rcases hPost _ _ _ _ hRest with
            ⟨hBuilt', hSize', hDev'⟩
          exact ⟨hBuilt', by omega, hDev'⟩

/-
  The session after an initialisation: a new list of the
  blocks 1, ..., n - 1, apart from every older cell.
-/
structure InitialisedFrom
    (before after : Session δ)
    (n : Nat) : Prop where
  list :
    ∃ sb nodes,
      after.currentSuperbloc = some sb ∧
      sb.magic = magicNumber ∧
      Chain ListBloc.next after.heap sb.first nodes ∧
      blocNumbers nodes = blocsBelow n ∧
      ∀ q ∈ nodes.map Prod.fst, before.heap.load q = none
  extends_heap : after.heap.Extends before.heap
  size_heap :
    after.heap.size + 1 = before.heap.size + n
  mbr_eq : after.mbr = before.mbr
  buffer_eq : after.buffer = before.buffer
  currentVol_eq : after.currentVol = before.currentVol

/- A finished list initialises the session. -/
theorem Built.initialisedFrom
    {heap : Heap ListBloc}
    {first list : UInt64}
    {n : Nat}
    (hBuilt : Built s.heap heap first list n)
    (hSize : heap.size + 1 = s.heap.size + n)
    {sb : Superbloc}
    (hMagic : sb.magic = magicNumber)
    (dev : δ) :
    InitialisedFrom s
      { s with
        currentSuperbloc := some { sb with first := first }
        heap := heap
        dev := dev } n := by
  rcases hBuilt.nodes with
    ⟨front, node, hChain, _, hBlocs, hApart⟩
  exact
    { list := ⟨_, _, rfl, hMagic, hChain, hBlocs, hApart⟩
      extends_heap := hBuilt.extends_base
      size_heap := hSize
      mbr_eq := rfl
      buffer_eq := rfl
      currentVol_eq := rfl }

/-
  Initialisation lists the blocks 1, ..., n - 1 of a volume of
  `n` blocks, and block 1 of a volume that has no such block.
  It is defined when there is room for the new nodes.  The
  superblock is written first, then the nodes of the list.
-/
theorem initVolume_spec_links
    [Drive δ]
    (libc : Libc)
    {vol : UInt32}
    {v : Volume}
    (hVol : s.mbr.volume? vol.toNat = some v)
    {n : Nat}
    (hSize : max v.nbBlocs.toInt 2 = n)
    {Q : δ → Prop}
    (hFirst :
      ∀ dev,
        s.mbr.writeBloc vol 0
            ((libc.garbage s.heap.calls).memcpy
              (Superbloc.layout.encode
                (createSuperbloc libc s.heap.scratch).1))
            s.dev = some dev → Q dev)
    (hLinks : LinksKeep s.mbr vol n Q) :
    (∀ after, s.initVolume libc vol = some after →
      InitialisedFrom s after n ∧ Q after.dev) ∧
    (s.heap.size + n ≤ libc.nodes.capacity →
      ∃ after, s.initVolume libc vol = some after) := by
  have hRange := FixedWidth.toInt_range v.nbBlocs
  have hn : 2 ≤ n := by omega
  rcases hSb : createSuperbloc libc s.heap.scratch with
    ⟨sb, heap⟩
  have hHeap : heap = s.heap.scratch.scratch :=
    (congrArg Prod.snd hSb).symm
  have hMagic : sb.magic = magicNumber :=
    congrArg (fun p => p.1.magic) hSb.symm
  have hScratch : heap.size = s.heap.size := by
    rw [hHeap]
    rfl
  let image :=
    (libc.garbage s.heap.calls).memcpy
      (Superbloc.layout.encode sb)
  rcases writeBloc_defined hVol 0 image s.dev with
    ⟨dev₁, hWrite₁⟩
  have hDev₁ : Q dev₁ := by
    apply hFirst
    rw [hSb]
    exact hWrite₁
  cases hCreate : createList libc 1 heap with
  | none =>
      refine ⟨?_, fun hRoom => ?_⟩
      · intro after hInit
        simp [initVolume, hVol, hSb, hWrite₁, image,
          hCreate] at hInit
      · exact absurd hCreate
          (createList_ne_none (by omega) 1)
  | some created =>
      rcases created with ⟨first, heap₁⟩
      have hSize₁ := (createList_spec hCreate).2.2.2.2
      have hBuilt : Built s.heap heap₁ first first 2 := by
        have hFirst := (linked_first hCreate).built
        rw [hHeap] at hFirst
        exact ⟨hFirst.extends_base, hFirst.nodes⟩
      have hCount : (v.nbBlocs.toInt - 2).toNat = n - 2 := by
        omega
      have hTotal : 2 + (n - 2) = n := by omega
      rw [← hTotal] at hLinks
      rcases initLoop_spec libc hVol (n - 2) hBuilt
        (by omega) (by omega) (i := 2) rfl hLinks image
        hDev₁ with ⟨hPost, hDefined⟩
      rw [hTotal] at hPost hLinks
      cases hLoop :
          initLoop libc s.mbr vol (n - 2) 2 first image
            heap₁ dev₁ with
      | none =>
          refine ⟨?_, fun hRoom => ?_⟩
          · intro after hInit
            simp [initVolume, hVol, hSb, hWrite₁, hCreate,
              hCount, hLoop, image] at hInit
          · rcases hDefined (by omega) with ⟨_, _, _, _, hSome⟩
            rw [hLoop] at hSome
            exact absurd hSome (Option.some_ne_none _).symm
      | some result =>
          rcases result with ⟨list, buffer, heap₂, dev₂⟩
          rcases hPost _ _ _ _ hLoop with
            ⟨hBuilt₂, hSize₂, hDev₂⟩
          rcases hBuilt₂.nodes with
            ⟨front, node, hChain, hPos, _⟩
          have hLive : heap₂.load list = some node :=
            hChain.load_of_mem (by simp)
          rcases writeBloc_defined hVol
            node.posBloc.toUInt32
            (buffer.memcpy (ListBloc.layout.encode node))
            dev₂ with ⟨dev₃, hWrite₃⟩
          have hDev₃ : Q dev₃ :=
            hLinks _ _ _ _ (by omega) (by omega) hDev₂ hWrite₃
          have hInit :
              s.initVolume libc vol = some
                { s with
                  currentSuperbloc :=
                    some { sb with first := first }
                  heap := heap₂
                  dev := dev₃ } := by
            simp only [initVolume, hVol, hSb, hWrite₁,
              hCreate, hCount, hLoop, hLive, hWrite₃, image,
              Option.bind_eq_bind, Option.bind_some]
          refine ⟨fun after hSome => ?_, fun _ => ⟨_, hInit⟩⟩
          cases hInit.symm.trans hSome
          exact ⟨hBuilt₂.initialisedFrom (by omega) hMagic
            dev₃, hDev₃⟩

/- The same with one condition on all writes. -/
theorem initVolume_spec
    [Drive δ]
    (libc : Libc)
    {vol : UInt32}
    {v : Volume}
    (hVol : s.mbr.volume? vol.toNat = some v)
    {n : Nat}
    (hSize : max v.nbBlocs.toInt 2 = n)
    {Q : δ → Prop}
    (hWrites : WritesKeep s.mbr vol n Q)
    (hDev : Q s.dev) :
    (∀ after, s.initVolume libc vol = some after →
      InitialisedFrom s after n ∧ Q after.dev) ∧
    (s.heap.size + n ≤ libc.nodes.capacity →
      ∃ after, s.initVolume libc vol = some after) := by
  have hZero : (0 : UInt32).toNat = 0 := rfl
  refine initVolume_spec_links libc hVol hSize ?_ ?_
  · intro dev hWrite
    exact hWrites 0 _ _ _ (by omega) hDev hWrite
  · intro b buffer dev dev' _ hb hDev' hWrite
    exact hWrites b buffer dev dev' hb hDev' hWrite

/- There is a list when there is memory for its nodes. -/
theorem initVolume_defined
    [Drive δ]
    (libc : Libc)
    {vol : UInt32}
    {v : Volume}
    (hVol : s.mbr.volume? vol.toNat = some v)
    (hRoom :
      s.heap.size + max v.nbBlocs.toInt 2 ≤
        libc.nodes.capacity) :
    ∃ after, s.initVolume libc vol = some after := by
  have hWrites :
      WritesKeep s.mbr vol (max v.nbBlocs.toInt 2).toNat
        fun _ : δ => True :=
    fun _ _ _ _ _ _ _ => trivial
  apply (initVolume_spec libc hVol _ hWrites trivial).2
  · omega
  · omega

/- The loaded superblock is the created one with its list. -/
theorem initVolume_created
    [Drive δ]
    {vol : UInt32}
    {after : Session δ}
    (hInit : s.initVolume libc vol = some after) :
    ∃ first,
      after.currentSuperbloc = some
        { (createSuperbloc libc s.heap.scratch).1 with
          first := first } := by
  simp only [initVolume, Option.bind_eq_bind,
    Option.bind_eq_some_iff] at hInit
  rcases hInit with
    ⟨_, _, _, _, ⟨first, _⟩, _, _, _, _, _, _, _, hAfter⟩
  cases hAfter
  exact ⟨first, rfl⟩

------------------------------------------------------------
-- Allocation
------------------------------------------------------------

/- The list is empty when its first pointer is null. -/
theorem Lists.first_eq_zero_iff
    (hLists : s.Lists nodes)
    {sb : Superbloc}
    (hSb : s.currentSuperbloc = some sb) :
    sb.first = 0 ↔ nodes = [] := by
  rcases hLists with ⟨sb', hSb', hChain⟩
  cases hSb'.symm.trans hSb
  constructor
  · intro hNull
    rw [hNull] at hChain
    exact hChain.eq_nil
  · rintro rfl
    by_contra hNonnull
    rcases hChain.exists_cons hNonnull with
      ⟨_, _, hNodes, _⟩
    simp at hNodes

/- Without free blocks the answer is 0. -/
theorem newBloc_nil
    (hLists : s.Lists []) :
    s.newBloc = some (0, s) := by
  rcases hLists with ⟨sb, hSb, hChain⟩
  have hNull : sb.first = 0 :=
    (Lists.first_eq_zero_iff ⟨sb, hSb, hChain⟩ hSb).mpr rfl
  simp only [newBloc, hSb, if_pos hNull]

/- Otherwise the first node is unlinked and given back. -/
theorem newBloc_cons
    {p : UInt64}
    {node : ListBloc}
    (hLists : s.Lists ((p, node) :: nodes)) :
    ∃ sb,
      s.currentSuperbloc = some sb ∧ sb.first = p ∧
      s.newBloc = some (node.posBloc.toUInt32,
        s.relist sb node.next (s.heap.release p)) ∧
      Chain ListBloc.next (s.heap.release p) node.next
        nodes := by
  rcases hLists with ⟨sb, hSb, hChain⟩
  have hNonnull : sb.first ≠ 0 := by
    intro hNull
    rw [Lists.first_eq_zero_iff ⟨sb, hSb, hChain⟩ hSb]
      at hNull
    exact absurd hNull (List.cons_ne_nil _ _)
  rcases hChain.exists_cons hNonnull with
    ⟨a, rest, hNodes, hCell, _⟩
  cases hNodes
  refine ⟨sb, hSb, rfl, ?_, hChain.release_head⟩
  simp only [newBloc, hSb, if_neg hNonnull, hCell, relist,
    Option.bind_eq_bind, Option.bind_some]

------------------------------------------------------------
-- Release
------------------------------------------------------------

/- The search decides whether the list has the block. -/
theorem isListed_eq
    {heap : Heap ListBloc}
    {p : UInt64}
    (hChain : Chain ListBloc.next heap p nodes)
    (bloc : UInt32)
    {fuel : Nat}
    (hFuel : nodes.length < fuel) :
    isListed heap bloc fuel p =
      some (decide (bloc ∈ blocNumbers nodes)) := by
  induction hChain generalizing fuel with
  | nil =>
      cases fuel with
      | zero => omega
      | succ fuel => simp [isListed]
  | @cons p node nodes hNonnull hCell _ ih =>
      cases fuel with
      | zero => omega
      | succ fuel =>
          have hRest := ih (Nat.lt_of_succ_lt_succ hFuel)
          simp only [isListed, if_neg hNonnull, hCell,
            Option.bind_eq_bind, Option.bind_some]
          by_cases hHere : node.posBloc.toUInt32 = bloc
          · simp [hHere]
          · have hNe : bloc ≠ node.posBloc.toUInt32 :=
              fun hEq => hHere hEq.symm
            rw [if_neg hHere, hRest]
            simp [hNe]

/- A new node is linked to the old head of the list. -/
theorem createList_linked
    {heap heap₁ : Heap ListBloc}
    {bloc : UInt32}
    {p : UInt64}
    (hCreate : createList libc bloc heap = some (p, heap₁))
    (first : UInt64) :
    ∃ heap₂,
      heap₁.load p =
        some ⟨magicNumber, bloc.toInt32, 0⟩ ∧
      heap₁.store p ⟨magicNumber, bloc.toInt32, first⟩ =
        some heap₂ ∧
      p ≠ 0 ∧ heap.load p = none ∧
      heap₂.load p =
        some ⟨magicNumber, bloc.toInt32, first⟩ ∧
      (∀ q, q ≠ p → heap₂.load q = heap.load q) ∧
      heap₂.size = heap.size + 1 := by
  rcases createList_spec hCreate with
    ⟨hNonnull, hFree, hCell, hOthers, hSize₁⟩
  rcases Heap.store_spec hCell
      ⟨magicNumber, bloc.toInt32, first⟩ with
    ⟨heap₂, hStore, hWritten, hOthers₂, hSize₂, _⟩
  exact ⟨heap₂, hCell, hStore, hNonnull, hFree, hWritten,
    fun q hNe => (hOthers₂ q hNe).trans (hOthers q hNe),
    by omega⟩

section Release

variable {v : Volume} {n : Nat} {bloc : UInt32}

/- The size of the volume as `free_bloc` compares it. -/
theorem size_le_iff
    (hSize : v.nbBlocs.toInt = n) :
    v.nbBlocs.toUInt32 ≤ bloc ↔ n ≤ bloc.toNat := by
  have hValue := FixedWidth.toNat_toUInt32_of_nonneg
    (x := v.nbBlocs) (by omega)
  rw [UInt32.le_iff_toNat_le]
  omega

variable (libc)

/- A block outside the volume is refused. -/
theorem freeBloc_outside
    (hLists : s.Lists nodes)
    (hVol : s.mbr.volume? s.currentVol.toInt = some v)
    (hSize : v.nbBlocs.toInt = n)
    (hBloc : n ≤ bloc.toNat) :
    s.freeBloc libc bloc = some (-1, s) := by
  rcases hLists with ⟨sb, hSb, hChain⟩
  simp only [freeBloc, hSb, hVol, Option.bind_eq_bind,
    Option.bind_some, if_pos ((size_le_iff hSize).mpr hBloc)]

/- A block in the list is left there. -/
theorem freeBloc_listed
    (hLists : s.Lists nodes)
    (hVol : s.mbr.volume? s.currentVol.toInt = some v)
    (hSize : v.nbBlocs.toInt = n)
    (hBloc : bloc.toNat < n)
    (hListed : bloc ∈ blocNumbers nodes) :
    s.freeBloc libc bloc = some (0, s) := by
  rcases hLists with ⟨sb, hSb, hChain⟩
  have hInside : ¬ v.nbBlocs.toUInt32 ≤ bloc := by
    rw [size_le_iff hSize]
    omega
  have hSearch := isListed_eq hChain bloc
    (Nat.lt_succ_of_le hChain.length_le_size)
  rw [decide_eq_true hListed] at hSearch
  simp only [freeBloc, hSb, hVol, Option.bind_eq_bind,
    Option.bind_some, if_neg hInside, hSearch, if_true]

/- Any other block of the volume is put in front. -/
theorem freeBloc_pushes
    (hLists : s.Lists nodes)
    (hVol : s.mbr.volume? s.currentVol.toInt = some v)
    (hSize : v.nbBlocs.toInt = n)
    (hBloc : bloc.toNat < n)
    (hNew : bloc ∉ blocNumbers nodes)
    (hRoom : s.heap.size < libc.nodes.capacity) :
    ∃ sb p node heap,
      s.currentSuperbloc = some sb ∧
      s.freeBloc libc bloc =
        some (1, s.relist sb p heap) ∧
      Chain ListBloc.next heap p ((p, node) :: nodes) ∧
      node.posBloc.toUInt32 = bloc ∧
      heap.size = s.heap.size + 1 := by
  rcases hLists with ⟨sb, hSb, hChain⟩
  have hInside : ¬ v.nbBlocs.toUInt32 ≤ bloc := by
    rw [size_le_iff hSize]
    omega
  have hSearch := isListed_eq hChain bloc
    (Nat.lt_succ_of_le hChain.length_le_size)
  rw [decide_eq_false hNew] at hSearch
  rcases Option.ne_none_iff_exists'.mp
      (createList_ne_none hRoom bloc) with
    ⟨⟨p, heap₁⟩, hCreate⟩
  rcases createList_linked hCreate sb.first with
    ⟨heap₂, hCell, hStore, hNonnull, hFree, hWritten,
      hOthers, hHeap⟩
  refine ⟨sb, p, ⟨magicNumber, bloc.toInt32, sb.first⟩,
    heap₂, hSb, ?_, ?_, rfl, hHeap⟩
  · simp only [freeBloc, hSb, hVol, Option.bind_eq_bind,
      Option.bind_some, if_neg hInside, hSearch, hCreate,
      hCell, hStore, relist, Bool.false_eq_true, if_false]
  · exact hChain.push hNonnull hFree hWritten rfl hOthers

end Release

------------------------------------------------------------
-- What a Call Can Do
------------------------------------------------------------

/- A call of `new_bloc` changes nothing or unlinks a node. -/
theorem newBloc_cases
    {res : UInt32}
    {after : Session δ}
    (hCall : s.newBloc = some (res, after)) :
    after = s ∨
      ∃ sb node,
        s.currentSuperbloc = some sb ∧ sb.first ≠ 0 ∧
        s.heap.load sb.first = some node ∧
        res = node.posBloc.toUInt32 ∧
        after = s.relist sb node.next
          (s.heap.release sb.first) := by
  cases hSb : s.currentSuperbloc with
  | none =>
      simp only [newBloc, hSb, Option.some.injEq,
        Prod.mk.injEq] at hCall
      exact Or.inl hCall.2.symm
  | some sb =>
      by_cases hNull : sb.first = 0
      · simp only [newBloc, hSb, if_pos hNull,
          Option.some.injEq, Prod.mk.injEq] at hCall
        exact Or.inl hCall.2.symm
      · simp only [newBloc, hSb, if_neg hNull,
          Option.bind_eq_bind, Option.bind_eq_some_iff,
          Option.some.injEq, Prod.mk.injEq] at hCall
        rcases hCall with ⟨node, hLive, hRes, hAfter⟩
        exact Or.inr ⟨sb, node, rfl, hNull, hLive,
          hRes.symm, hAfter.symm⟩

/- A call of `free_bloc` changes nothing or links a node. -/
theorem freeBloc_cases
    {bloc : UInt32}
    {res : Int32}
    {after : Session δ}
    (hCall : s.freeBloc libc bloc = some (res, after)) :
    after = s ∨
      ∃ sb v p heap,
        s.currentSuperbloc = some sb ∧
        s.mbr.volume? s.currentVol.toInt = some v ∧
        ¬ v.nbBlocs.toUInt32 ≤ bloc ∧
        p ≠ 0 ∧ s.heap.load p = none ∧
        heap.load p =
          some ⟨magicNumber, bloc.toInt32, sb.first⟩ ∧
        (∀ q, q ≠ p → heap.load q = s.heap.load q) ∧
        after = s.relist sb p heap := by
  cases hSb : s.currentSuperbloc with
  | none =>
      simp only [freeBloc, hSb, Option.some.injEq,
        Prod.mk.injEq] at hCall
      exact Or.inl hCall.2.symm
  | some sb =>
      simp only [freeBloc, hSb, Option.bind_eq_bind,
        Option.bind_eq_some_iff] at hCall
      rcases hCall with ⟨v, hVol, hCall⟩
      by_cases hOutside : v.nbBlocs.toUInt32 ≤ bloc
      · rw [if_pos hOutside, Option.some.injEq,
          Prod.mk.injEq] at hCall
        exact Or.inl hCall.2.symm
      · rw [if_neg hOutside, Option.bind_eq_some_iff]
          at hCall
        rcases hCall with ⟨found, _, hCall⟩
        cases found with
        | true =>
            rw [if_pos rfl, Option.some.injEq,
              Prod.mk.injEq] at hCall
            exact Or.inl hCall.2.symm
        | false =>
            rw [if_neg Bool.false_ne_true,
              Option.bind_eq_some_iff] at hCall
            rcases hCall with ⟨⟨p, heap₁⟩, hCreate, hCall⟩
            rcases createList_linked hCreate sb.first with
              ⟨heap₂, hCell, hStore, hNonnull, hFree,
                hWritten, hOthers, _⟩
            simp only [hCell, hStore, Option.bind_some,
              Option.some.injEq, Prod.mk.injEq] at hCall
            exact Or.inr ⟨sb, v, p, heap₂, rfl, hVol,
              hOutside, hNonnull, hFree, hWritten, hOthers,
              hCall.2.symm⟩

end Session

end AsaKernel
