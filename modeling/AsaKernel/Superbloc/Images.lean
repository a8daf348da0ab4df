import AsaKernel.Superbloc.Conservation
import AsaKernel.Volume.Isolation

/-
  The images on the disk of what an initialisation builds in
  memory (superbloc.c).

  The loop of `init_volume` writes each node one iteration
  after it was made, when its link is known, and the last one
  after the loop.  The blocks of a volume on the disk have
  different sectors, so no image is overwritten by a later
  one.

  Main declarations:
    * `Imaged`, `Mirroring`, `Mirroring.step`
    * `Session.newBlocs`, `Session.newBlocs_eq`
    * `Session.Mirrored`
    * `Session.init_mirrors`
-/

------------------------------------------------------------
-- Images of Nodes
------------------------------------------------------------

namespace AsaKernel

/- The block of each node begins with its memory image. -/
def Imaged
    (v : Volume)
    (disk : Disk)
    (nodes : List (UInt64 × ListBloc)) : Prop :=
  ∀ node ∈ nodes,
    ListBloc.layout.encode node.2 <+:
      (disk (sectorAddr
        (v.locate node.2.posBloc.toUInt32))).toList

variable {v : Volume} {disk : Disk} {n j : Nat}
variable {front : List (UInt64 × ListBloc)}
variable {list : UInt64} {node : ListBloc}

/- The image of the last node overwrites no other image. -/
theorem Imaged.write
    (hLies : v.LiesOnDisk)
    (hSize : v.nbBlocs.toInt = n)
    (hBound : j ≤ n)
    (hBlocs :
      blocNumbers (front ++ [(list, node)]) = blocsBelow j)
    (hImaged : Imaged v disk front)
    (node' : ListBloc)
    (hPos : node'.posBloc = node.posBloc)
    (buffer : Sector) :
    Imaged v
      (Function.update disk
        (sectorAddr (v.locate node'.posBloc.toUInt32))
        (buffer.memcpy (ListBloc.layout.encode node')))
      (front ++ [(list, node')]) := by
  have hRange := FixedWidth.toInt_range v.nbBlocs
  have hFits : ListBloc.layout.size ≤ hdaSectorSize := by
    decide
  have hNodup :=
    nodup_blocsBelow (n := j) (by omega)
  rw [← hBlocs, blocNumbers_append, List.nodup_append]
    at hNodup
  have hBelow (b : UInt32)
      (hMem : b ∈ blocNumbers (front ++ [(list, node)])) :
      (b.toNat : Int) < v.nbBlocs.toInt := by
    rw [hBlocs, mem_blocsBelow (by omega)] at hMem
    omega
  intro other hOther
  rcases List.mem_append.mp hOther with hFront | hLast
  · have hListed :
        other.2.posBloc.toUInt32 ∈ blocNumbers front :=
      List.mem_map_of_mem hFront
    have hApart :
        other.2.posBloc.toUInt32 ≠ node.posBloc.toUInt32 :=
      hNodup.2.2 _ hListed _ List.mem_cons_self
    have hSector :
        sectorAddr (v.locate other.2.posBloc.toUInt32) ≠
          sectorAddr (v.locate node'.posBloc.toUInt32) := by
      intro hEq
      rw [hPos] at hEq
      refine hApart (hLies.sectorAddr_inj ?_ ?_ hEq)
      · exact hBelow _ (by
          rw [blocNumbers_append]
          exact List.mem_append_left _ hListed)
      · exact hBelow _ (by
          rw [blocNumbers_append]
          exact List.mem_append_right _ List.mem_cons_self)
    rw [Function.update_of_ne hSector]
    exact hImaged other hFront
  · rw [List.mem_singleton.mp hLast, Function.update_self]
    exact Sector.encode_prefix_memcpy _ hFits buffer node'

------------------------------------------------------------
-- The Loop of Initialisation
------------------------------------------------------------

namespace Session

/-
  The list that was built so far, with the image of every node
  but the last one on the disk.
-/
structure Mirroring
    (v : Volume)
    (base heap : Heap ListBloc)
    (first list : UInt64)
    (front : List (UInt64 × ListBloc))
    (node : ListBloc)
    (disk : Disk)
    (j : Nat) : Prop where
  linked : Linked base heap first list front node j
  marked :
    ∀ m ∈ front ++ [(list, node)], m.2.magic = magicNumber
  imaged : Imaged v disk front

variable {libc : Libc} {mbr : Mbr} {vol : UInt32}
variable {base heap heap₁ : Heap ListBloc}
variable {first tmp : UInt64}

theorem writeBloc_at
    (hSlot : mbr.volume? vol.toNat = some v)
    (b : UInt32)
    (buffer : Sector)
    (disk : Disk) :
    mbr.writeBloc vol b buffer disk =
      some (Function.update disk (sectorAddr (v.locate b))
        buffer) :=
  Mbr.writeBloc_eq (Mbr.cytToSect_eq hSlot b) disk buffer

/- One iteration writes the image of the node that it links. -/
theorem Mirroring.step
    (hLies : v.LiesOnDisk)
    (hSize : v.nbBlocs.toInt = n)
    (hBound : j ≤ n)
    (hMirroring :
      Mirroring v base heap first list front node disk j)
    (hj : 1 ≤ j)
    {i : Int32}
    (hi : i.toInt = j)
    (hCreate :
      createList libc i.toUInt32 heap = some (tmp, heap₁))
    (buffer : Sector) :
    ∃ heap₂,
      heap₁.load list = some node ∧
      heap₁.store list { node with next := tmp } =
        some heap₂ ∧
      Mirroring v base heap₂ first tmp
        (front ++ [(list, { node with next := tmp })])
        ⟨magicNumber, i.toUInt32.toInt32, 0⟩
        (Function.update disk
          (sectorAddr (v.locate node.posBloc.toUInt32))
          (buffer.memcpy
            (ListBloc.layout.encode
              { node with next := tmp })))
        (j + 1) := by
  rcases hMirroring.linked.link hj hi hCreate with
    ⟨heap₂, hLive, hStore, hLinked, _⟩
  refine ⟨heap₂, hLive, hStore, hLinked, ?_, ?_⟩
  · intro m hm
    rcases List.mem_append.mp hm with hBefore | hNew
    · rcases List.mem_append.mp hBefore with hFront | hOld
      · exact hMirroring.marked m
          (List.mem_append_left _ hFront)
      · rw [List.mem_singleton.mp hOld]
        exact hMirroring.marked (list, node)
          (List.mem_append_right _ List.mem_cons_self)
    · rw [List.mem_singleton.mp hNew]
  · exact hMirroring.imaged.write hLies hSize hBound
      hMirroring.linked.blocs { node with next := tmp } rfl
      buffer

/- The loop goes on so up to the last block. -/
theorem Mirroring.loop
    (hSlot : mbr.volume? vol.toNat = some v)
    (hLies : v.LiesOnDisk)
    (hSize : v.nbBlocs.toInt = n)
    (k : Nat)
    (hBound : j + k ≤ n)
    (hMirroring :
      Mirroring v base heap first list front node disk j)
    (hj : 1 ≤ j)
    {i : Int32}
    (hi : i.toInt = j)
    {buffer buffer' : Sector}
    {last : UInt64}
    {heap' : Heap ListBloc}
    {disk' : Disk}
    (hLoop :
      initLoop libc mbr vol k i list buffer heap
          disk =
        some (last, buffer', heap', disk')) :
    ∃ front' node',
      Mirroring v base heap' first last front' node' disk'
        (j + k) := by
  have hRange := FixedWidth.toInt_range v.nbBlocs
  induction k generalizing j i list front node heap buffer
      disk with
  | zero =>
      cases hLoop
      exact ⟨front, node, hMirroring⟩
  | succ k ih =>
      have hNext : (i + 1).toInt = ((j + 1 : Nat) : Int) := by
        have hOne : (1 : Int32).toInt = 1 := rfl
        rw [FixedWidth.toInt_add] <;> rw [hi, hOne]
        all_goals omega
      rcases Option.bind_eq_some_iff.mp hLoop with
        ⟨⟨tmp, heap₁⟩, hCreate, hRest⟩
      rcases hMirroring.step hLies hSize (by omega) hj hi
          hCreate buffer with
        ⟨heap₂, hLive, hStore, hStep⟩
      dsimp only at hRest
      rw [hLive, Option.bind_eq_bind, Option.bind_some,
        hStore, Option.bind_eq_bind, Option.bind_some,
        writeBloc_at hSlot, Option.bind_eq_bind,
        Option.bind_some] at hRest
      rcases ih (by omega) hStep (by omega) hNext hRest with
        ⟨front', node', hLast⟩
      have hShift : j + 1 + k = j + (k + 1) := by omega
      rw [hShift] at hLast
      exact ⟨front', node', hLast⟩

------------------------------------------------------------
-- Successive Allocations
------------------------------------------------------------

/- Calls of `new_bloc`, one after the other. -/
def newBlocs
    {δ : Type} [Drive δ] :
    Nat → Session δ → Option (List UInt32 × Session δ)
| 0, s => some ([], s)
| k + 1, s => do
    let (res, s) ← s.newBloc
    let (blocs, s) ← newBlocs k s
    some (res :: blocs, s)

variable {s after : Session Disk}
variable {nodes : List (UInt64 × ListBloc)}

/- The listed blocks are handed out, and then the answer is 0. -/
theorem newBlocs_eq
    (hLists : s.Lists nodes)
    (k : Nat) :
    ∃ last,
      s.newBlocs (nodes.length + k) =
        some (blocNumbers nodes ++ List.replicate k 0,
          last) := by
  induction nodes generalizing s with
  | nil =>
      rw [List.length_nil, Nat.zero_add]
      induction k with
      | zero => exact ⟨s, rfl⟩
      | succ k ih =>
          rcases ih with ⟨last, hRest⟩
          refine ⟨last, ?_⟩
          simp only [newBlocs, newBloc_nil hLists,
            Option.bind_eq_bind, Option.bind_some, hRest]
          rfl
  | cons head nodes ih =>
      rcases newBloc_cons hLists with
        ⟨sb, _, _, hCall, hChain⟩
      have hLeft :
          (s.relist sb head.2.next
            (s.heap.release head.1)).Lists nodes :=
        lists_relist hChain
      rcases ih hLeft with ⟨last, hRest⟩
      have hCount :
          (head :: nodes).length + k =
            nodes.length + k + 1 := by
        rw [List.length_cons]
        omega
      refine ⟨last, ?_⟩
      rw [hCount]
      simp only [newBlocs, hCall, Option.bind_eq_bind,
        Option.bind_some, hRest]
      rfl

------------------------------------------------------------
-- Memory and Disk
------------------------------------------------------------

/-
  The list has the blocks 1, ..., n - 1 in order.  Block `k`
  begins with the image of the node for it, and block 0 with
  a superblock.  `new_bloc` hands out these blocks in order,
  and then no further one.
-/
structure Mirrored
    (vol : UInt32)
    (n : Nat)
    (s : Session Disk) : Prop where
  nodes :
    ∃ nodes,
      s.Lists nodes ∧ nodes.length + 1 = n ∧
      ∀ (k : Nat) p node, nodes[k]? = some (p, node) →
        node.magic = magicNumber ∧
        node.posBloc.toInt = (k : Int) + 1 ∧
        node.next =
          ((nodes[k + 1]?).map Prod.fst).getD 0 ∧
        ∃ image,
          s.mbr.readBloc vol (UInt32.ofNat (k + 1)) s.dev =
            some (image, s.dev) ∧
          ListBloc.layout.encode node <+: image.toList
  super :
    ∃ sb image,
      sb.magic = magicNumber ∧
      s.mbr.readBloc vol 0 s.dev = some (image, s.dev) ∧
      Superbloc.layout.encode sb <+: image.toList
  calls :
    ∀ k, ∃ last,
      s.newBlocs (n - 1 + k) =
        some (blocsBelow n ++ List.replicate k 0, last)

theorem length_blocsBelow
    (n : Nat) :
    (blocsBelow n).length = n - 1 := by
  unfold blocsBelow
  rw [List.length_map, List.length_range']

/- The node at position `k` stands for block `k + 1`. -/
theorem posBloc_of_blocs
    (hBound : n < 2147483648)
    (hBlocs : blocNumbers nodes = blocsBelow n)
    {k : Nat}
    {p : UInt64}
    {node : ListBloc}
    (hNode : nodes[k]? = some (p, node)) :
    node.posBloc.toUInt32 = UInt32.ofNat (k + 1) ∧
      node.posBloc.toInt = k + 1 ∧ k + 1 < n := by
  have hNumber := congrArg (fun l => l[k]?) hBlocs
  unfold blocNumbers blocsBelow at hNumber
  simp only [List.getElem?_map, hNode, Option.map_some]
    at hNumber
  have hShort : k < n - 1 := by
    by_contra hLong
    rw [List.getElem?_eq_none (by
      rw [List.length_range']
      omega)] at hNumber
    cases hNumber
  rw [List.getElem?_range' hShort, Option.map_some]
    at hNumber
  have hSame :
      node.posBloc.toUInt32 = UInt32.ofNat (k + 1) := by
    rw [Option.some.inj hNumber]
    congr 1
    omega
  have hValue := FixedWidth.toNat_toUInt32 node.posBloc
  have hRange := FixedWidth.toInt_range node.posBloc
  rw [hSame, UInt32.toNat_ofNat',
    Nat.mod_eq_of_lt (by omega)] at hValue
  exact ⟨hSame, by omega, by omega⟩

/- Before the loop the list has one node, for block 1. -/
theorem mirroring_first
    (hCreate : createList libc 1 heap = some (first, heap₁))
    (disk : Disk) :
    Mirroring v heap heap₁ first first []
      ⟨magicNumber, 1, 0⟩ disk 2 := by
  refine ⟨linked_first hCreate, ?_, ?_⟩
  · intro m hm
    rw [List.mem_singleton.mp hm]
  · intro m hm
    cases hm

/- After the loop the image of the last node is written. -/
theorem initVolume_images
    (hSlot : s.mbr.volume? vol.toNat = some v)
    (hLies : v.LiesOnDisk)
    (hSize : v.nbBlocs.toInt = n)
    (hTwo : 2 ≤ n)
    (hInit : s.initVolume libc vol = some after) :
    ∃ nodes,
      after.Lists nodes ∧ after.mbr = s.mbr ∧
      blocNumbers nodes = blocsBelow n ∧
      (∀ m ∈ nodes, m.2.magic = magicNumber) ∧
      Imaged v after.dev nodes := by
  simp only [initVolume, Option.bind_eq_bind,
    Option.bind_eq_some_iff] at hInit
  rcases hInit with
    ⟨w, hSlot', disk₁, _, ⟨first, heap₁⟩, hCreate,
      ⟨list, buffer, heap₂, disk₂⟩, hLoop, last, hLive,
      disk₃, hWrite, hAfter⟩
  cases hSlot.symm.trans hSlot'
  cases hAfter
  have hTotal : 2 + (v.nbBlocs.toInt - 2).toNat = n := by
    omega
  rcases (mirroring_first (v := v) hCreate disk₁).loop hSlot
      hLies hSize (v.nbBlocs.toInt - 2).toNat (by omega)
      (by omega) (i := 2) rfl hLoop with
    ⟨front, node, hMirroring⟩
  rw [hTotal] at hMirroring
  have hLinked := hMirroring.linked
  have hLast : heap₂.load list = some node :=
    hLinked.chain.load_of_mem (by simp)
  cases hLive.symm.trans hLast
  dsimp only at hWrite
  rw [writeBloc_at hSlot] at hWrite
  cases hWrite
  refine ⟨_, ⟨_, rfl, hLinked.chain⟩, rfl, hLinked.blocs,
    hMirroring.marked, ?_⟩
  exact hMirroring.imaged.write hLies hSize (Nat.le_refl n)
    hLinked.blocs last rfl buffer

/-
  After an initialisation the disk mirrors what was built in
  memory.
-/
theorem init_mirrors
    (libc : Libc)
    (s : Session Disk)
    (vol : UInt32)
    (v : Volume)
    (hSlot : s.mbr.volume? vol.toNat = some v)
    (hSize : 2 ≤ v.nbBlocs.toInt)
    (hLies : v.LiesOnDisk) :
    (s.heap.size + v.nbBlocs.toInt.toNat ≤
        libc.nodes.capacity →
      (s.initVolume libc vol).isSome) ∧
    ∀ after, s.initVolume libc vol = some after →
      after.Mirrored vol v.nbBlocs.toInt.toNat := by
  have hRange := FixedWidth.toInt_range v.nbBlocs
  generalize hn : v.nbBlocs.toInt.toNat = n
  have hCount : v.nbBlocs.toInt = n := by omega
  have hZero : (0 : UInt32).toNat = 0 := rfl
  have hAddr := Mbr.cytToSect_eq hSlot
  have hFits : Superbloc.layout.size ≤ hdaSectorSize := by
    decide
  let Carries : Disk → Prop := fun disk =>
    ∃ sb, sb.magic = magicNumber ∧
      Superbloc.layout.encode sb <+:
        (disk (sectorAddr (v.locate 0))).toList
  have hFirst :
      ∀ disk,
        s.mbr.writeBloc vol 0
            ((libc.garbage s.heap.calls).memcpy
              (Superbloc.layout.encode
                (createSuperbloc libc s.heap.scratch).1))
            s.dev = some disk → Carries disk := by
    intro disk hWrite
    rw [writeBloc_at hSlot] at hWrite
    cases hWrite
    refine ⟨(createSuperbloc libc s.heap.scratch).1, rfl, ?_⟩
    rw [Function.update_self]
    exact Sector.encode_prefix_memcpy _ hFits _ _
  have hLinks : LinksKeep s.mbr vol n Carries := by
    rintro b buffer disk disk' hLow hHigh
      ⟨sb, hMagic, hImage⟩ hWrite
    rw [writeBloc_at hSlot] at hWrite
    cases hWrite
    refine ⟨sb, hMagic, ?_⟩
    rw [Function.update_of_ne]
    · exact hImage
    · intro hEq
      have hSame :=
        hLies.sectorAddr_inj (by omega) (by omega) hEq
      rw [← hSame] at hLow
      omega
  have hMax : max v.nbBlocs.toInt 2 = n := by omega
  rcases initVolume_spec_links libc hSlot hMax hFirst hLinks
    with ⟨hPost, hDefined⟩
  refine ⟨?_, ?_⟩
  · intro hRoom
    exact Option.isSome_iff_exists.mpr (hDefined hRoom)
  intro after hInit
  rcases (hPost after hInit).2 with ⟨sb, hMagic, hSuper⟩
  rcases initVolume_images hSlot hLies hCount (by omega)
      hInit with
    ⟨nodes, hLists, hSame, hBlocs, hMarked, hImaged⟩
  have hLength : nodes.length = n - 1 := by
    rw [← length_blocsBelow, ← hBlocs]
    exact (List.length_map _).symm
  refine ⟨⟨nodes, hLists, by omega, ?_⟩, ?_, ?_⟩
  · intro k p node hNode
    rcases posBloc_of_blocs (by omega) hBlocs hNode with
      ⟨hPos, hNumber, _⟩
    have hMem := List.mem_of_getElem? hNode
    have hImage := hImaged _ hMem
    rcases hLists with ⟨sb', _, hChain⟩
    refine ⟨hMarked _ hMem, hNumber, hChain.next_eq hNode,
      _, ?_, hImage⟩
    rw [hSame, hPos]
    exact Mbr.readBloc_eq (hAddr _) after.dev
  · refine ⟨sb, _, hMagic, ?_, hSuper⟩
    rw [hSame]
    exact Mbr.readBloc_eq (hAddr 0) after.dev
  · intro k
    rw [← hLength, ← hBlocs]
    exact newBlocs_eq hLists k

/- Five blocks from the last but one sector of a cylinder. -/
theorem init_mirrors_carry :
    ∃ after,
      initVolume sampleLibc 0
          (blankSession
            ⟨1, Vector.replicate 8
              ⟨TypeE.base, 0, 14, 5⟩⟩) =
        some after ∧
      after.Mirrored 0 5 := by
  have hLies :
      Volume.LiesOnDisk ⟨TypeE.base, 0, 14, 5⟩ :=
    Volume.Placed.liesOnDisk
      ⟨by decide, by decide, by decide⟩ (by decide)
  rcases init_mirrors sampleLibc
      (blankSession
        ⟨1, Vector.replicate 8 ⟨TypeE.base, 0, 14, 5⟩⟩)
      0 ⟨TypeE.base, 0, 14, 5⟩ rfl (by decide) hLies with
    ⟨hDefined, hMirrored⟩
  rcases Option.isSome_iff_exists.mp
      (hDefined (by decide)) with ⟨after, hInit⟩
  exact ⟨after, hInit, hMirrored after hInit⟩

end Session

end AsaKernel
