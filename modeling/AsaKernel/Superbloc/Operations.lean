import AsaKernel.Foundations.LinkedChain
import AsaKernel.Volume.Table

/-
  The superblock and its list of free blocks
  (superbloc.h, superbloc.c).

  The nodes of the list live in a heap; the superblock holds
  the address of the first one.  A step is undefined (`none`)
  when it follows a null or dangling pointer, reads outside
  the volume table or runs out of memory.

  Main declarations:
    * `ListBloc`, `Superbloc`, `Libc`, `Session`
    * `createSuperbloc`, `createList`
    * `Session.initVolume`, `Session.loadSuper`,
      `Session.saveSuper`
    * `Session.newBloc`, `Session.freeBloc`
    * `Session.freeBlocs`
-/

------------------------------------------------------------
-- Superblocks and List Nodes
------------------------------------------------------------

namespace AsaKernel

/- MAGIC -/
def magicNumber : UInt32 := 0xDEADBEEF

/- list_bloc_t -/
structure ListBloc where
  magic : UInt32
  posBloc : Int32
  next : UInt64
deriving DecidableEq, Repr

/- superbloc_t -/
structure Superbloc where
  magic : UInt32
  serial : Int32
  name : List.Vector UInt8 32
  first : UInt64
deriving DecidableEq

/- The memory image of a `list_bloc_t`. -/
def ListBloc.layout : Layout ListBloc :=
  (Layout.word32.prod
    (Layout.int32.prod Layout.word64)).map
    (fun n => (n.magic, n.posBloc, n.next))
    (fun p => ⟨p.1, p.2.1, p.2.2⟩)
    (fun _ => rfl)

/- The memory image of a `superbloc_t`. -/
def Superbloc.layout : Layout Superbloc :=
  (Layout.word32.prod
    (Layout.int32.prod
      ((Layout.bytes 32).prod Layout.word64))).map
    (fun s => (s.magic, s.serial, s.name, s.first))
    (fun p => ⟨p.1, p.2.1, p.2.2.1, p.2.2.2⟩)
    (fun _ => rfl)

/- sizeof(list_bloc_t) -/
theorem ListBloc.size_layout :
    ListBloc.layout.size = 16 := rfl

/- sizeof(superbloc_t) -/
theorem Superbloc.size_layout :
    Superbloc.layout.size = 48 := rfl

/-
  The C library: memory for list nodes, what the other
  requests for memory find in the block they get, `rand`, and
  the bytes behind the literal that `create_superbloc` reads
  beyond its end.
-/
structure Libc where
  nodes : Allocator ListBloc
  garbage : Nat → Sector
  rand : Nat → Int32
  pastLiteral : List.Vector UInt8 19

/- The globals of the program, with its heap and its drive. -/
structure Session (δ : Type) where
  mbr : Mbr
  buffer : Sector
  currentSuperbloc : Option Superbloc
  currentVol : Int32
  heap : Heap ListBloc
  dev : δ

------------------------------------------------------------
-- Operations
------------------------------------------------------------

/- The 32 bytes copied from the literal "PLACEHOLDER\0". -/
def placeholder
    (libc : Libc) : List.Vector UInt8 32 :=
  ⟨[80, 76, 65, 67, 69, 72, 79, 76, 68, 69, 82, 0, 0] ++
      libc.pastLiteral.toList, by
    rw [List.length_append, libc.pastLiteral.toList_length]
    rfl⟩

/- create_superbloc; the field `first` is not assigned -/
def createSuperbloc
    (libc : Libc)
    (heap : Heap ListBloc) :
    Superbloc × Heap ListBloc :=
  let sb :=
    Superbloc.layout.decode (libc.garbage heap.calls).toList
  ({ sb with
      magic := magicNumber
      serial := libc.rand heap.calls
      name := placeholder libc },
    heap.scratch)

/- create_list -/
def createList
    (libc : Libc)
    (bloc : UInt32)
    (heap : Heap ListBloc) :
    Option (UInt64 × Heap ListBloc) :=
  heap.alloc libc.nodes
    { magic := magicNumber
      posBloc := bloc.toInt32
      next := 0 }

namespace Session

variable {δ : Type} [Drive δ]

/-
  The loop of `init_volume`, with the number of iterations
  left: a node for block `i` is linked behind `list`, whose
  image is then written to its block.
-/
def initLoop
    (libc : Libc)
    (mbr : Mbr)
    (vol : UInt32) :
    Nat → Int32 → UInt64 → Sector → Heap ListBloc → δ →
      Option (UInt64 × Sector × Heap ListBloc × δ)
| 0, _, list, buffer, heap, dev =>
    some (list, buffer, heap, dev)
| k + 1, i, list, buffer, heap, dev => do
    let (tmp, heap) ← createList libc i.toUInt32 heap
    let node ← heap.load list
    let node := { node with next := tmp }
    let heap ← heap.store list node
    let buffer := buffer.memcpy (ListBloc.layout.encode node)
    let dev ←
      mbr.writeBloc vol node.posBloc.toUInt32 buffer dev
    initLoop libc mbr vol k (i + 1) tmp buffer heap dev

/- init_volume -/
def initVolume
    (libc : Libc)
    (vol : UInt32)
    (s : Session δ) : Option (Session δ) := do
  let buffer := libc.garbage s.heap.calls
  let heap := s.heap.scratch
  let volume ← s.mbr.volume? vol.toNat
  let size := volume.nbBlocs
  let (sb, heap) := createSuperbloc libc heap
  let buffer := buffer.memcpy (Superbloc.layout.encode sb)
  let dev ← s.mbr.writeBloc vol 0 buffer s.dev
  let (first, heap) ← createList libc 1 heap
  let (list, buffer, heap, dev) ←
    initLoop libc s.mbr vol (size.toInt - 2).toNat 2 first
      buffer heap dev
  let node ← heap.load list
  let buffer := buffer.memcpy (ListBloc.layout.encode node)
  let dev ←
    s.mbr.writeBloc vol node.posBloc.toUInt32 buffer dev
  some { s with
    currentSuperbloc := some { sb with first := first }
    heap := heap
    dev := dev }

/- load_super -/
def loadSuper
    (libc : Libc)
    (vol : UInt32)
    (s : Session δ) : Option (Int32 × Session δ) := do
  let heap := s.heap.scratch.scratch
  let (buffer, dev) ← s.mbr.readBloc vol 0 s.dev
  let sb := Superbloc.layout.decode buffer.toList
  let s :=
    { s with
      currentSuperbloc := some sb
      heap := heap
      dev := dev }
  if sb.magic ≠ magicNumber then
    let s ← s.initVolume libc vol
    some (vol.toInt32, s)
  else some (vol.toInt32, s)

/- save_super -/
def saveSuper
    (libc : Libc)
    (s : Session δ) : Option (Session δ) := do
  let buffer := libc.garbage s.heap.calls
  let sb ← s.currentSuperbloc
  let buffer := buffer.memcpy (Superbloc.layout.encode sb)
  let dev ←
    s.mbr.writeBloc s.currentVol.toUInt32 0 buffer s.dev
  some { s with
    currentSuperbloc := none
    heap := s.heap.scratch
    dev := dev }

/- new_bloc -/
def newBloc
    (s : Session δ) : Option (UInt32 × Session δ) :=
  match s.currentSuperbloc with
  | none => some (-1, s)
  | some sb =>
      if sb.first = 0 then some (0, s)
      else do
        let new ← s.heap.load sb.first
        let res := new.posBloc
        some (res.toUInt32,
          { s with
            currentSuperbloc :=
              some { sb with first := new.next }
            heap := s.heap.release sb.first })

/-
  The search of `free_bloc`: does a node with the block number
  occur?  A list that is not ended by NULL has no answer.
-/
def isListed
    (heap : Heap ListBloc)
    (bloc : UInt32) :
    Nat → UInt64 → Option Bool
| 0, _ => none
| fuel + 1, newbloc =>
    if newbloc = 0 then some false
    else do
      let node ← heap.load newbloc
      if node.posBloc.toUInt32 = bloc then some true
      else isListed heap bloc fuel node.next

/- free_bloc -/
def freeBloc
    (libc : Libc)
    (bloc : UInt32)
    (s : Session δ) : Option (Int32 × Session δ) :=
  match s.currentSuperbloc with
  | none => some (-2, s)
  | some sb => do
      let volume ← s.mbr.volume? s.currentVol.toInt
      let size := volume.nbBlocs
      if size.toUInt32 ≤ bloc then some (-1, s)
      else
        let found ←
          isListed s.heap bloc (s.heap.size + 1) sb.first
        if found then some (0, s)
        else
          let (newbloc, heap) ← createList libc bloc s.heap
          let node ← heap.load newbloc
          let heap ←
            heap.store newbloc { node with next := sb.first }
          some (1,
            { s with
              currentSuperbloc :=
                some { sb with first := newbloc }
              heap := heap })

/-
  The block numbers that `display_current_vol` lists, read as
  `free_bloc` reads them.
-/
def freeBlocs
    (s : Session δ) : Option (List UInt32) := do
  let sb ← s.currentSuperbloc
  let nodes ←
    s.heap.walk ListBloc.next (s.heap.size + 1) sb.first
  some (nodes.map fun node => node.2.posBloc.toUInt32)

end Session

end AsaKernel
