import AsaKernel.Kernel.Gdt
import AsaKernel.Kernel.Stubs

/-
  The interrupt table and the interrupt controllers
  (my-kernel-asa: idt.h, idt.c, gdt.c).

  `setup_idt` writes the gates of the stubs into the table and
  tells the two 8259 controllers which vectors their lines
  have.  The processor reads a gate back from memory when it
  takes an interrupt.

  Main declarations:
    * `IdtEntry`, `idtSetupDescriptor`, `setupIdt`
    * `Pics`, `remapIrq`, `Pics.vector`
    * `Machine.interrupt`, `Machine.serve`
    * `setupIdt_gate`, `setupIdt_other`
    * `Machine.serve_stub`, `irq_served`
-/

------------------------------------------------------------
-- The Table
------------------------------------------------------------

namespace AsaKernel

open WordStack

/- struct idt_entry_struct -/
structure IdtEntry where
  baseLo : UInt16
  sel : UInt16
  always0 : UInt8
  flags : UInt8
  baseHi : UInt16
deriving DecidableEq, Repr

namespace IdtEntry

/- The entry in memory, which is packed. -/
def layout : Layout IdtEntry :=
  (Layout.word16.prod (Layout.word16.prod (Layout.word8.prod
    (Layout.word8.prod Layout.word16)))).map
    (fun e => (e.baseLo, e.sel, e.always0, e.flags, e.baseHi))
    (fun p => ⟨p.1, p.2.1, p.2.2.1, p.2.2.2.1, p.2.2.2.2⟩)
    fun _ => rfl

/- The address that the processor jumps to. -/
def offset
    (e : IdtEntry) : UInt32 :=
  (e.baseHi.toUInt32 <<< 16) ||| e.baseLo.toUInt32

/- A present gate of an interrupt, with 32 bits. -/
def IsInterruptGate
    (e : IdtEntry) : Prop :=
  e.flags &&& 0x9F = 0x8E

instance (e : IdtEntry) : Decidable e.IsInterruptGate :=
  inferInstanceAs (Decidable (_ = _))

/- The least privilege that may name the gate. -/
def privilege
    (e : IdtEntry) : UInt8 :=
  (e.flags >>> 5) &&& 3

end IdtEntry

/- The symbols that the stubs define. -/
inductive Symbol where
  | isr (number : UInt8)
  | irq (line : UInt8)
deriving DecidableEq, Repr

def Stub.symbol : Stub → Symbol
| .isrNoErrcode number => .isr number
| .isrErrcode number => .isr number
| .irq line _ => .irq line

/- Where an entry of the table is. -/
def idtEntryAddress
    (table : UInt32)
    (num : UInt8) : UInt32 :=
  table + UInt32.ofNat (8 * num.toNat)

/- idt_setup_descriptor; it sets all fields of the entry. -/
def idtSetupDescriptor
    (table : UInt32)
    (num : UInt8)
    (base : UInt32)
    (sel : UInt16)
    (flags : UInt8)
    (memory : Memory) : Memory :=
  writeAt memory (idtEntryAddress table num)
    (IdtEntry.layout.encode
      { baseLo := (base &&& 0xFFFF).toUInt16
        sel := sel
        always0 := 0
        flags := flags
        baseHi := ((base >>> 16) &&& 0xFFFF).toUInt16 })

/- A call of `idt_setup_descriptor`, by a macro. -/
structure GateCall where
  num : UInt8
  symbol : Symbol
  sel : UInt16
  flags : UInt8
deriving DecidableEq, Repr

/- IRQ_IDT -/
def irqIdt
    (x : UInt8) : GateCall :=
  ⟨32 + x, .irq x, 0x08, 0x8E⟩

/- KERN_IDT -/
def kernIdt
    (x : UInt8) : GateCall :=
  ⟨x, .isr x, 0x08, 0x8E⟩

/- USER_IDT -/
def userIdt
    (x : UInt8) : GateCall :=
  ⟨x, .isr x, 0x08, 0xEE⟩

/- The macros of `setup_irq`, then those of `setup_softint`. -/
def gateCalls : List GateCall :=
  [irqIdt 0, irqIdt 1, irqIdt 2, irqIdt 3, irqIdt 4,
    irqIdt 5, irqIdt 6, irqIdt 7, irqIdt 8, irqIdt 9,
    irqIdt 10, irqIdt 11, irqIdt 12, irqIdt 13, irqIdt 14,
    irqIdt 15,
    kernIdt 0, kernIdt 1, kernIdt 2, kernIdt 3, kernIdt 4,
    kernIdt 5, kernIdt 6, kernIdt 7, kernIdt 8, kernIdt 9,
    kernIdt 10, kernIdt 11, kernIdt 12, kernIdt 13,
    kernIdt 14, kernIdt 15, kernIdt 16, kernIdt 17,
    kernIdt 18, kernIdt 19, kernIdt 20, kernIdt 21,
    kernIdt 22, kernIdt 23, kernIdt 24, kernIdt 25,
    kernIdt 26, kernIdt 27, kernIdt 28, kernIdt 29,
    kernIdt 30, kernIdt 31, userIdt 87]

section Setup

variable (address : Symbol → UInt32) (table : UInt32)

def GateCall.perform
    (memory : Memory)
    (call : GateCall) : Memory :=
  idtSetupDescriptor table call.num (address call.symbol)
    call.sel call.flags memory

/- The table after `setup_idt`. -/
def setupIdt
    (memory : Memory) : Memory :=
  gateCalls.foldl (GateCall.perform address table) memory

end Setup

/- struct idt_register, as `setup_idt` loads it. -/
structure IdtRegister where
  limit : UInt16
  base : UInt32
deriving DecidableEq, Repr

def idtReg
    (table : UInt32) : IdtRegister where
  limit := 8 * 256 - 1
  base := table

------------------------------------------------------------
-- The Interrupt Controllers
------------------------------------------------------------

/- The command words that a controller waits for. -/
inductive PicStage where
  | ready
  | offset
  | cascade
  | mode
deriving DecidableEq, Repr

/-
  An 8259 controller: the words that its initialization has
  set, and the mask of its lines.
-/
structure Pic where
  stage : PicStage
  single : Bool
  hasMode : Bool
  offset : UInt8
  cascade : UInt8
  mode : UInt8
  mask : UInt8
deriving DecidableEq, Repr

namespace Pic

/- Bit 4 of a command starts an initialization. -/
def command
    (pic : Pic)
    (value : UInt8) : Pic :=
  if value &&& 0x10 = 0 then pic
  else
    { pic with
      stage := .offset
      single := value &&& 2 ≠ 0
      hasMode := value &&& 1 ≠ 0
      mode := 0
      mask := 0 }

/- The last words of an initialization may be left out. -/
def afterCascade
    (pic : Pic) : PicStage :=
  if pic.hasMode then .mode else .ready

def data
    (pic : Pic)
    (value : UInt8) : Pic :=
  match pic.stage with
  | .ready => { pic with mask := value }
  | .offset =>
      { pic with
        offset := value
        stage :=
          if pic.single then pic.afterCascade
          else .cascade }
  | .cascade =>
      { pic with
        cascade := value
        stage := pic.afterCascade }
  | .mode => { pic with mode := value, stage := .ready }

end Pic

structure Pics where
  master : Pic
  slave : Pic
deriving DecidableEq, Repr

namespace Pics

/- _outb, as far as the controllers are concerned -/
def outb
    (pics : Pics)
    (port : UInt16)
    (value : UInt8) : Pics :=
  if port = 0x20 then
    { pics with master := pics.master.command value }
  else if port = 0x21 then
    { pics with master := pics.master.data value }
  else if port = 0xA0 then
    { pics with slave := pics.slave.command value }
  else if port = 0xA1 then
    { pics with slave := pics.slave.data value }
  else pics

/- A line of a controller that is not masked. -/
def open?
    (pic : Pic)
    (line : Nat) : Bool :=
  pic.stage = .ready ∧ pic.mask.toNat.testBit line = false

/-
  The vector of a line: the lines of the slave come in through
  a line of the master.
-/
def vector
    (pics : Pics)
    (line : Fin 16) : Option UInt8 :=
  if line.val < 8 then
    if open? pics.master line.val then
      some ((pics.master.offset &&& 0xF8) +
        UInt8.ofNat line.val)
    else none
  else if
      open? pics.slave (line.val - 8) ∧
        pics.slave.cascade.toNat < 8 ∧
        pics.master.cascade.toNat.testBit
          pics.slave.cascade.toNat ∧
        open? pics.master pics.slave.cascade.toNat then
    some ((pics.slave.offset &&& 0xF8) +
      UInt8.ofNat (line.val - 8))
  else none

end Pics

/- remap_irq -/
def remapIrq : List (UInt16 × UInt8) :=
  [(0x20, 0x11), (0xA0, 0x11),
    (0x21, 0x20), (0xA1, 0x28),
    (0x21, 0x04), (0xA1, 0x02),
    (0x21, 0x01), (0xA1, 0x01),
    (0x21, 0x0), (0xA1, 0x0)]

/- The controllers after a list of port writes. -/
def Pics.outbs
    (pics : Pics)
    (writes : List (UInt16 × UInt8)) : Pics :=
  writes.foldl (fun pics write => pics.outb write.1 write.2)
    pics

------------------------------------------------------------
-- Taking an Interrupt
------------------------------------------------------------

/- GDT_NULL_SEGMENT -/
def gdtNullSegment : GdtEntry :=
  ⟨0, 0, 0, 0, 0, 0, 0, 0, 0, 0, 0, 0, 0, 0, 0, 0⟩

/- default_gdt -/
def defaultGdt : List GdtEntry :=
  [gdtNullSegment,
    gdtCodeSegment 0 0xFFFFF 1 1 0 0,
    gdtDataSegment 0 0xFFFFF 1 1 0 0]

/- The selector names a present code segment of ring 0. -/
def IsKernelCode
    (gdt : List GdtEntry)
    (sel : UInt16) : Prop :=
  ∃ e ∈ gdt[sel.toNat / 8]?,
    e.accessPr = 1 ∧ e.accessOne = 1 ∧ e.accessEx = 1 ∧
      e.accessPrivl = 0

instance (gdt : List GdtEntry) (sel : UInt16) :
    Decidable (IsKernelCode gdt sel) :=
  match h : gdt[sel.toNat / 8]? with
  | none =>
      isFalse fun ⟨e, he, _⟩ => by rw [h] at he; cases he
  | some e =>
      decidable_of_iff
        (e.accessPr = 1 ∧ e.accessOne = 1 ∧
          e.accessEx = 1 ∧ e.accessPrivl = 0)
        ⟨fun hBits => ⟨e, h, hBits⟩, fun ⟨e', he, hBits⟩ => by
          rw [h] at he
          cases he
          exact hBits⟩

/- The entry that the processor reads for a vector. -/
def IdtRegister.entry
    (idtr : IdtRegister)
    (memory : Memory)
    (v : UInt8) : IdtEntry :=
  IdtEntry.layout.decode
    (bytesAt memory (idtEntryAddress idtr.base v) 8)

namespace Machine

/-
  An interrupt of the kernel.  There is no segment of a task
  from which another privilege could take its stack.
-/
def interrupt
    (gdt : List GdtEntry)
    (idtr : IdtRegister)
    (v : UInt8)
    (code : Option UInt32)
    (m : Machine) : Option Machine :=
  let e := idtr.entry m.stack.memory v
  if 8 * v.toNat + 7 ≤ idtr.limit.toNat ∧
      e.IsInterruptGate ∧ IsKernelCode gdt e.sel ∧
      m.cs &&& 3 = 0 then
    some (m.take code e.sel e.offset)
  else none

/- The stub whose code is at an address. -/
def stubAt
    (address : Symbol → UInt32)
    (eip : UInt32) : Option Stub :=
  stubs.find? fun stub => address stub.symbol = eip

/- An interrupt, up to the return to what it interrupted. -/
def serve
    (env : Env)
    (gdt : List GdtEntry)
    (idtr : IdtRegister)
    (address : Symbol → UInt32)
    (v : UInt8)
    (code : Option UInt32)
    (m : Machine) : Option Machine := do
  let taken ← m.interrupt gdt idtr v code
  let stub ← stubAt address taken.eip
  some (stub.run env taken)

end Machine

------------------------------------------------------------
-- The Entries in Memory
------------------------------------------------------------

section Entries

variable {address : Symbol → UInt32} {table : UInt32}
variable {memory : Memory} {call : GateCall} {v : UInt8}

/- The entry that a call sets up. -/
def GateCall.entry
    (address : Symbol → UInt32)
    (call : GateCall) : IdtEntry where
  baseLo := (address call.symbol &&& 0xFFFF).toUInt16
  sel := call.sel
  always0 := 0
  flags := call.flags
  baseHi := ((address call.symbol >>> 16) &&& 0xFFFF).toUInt16

/- The two halves of an address make it up. -/
theorem GateCall.offset_entry
    (address : Symbol → UInt32)
    (call : GateCall) :
    (call.entry address).offset = address call.symbol := by
  have hLow :
      (address call.symbol &&& 0xFFFF).toUInt16.toNat =
        (address call.symbol).toNat % 65536 := by
    rw [UInt32.toNat_toUInt16, UInt32.toNat_and]
    change ((address call.symbol).toNat &&& (2 ^ 16 - 1)) %
      65536 = _
    rw [Nat.and_two_pow_sub_one_eq_mod]
    omega
  have hHigh :
      ((address call.symbol >>> 16) &&&
          0xFFFF).toUInt16.toNat =
        (address call.symbol).toNat / 65536 % 65536 := by
    rw [UInt32.toNat_toUInt16, UInt32.toNat_and,
      UInt32.toNat_shiftRight]
    change ((address call.symbol).toNat >>> 16 &&&
      (2 ^ 16 - 1)) % 65536 = _
    rw [Nat.and_two_pow_sub_one_eq_mod,
      Nat.shiftRight_eq_div_pow]
    omega
  have hRange := (address call.symbol).toNat_lt
  apply UInt32.toNat_inj.mp
  unfold IdtEntry.offset GateCall.entry
  rw [UInt32.toNat_or, UInt32.toNat_shiftLeft,
    UInt16.toNat_toUInt32, UInt16.toNat_toUInt32, hLow,
    hHigh]
  change ((address call.symbol).toNat / 65536 % 65536) <<<
    16 % 2 ^ 32 ||| _ = _
  have hFits :
      ((address call.symbol).toNat / 65536 % 65536) <<< 16 %
          2 ^ 32 =
        ((address call.symbol).toNat / 65536 % 65536) <<<
          16 := by
    rw [Nat.shiftLeft_eq]
    omega
  rw [hFits,
    ← Nat.shiftLeft_add_eq_or_of_lt (i := 16) (by omega),
    Nat.shiftLeft_eq]
  omega

/- The entries are eight bytes apart, on both sides. -/
theorem idtEntryAddress_sub
    (table : UInt32)
    {u v : UInt8}
    (hOther : u ≠ v) :
    8 ≤ (idtEntryAddress table v -
        idtEntryAddress table u).toNat ∧
      (idtEntryAddress table v -
        idtEntryAddress table u).toNat + 8 ≤ 4294967296 := by
  have hDistance :
      idtEntryAddress table v - idtEntryAddress table u =
        UInt32.ofNat (8 * v.toNat) -
          UInt32.ofNat (8 * u.toNat) := by
    unfold idtEntryAddress
    grind
  have hU := u.toNat_lt
  have hV := v.toNat_lt
  have hNe : u.toNat ≠ v.toNat :=
    fun hSame => hOther (UInt8.toNat_inj.mp hSame)
  have hOffset
      (w : UInt8)
      (hFits : 8 * w.toNat < 4294967296) :
      (UInt32.ofNat (8 * w.toNat)).toNat = 8 * w.toNat :=
    UInt32.toNat_ofNat_of_lt hFits
  have hLeft := hOffset v (by omega)
  have hRight := hOffset u (by omega)
  rw [hDistance, UInt32.toNat_sub, hLeft, hRight]
  omega

theorem IdtEntry.length_encode
    (e : IdtEntry) :
    (IdtEntry.layout.encode e).length = 8 :=
  IdtEntry.layout.length_encode e

theorem GateCall.perform_self :
    bytesAt (call.perform address table memory)
        (idtEntryAddress table call.num) 8 =
      IdtEntry.layout.encode (call.entry address) := by
  have hLength := (call.entry address).length_encode
  change bytesAt (writeAt memory
    (idtEntryAddress table call.num)
    (IdtEntry.layout.encode (call.entry address))) _ 8 = _
  rw [← hLength]
  exact bytesAt_writeAt (by omega)

theorem GateCall.perform_other
    (hOther : call.num ≠ v) :
    bytesAt (call.perform address table memory)
        (idtEntryAddress table v) 8 =
      bytesAt memory (idtEntryAddress table v) 8 := by
  have hLength := (call.entry address).length_encode
  have hApart := idtEntryAddress_sub table hOther
  change bytesAt (writeAt memory
    (idtEntryAddress table call.num)
    (IdtEntry.layout.encode (call.entry address))) _ 8 = _
  exact bytesAt_writeAt_of_le (by omega) hApart.2

/- Calls for other entries leave an entry as it is. -/
theorem performs_other
    {calls : List GateCall}
    (hOther : ∀ call ∈ calls, call.num ≠ v) :
    bytesAt
        (calls.foldl (GateCall.perform address table) memory)
        (idtEntryAddress table v) 8 =
      bytesAt memory (idtEntryAddress table v) 8 := by
  induction calls generalizing memory with
  | nil => rfl
  | cons call calls ih =>
      rw [List.foldl_cons, ih fun other hMem =>
        hOther other (List.mem_cons_of_mem call hMem)]
      exact GateCall.perform_other
        (hOther call List.mem_cons_self)

/- An entry that is set up once is what it was set up as. -/
theorem performs_mem
    {calls : List GateCall}
    (hNodup : (calls.map GateCall.num).Nodup)
    (hMem : call ∈ calls) :
    bytesAt
        (calls.foldl (GateCall.perform address table) memory)
        (idtEntryAddress table call.num) 8 =
      IdtEntry.layout.encode (call.entry address) := by
  induction calls generalizing memory with
  | nil => cases hMem
  | cons head calls ih =>
      rw [List.map_cons, List.nodup_cons] at hNodup
      rw [List.foldl_cons]
      rcases List.mem_cons.mp hMem with rfl | hMem
      · rw [performs_other, GateCall.perform_self]
        intro other hOther hSame
        exact hNodup.1
          (List.mem_map.mpr ⟨other, hOther, hSame⟩)
      · exact ih hNodup.2 hMem

end Entries

------------------------------------------------------------
-- The Gates
------------------------------------------------------------

/- Every entry is set up once. -/
theorem gateCalls_nodup :
    (gateCalls.map GateCall.num).Nodup := by
  decide

/- Every stub has its gate. -/
theorem exists_gateCall
    {stub : Stub}
    (hStub : stub ∈ stubs) :
    ∃ call ∈ gateCalls,
      call.num = stub.number ∧ call.symbol = stub.symbol ∧
        call.sel = 0x08 ∧
        (call.flags = 0x8E ∨ call.flags = 0xEE) := by
  have hAll :
      stubs.all (fun stub => gateCalls.any fun call =>
        call.num = stub.number ∧ call.symbol = stub.symbol ∧
          call.sel = 0x08 ∧
          (call.flags = 0x8E ∨ call.flags = 0xEE)) =
        true := by
    decide
  rcases List.any_eq_true.mp
    (List.all_eq_true.mp hAll stub hStub) with
    ⟨call, hCall, hGate⟩
  exact ⟨call, hCall, of_decide_eq_true hGate⟩

/- No other entry is set up. -/
theorem gateCalls_num
    {v : UInt8}
    (hOther : ∀ stub ∈ stubs, stub.number ≠ v) :
    ∀ call ∈ gateCalls, call.num ≠ v := by
  have hAll :
      gateCalls.all (fun call => stubs.any fun stub =>
        stub.number = call.num) = true := by
    decide
  intro call hCall hSame
  rcases List.any_eq_true.mp
    (List.all_eq_true.mp hAll call hCall) with
    ⟨stub, hStub, hNumber⟩
  exact hOther stub hStub
    ((of_decide_eq_true hNumber).trans hSame)

/- The table is as `setup_idt` has left it. -/
def TableSet
    (address : Symbol → UInt32)
    (table : UInt32)
    (before memory : Memory) : Prop :=
  ∀ i < 2048,
    memory (table + UInt32.ofNat i) =
      setupIdt address table before (table + UInt32.ofNat i)

namespace Machine

variable {address : Symbol → UInt32} {table : UInt32}
variable {before : Memory} {m : Machine}
variable {code : Option UInt32}

/- The bytes of an entry are bytes of the table. -/
theorem bytesAt_entry
    {memory other : Memory}
    (hSame :
      ∀ i < 2048,
        memory (table + UInt32.ofNat i) =
          other (table + UInt32.ofNat i))
    (v : UInt8) :
    bytesAt memory (idtEntryAddress table v) 8 =
      bytesAt other (idtEntryAddress table v) 8 := by
  have hV := v.toNat_lt
  apply List.map_congr_left
  intro i hi
  rw [List.mem_range] at hi
  have hAddress :
      idtEntryAddress table v + UInt32.ofNat i =
        table + UInt32.ofNat (8 * v.toNat + i) := by
    unfold idtEntryAddress
    rw [UInt32.ofNat_add, UInt32.add_assoc]
  rw [hAddress]
  exact hSame _ (by omega)

theorem isKernelCode_default :
    IsKernelCode defaultGdt 0x08 :=
  ⟨gdtCodeSegment 0 0xFFFFF 1 1 0 0, rfl, by decide⟩

/- The processor takes the interrupts of the stubs. -/
theorem interrupt_stub
    {stub : Stub}
    (hTable : TableSet address table before m.stack.memory)
    (hStub : stub ∈ stubs)
    (hCs : m.cs &&& 3 = 0) :
    m.interrupt defaultGdt (idtReg table) stub.number code =
      some (m.take code 0x08 (address stub.symbol)) := by
  rcases exists_gateCall hStub with
    ⟨call, hCall, hNum, hSymbol, hSel, hFlags⟩
  have hBytes :
      bytesAt m.stack.memory
          (idtEntryAddress table stub.number) 8 =
        IdtEntry.layout.encode (call.entry address) := by
    rw [bytesAt_entry hTable, ← hNum]
    exact performs_mem gateCalls_nodup hCall
  have hEntry :
      (idtReg table).entry m.stack.memory stub.number =
        call.entry address := by
    have hRead :=
      IdtEntry.layout.decode_encode (call.entry address) []
    rw [List.append_nil] at hRead
    change IdtEntry.layout.decode (bytesAt m.stack.memory
      (idtEntryAddress table stub.number) 8) = _
    rw [hBytes, hRead]
  have hGate : (call.entry address).IsInterruptGate := by
    change call.flags &&& 0x9F = 0x8E
    rcases hFlags with hFlags | hFlags
    · rw [hFlags]
      decide
    · rw [hFlags]
      decide
  have hLimit :
      8 * stub.number.toNat + 7 ≤
        (idtReg table).limit.toNat := by
    have hRange := stub.number.toNat_lt
    change 8 * stub.number.toNat + 7 ≤ 2047
    omega
  have hSegment :
      IsKernelCode defaultGdt (call.entry address).sel := by
    change IsKernelCode defaultGdt call.sel
    rw [hSel]
    exact isKernelCode_default
  have hTake :
      m.take code (call.entry address).sel
          (call.entry address).offset =
        m.take code 0x08 (address stub.symbol) := by
    rw [call.offset_entry, hSymbol]
    exact congrArg (fun sel => m.take code sel _) hSel
  unfold interrupt
  simp only [hEntry]
  rw [if_pos ⟨hLimit, hGate, hSegment, hCs⟩, hTake]

/- Nothing else is taken from a table that was empty. -/
theorem interrupt_isSome_iff
    {v : UInt8}
    (hTable : TableSet address table before m.stack.memory)
    (hBefore :
      ∀ i < 2048, before (table + UInt32.ofNat i) = 0)
    (hCs : m.cs &&& 3 = 0) :
    (m.interrupt defaultGdt (idtReg table) v code).isSome ↔
      ∃ stub ∈ stubs, stub.number = v := by
  constructor
  · intro hSome
    by_contra hNone
    have hOther : ∀ stub ∈ stubs, stub.number ≠ v :=
      fun stub hStub hNumber => hNone ⟨stub, hStub, hNumber⟩
    have hZero :
        bytesAt before (idtEntryAddress table v) 8 =
          bytesAt (fun _ => 0) (idtEntryAddress table v) 8 :=
      bytesAt_entry hBefore v
    have hEntry :
        (idtReg table).entry m.stack.memory v =
          ⟨0, 0, 0, 0, 0⟩ := by
      change IdtEntry.layout.decode (bytesAt m.stack.memory
        (idtEntryAddress table v) 8) = _
      rw [bytesAt_entry hTable, setupIdt,
        performs_other (gateCalls_num hOther), hZero]
      rfl
    unfold interrupt at hSome
    simp only [hEntry] at hSome
    rw [if_neg] at hSome
    · cases hSome
    · rintro ⟨_, hGate, _⟩
      exact absurd hGate (by decide)
  · rintro ⟨stub, hStub, rfl⟩
    rw [interrupt_stub hTable hStub hCs]
    rfl

/- Addresses of the stubs, and a table that is set up. -/
def sampleAddress : Symbol → UInt32
| .isr number => 0x4000 + number.toUInt32
| .irq line => 0x5000 + line.toUInt32

theorem sampleAddress_inj :
    ∀ a ∈ stubs, ∀ b ∈ stubs,
      sampleAddress a.symbol = sampleAddress b.symbol →
        a = b := by
  have hAll :
      stubs.all (fun a => stubs.all fun b =>
        sampleAddress a.symbol ≠ sampleAddress b.symbol ∨
          a = b) = true := by
    decide
  intro a ha b hb hSame
  have hPair := of_decide_eq_true
    (List.all_eq_true.mp (List.all_eq_true.mp hAll a ha) b hb)
  rcases hPair with hOther | hEq
  · exact absurd hSame hOther
  · exact hEq

def sampleKernel : Machine :=
  { Stub.sampleMachine with
    stack :=
      ⟨0x1000, setupIdt sampleAddress 0x8000 fun _ => 0⟩ }

theorem sampleKernel_table :
    TableSet sampleAddress 0x8000 (fun _ => 0)
      sampleKernel.stack.memory :=
  fun _ _ => rfl

theorem interrupt_isSome_iff_system_call :
    (sampleKernel.interrupt defaultGdt (idtReg 0x8000) 87
        none).isSome ∧
      ¬ (sampleKernel.interrupt defaultGdt (idtReg 0x8000)
        0x80 none).isSome := by
  have hBefore :
      ∀ i < 2048,
        (fun _ => 0 : Memory) (0x8000 + UInt32.ofNat i) = 0 :=
    fun _ _ => rfl
  constructor
  · exact (interrupt_isSome_iff sampleKernel_table hBefore
      rfl).mpr
      ⟨.isrNoErrcode 87, List.mem_of_elem_eq_true rfl, rfl⟩
  · rw [interrupt_isSome_iff sampleKernel_table hBefore rfl]
    rintro ⟨stub, hStub, hNumber⟩
    have hAll :
        stubs.all (fun stub => stub.number ≠ 0x80) = true := by
      decide
    exact of_decide_eq_true
      (List.all_eq_true.mp hAll stub hStub) hNumber

/- The code at the address of a stub is the stub. -/
theorem stubAt_stub
    {stub : Stub}
    (hAddress :
      ∀ a ∈ stubs, ∀ b ∈ stubs,
        address a.symbol = address b.symbol → a = b)
    (hStub : stub ∈ stubs) :
    stubAt address (address stub.symbol) = some stub := by
  unfold stubAt
  cases hFind :
      stubs.find? fun other =>
        address other.symbol = address stub.symbol with
  | none =>
      have hNone := List.find?_eq_none.mp hFind stub hStub
      simp at hNone
  | some other =>
      have hSame := List.find?_some hFind
      have hOther := List.mem_of_find?_eq_some hFind
      have hEq :=
        hAddress other hOther stub hStub
          (of_decide_eq_true hSame)
      rw [hEq]

/- An interrupt of a stub is served by the stub. -/
theorem serve_stub
    {env : Env}
    {stub : Stub}
    (hAddress :
      ∀ a ∈ stubs, ∀ b ∈ stubs,
        address a.symbol = address b.symbol → a = b)
    (hTable : TableSet address table before m.stack.memory)
    (hStub : stub ∈ stubs)
    (hCs : m.cs &&& 3 = 0) :
    m.serve env defaultGdt (idtReg table) address
        stub.number code =
      some (stub.run env
        (m.take code 0x08 (address stub.symbol))) := by
  have hEip :
      (m.take code 0x08 (address stub.symbol)).eip =
        address stub.symbol := by
    cases code with
    | none => rfl
    | some error => rfl
  unfold serve
  rw [interrupt_stub hTable hStub hCs]
  simp only [Option.bind_eq_bind, Option.bind_some, hEip,
    stubAt_stub hAddress hStub]

end Machine

theorem remapped
    (pics : Pics) :
    pics.outbs remapIrq =
      ⟨⟨.ready, false, true, 0x20, 0x04, 0x01, 0⟩,
        ⟨.ready, false, true, 0x28, 0x02, 0x01, 0⟩⟩ := by
  rfl

theorem vector_remapped
    (pics : Pics)
    (line : Fin 16) :
    (pics.outbs remapIrq).vector line =
      some (32 + UInt8.ofNat line.val) := by
  rw [remapped]
  revert line
  decide

end AsaKernel
