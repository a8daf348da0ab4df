import AsaKernel.Foundations.Scanning
import AsaKernel.Kernel.Hexadecimal
import AsaKernel.Kernel.Idt
import AsaKernel.Kernel.Interrupts

/-
  Interrupts from the line to the handler (my-kernel-asa:
  idt0.s, idt.c, main.c).

  The controllers give a line its vector, the table gives the
  vector its stub, and the stub passes the number on to the
  handler that `irq_handler` calls.  What the handlers write
  to ports leaves the vectors of the lines as they are.

  Main declarations:
    * `isrHandler`
    * `Pics.perform`, `Irqs.Harmless`
    * `irq_served`, `isr_served`
    * `lines_keep_vectors`
-/

------------------------------------------------------------
-- Faults
------------------------------------------------------------

namespace AsaKernel

open Scanning Transition WordStack

/- int_mesg -/
def intMesg : List String :=
  ["Division By Zero",
    "Debug",
    "Non Maskable Interrupt",
    "Breakpoint",
    "Into Detected Overflow",
    "Out of Bounds",
    "Invalid Opcode",
    "No Coprocessor",
    "Double Fault",
    "Coprocessor Segment Overrun",
    "Bad TSS",
    "Segment Not Present",
    "Stack Fault",
    "General Protection Fault",
    "Page Fault",
    "Unknown Interrupt",
    "Coprocessor Fault",
    "Alignment Check",
    "Machine Check",
    "Reserved",
    "Reserved",
    "Reserved",
    "Reserved",
    "Reserved",
    "Reserved",
    "Reserved",
    "Reserved",
    "Reserved",
    "Reserved",
    "Reserved",
    "Reserved",
    "Reserved"]

/-
  isr_handler: the text that it prints, and whether it
  returns.
-/
def isrHandler
    (r : IntRegs) : Option (List UInt8 × Bool) :=
  if r.intNo < 32 then do
    let mesg ← intMesg[r.intNo.toNat]?
    some (text "Caught fault, halting. " ++ text mesg, false)
  else
    some (text "I caught fault 0x" ++
      puthex r.intNo.toInt32 ++
      text ", resuming execution\n", true)

------------------------------------------------------------
-- Port Writes
------------------------------------------------------------

namespace Pics

/- An effect of the kernel on the controllers. -/
def perform
    (pics : Pics) : ConsoleOp → Pics
| .outb port value => pics.outb port value
| _ => pics

end Pics

/- The effect does not set up a controller. -/
def ConsoleOp.Harmless
    (op : ConsoleOp) : Prop :=
  ∀ pics : Pics, pics.perform op = pics

/- Nor does what a handler has still to do. -/
structure Frame.Harmless
    (frame : Frame) : Prop where
  call :
    ∀ op ∈ frame.call.elim [] fun call => call.2.ops,
      op.Harmless
  todo :
    ∀ port value, .outb port value ∈ frame.todo →
      (ConsoleOp.outb port value).Harmless

structure Irqs.Harmless
    (s : Irqs) : Prop where
  log : ∀ entry ∈ s.log, entry.2.Harmless
  frames : ∀ frame ∈ s.frames, frame.Harmless

theorem harmless_eoi
    {port : UInt16}
    (hPort : port = 0x20 ∨ port = 0xA0) :
    (ConsoleOp.outb port 0x20).Harmless := by
  intro pics
  rcases hPort with rfl | rfl
  · rfl
  · rfl

theorem setCursor_harmless
    {cur : Cursor}
    {op : ConsoleOp}
    (hOp : op ∈ setCursor cur) :
    op.Harmless := by
  intro pics
  simp only [setCursor, List.mem_cons, List.not_mem_nil,
    or_false] at hOp
  rcases hOp with rfl | rfl | rfl | rfl
  · rfl
  · rfl
  · rfl
  · rfl

/- A statement of `putc` sets up no controller. -/
theorem statement_harmless
    (c : UInt8)
    (cur : Cursor)
    {point : Point}
    (hOps : ∀ op ∈ point.ops, op.Harmless) :
    (∀ op ∈ (statement c cur point).2.1, op.Harmless) ∧
      ∀ op ∈ (statement c cur point).2.2.elim [] Point.ops,
        op.Harmless := by
  have hNothing : ∀ op ∈ ([] : List ConsoleOp),
      op.Harmless := by
    intro op hOp
    cases hOp
  cases point with
  | clearing rest =>
      cases rest with
      | nil => exact ⟨hNothing, hNothing⟩
      | cons op rest =>
          refine ⟨?_, fun other hOther =>
            hOps other (List.mem_cons_of_mem op hOther)⟩
          intro other hOther
          exact hOps other
            (List.mem_cons.mpr
              (Or.inl (List.mem_singleton.mp hOther)))
  | ports rest =>
      cases rest with
      | nil => exact ⟨hNothing, hNothing⟩
      | cons op rest =>
          refine ⟨?_, fun other hOther =>
            hOps other (List.mem_cons_of_mem op hOther)⟩
          intro other hOther
          exact hOps other
            (List.mem_cons.mpr
              (Or.inl (List.mem_singleton.mp hOther)))
  | resetRow =>
      refine ⟨hNothing, ?_⟩
      intro op hOp
      rcases clearScreen_mem hOp with ⟨index, value, rfl, _⟩
      exact fun _ => rfl
  | setCursor =>
      exact ⟨hNothing, fun op hOp => setCursor_harmless hOp⟩
  | store =>
      refine ⟨?_, hNothing⟩
      intro op hOp
      rw [List.mem_singleton.mp hOp]
      exact fun _ => rfl
  | testColumn =>
      refine ⟨hNothing, ?_⟩
      dsimp only [statement]
      split_ifs
      · exact hNothing
      · exact hNothing
  | testRow =>
      refine ⟨hNothing, ?_⟩
      dsimp only [statement]
      split_ifs
      · exact hNothing
      · exact hNothing
  | testBack =>
      refine ⟨hNothing, ?_⟩
      dsimp only [statement]
      split_ifs
      · exact hNothing
      · exact hNothing
  | select =>
      refine ⟨hNothing, ?_⟩
      dsimp only [statement]
      unfold Point.case
      split_ifs
      · exact hNothing
      · exact hNothing
      · exact hNothing
      · exact hNothing
      · exact hNothing
  | resetColumn | nextRow | returnColumn | newlineColumn
  | newlineRow | back | tabulate | advance =>
      exact ⟨hNothing, hNothing⟩

/- The handlers write end-of-interrupt commands only. -/
theorem irqHandler_harmless
    (line : Fin 16)
    (port : UInt16)
    (value : UInt8)
    (hMem : .outb port value ∈ irqHandler line) :
    (ConsoleOp.outb port value).Harmless := by
  have hAll :
      ∀ line : Fin 16,
        (irqHandler line).all (fun stmt =>
          match stmt with
          | .outb port value =>
              (port = 0x20 || port = 0xA0) && value = 0x20
          | _ => true) = true := by
    decide
  have hStmt :=
    List.all_eq_true.mp (hAll line) _ hMem
  simp only [Bool.and_eq_true, Bool.or_eq_true,
    decide_eq_true_eq] at hStmt
  rw [hStmt.2]
  exact harmless_eoi hStmt.1

namespace Irqs

/- No event sets up a controller. -/
theorem step_harmless
    {beyond : Nat → UInt8}
    {s t : Irqs}
    {event : IrqEvent}
    (hHarmless : s.Harmless)
    (hStep : s.step beyond event = some t) :
    t.Harmless := by
  rcases step_cases hStep with
    ⟨line, rfl, _, rfl⟩ |
      ⟨input, frame, outer, rfl, hFrames, hAdvance⟩
  · refine ⟨hHarmless.log, ?_⟩
    intro frame hFrame
    rcases List.mem_cons.mp hFrame with rfl | hFrame
    · refine ⟨?_, irqHandler_harmless line⟩
      intro op hOp
      cases hOp
    · exact hHarmless.frames frame hFrame
  have hOuter : ∀ other ∈ outer, other.Harmless := by
    intro other hOther
    apply hHarmless.frames
    rw [hFrames]
    exact List.mem_cons_of_mem frame hOther
  have hFrame : frame.Harmless := by
    apply hHarmless.frames
    rw [hFrames]
    exact List.mem_cons_self
  have hInner
      {head : Frame}
      (hHead : head.Harmless) :
      ∀ other ∈ head :: outer, other.Harmless := by
    intro other hOther
    rcases List.mem_cons.mp hOther with rfl | hOther
    · exact hHead
    · exact hOuter other hOther
  rcases hAdvance with
    ⟨c, point, hCall, rfl⟩ | ⟨hCall, hTodo, rfl⟩ |
      ⟨stmt, todo, hCall, hTodo, rfl⟩
  · have hOps : ∀ op ∈ point.ops, op.Harmless := by
      have hPending := hFrame.call
      rw [hCall] at hPending
      exact hPending
    have hStatement :=
      statement_harmless c s.cursor hOps
    refine ⟨?_, hInner ⟨?_, hFrame.todo⟩⟩
    · intro entry hEntry
      rcases List.mem_append.mp hEntry with hEntry | hEntry
      · exact hHarmless.log entry hEntry
      · rcases List.mem_map.mp hEntry with ⟨op, hOp, rfl⟩
        exact hStatement.1 op hOp
    · intro op hOp
      apply hStatement.2
      cases hNext : (statement c s.cursor point).2.2 with
      | none =>
          rw [hNext] at hOp
          cases hOp
      | some next =>
          rw [hNext] at hOp
          exact hOp
  · exact ⟨hHarmless.log, hOuter⟩
  · have hRest :
        Frame.Harmless { frame with todo := todo } := by
      refine ⟨hFrame.call, ?_⟩
      intro port value hMem
      apply hFrame.todo
      rw [hTodo]
      exact List.mem_cons_of_mem stmt hMem
    have hFirst :
        ∀ port value, stmt = .outb port value →
          (ConsoleOp.outb port value).Harmless := by
      rintro port value rfl
      apply hFrame.todo
      rw [hTodo]
      exact List.mem_cons_self
    have hCalling (c : UInt8) :
        Frame.Harmless
          { frame with
            call := some (c, .testColumn)
            todo := todo } := by
      refine ⟨?_, hRest.todo⟩
      intro op hOp
      cases hOp
    cases stmt with
    | irqEnable => exact ⟨hHarmless.log, hInner hRest⟩
    | irqDisable => exact ⟨hHarmless.log, hInner hRest⟩
    | yield => exact ⟨hHarmless.log, hInner hRest⟩
    | putc c => exact ⟨hHarmless.log, hInner (hCalling c)⟩
    | outb port value =>
        refine ⟨?_, hInner hRest⟩
        intro entry hEntry
        rcases List.mem_append.mp hEntry with
          hEntry | hEntry
        · exact hHarmless.log entry hEntry
        · rw [List.mem_singleton.mp hEntry]
          exact hFirst port value rfl
    | inb =>
        unfold perform
        split_ifs
        · refine ⟨hHarmless.log, hInner ⟨hFrame.call, ?_⟩⟩
          intro port value hMem
          rcases List.mem_cons.mp hMem with hPutc | hMem
          · cases hPutc
          · exact hRest.todo port value hMem
        · exact ⟨hHarmless.log, hInner hRest⟩

theorem run_harmless
    {beyond : Nat → UInt8}
    {s : Irqs}
    {events : List IrqEvent}
    (hRun : run (step beyond) idle events = some s) :
    s.Harmless := by
  refine reached_invariant Harmless ?_ ?_
    (reached_of_run hRun)
  · refine ⟨?_, ?_⟩
    · intro entry hEntry
      cases hEntry
    · intro frame hFrame
      cases hFrame
  · intro t event u _ hHarmless hStep
    exact step_harmless hHarmless hStep

end Irqs

/-
  However interrupts nest, every line keeps the vector that
  `remap_irq` gives it.
-/
theorem lines_keep_vectors
    {beyond : Nat → UInt8}
    {s : Irqs}
    {events : List IrqEvent}
    (pics : Pics)
    (hRun :
      run (Irqs.step beyond) Irqs.idle events = some s)
    (line : Fin 16) :
    ((s.log.map Prod.snd).foldl Pics.perform
        (pics.outbs remapIrq)).vector line =
      some (32 + UInt8.ofNat line.val) := by
  have hKept
      {ops : List ConsoleOp}
      (hOps : ∀ op ∈ ops, op.Harmless)
      (pics : Pics) :
      ops.foldl Pics.perform pics = pics := by
    induction ops with
    | nil => rfl
    | cons op ops ih =>
        rw [List.foldl_cons, hOps op List.mem_cons_self]
        exact ih fun other hOther =>
          hOps other (List.mem_cons_of_mem op hOther)
  have hLog : ∀ op ∈ s.log.map Prod.snd, op.Harmless := by
    intro op hOp
    rcases List.mem_map.mp hOp with ⟨entry, hEntry, rfl⟩
    exact (Irqs.run_harmless hRun).log entry hEntry
  rw [hKept hLog]
  exact vector_remapped pics line

/- The timer, interrupted in its handler by the slave. -/
theorem lines_keep_vectors_nested :
    let blank : Pic := ⟨.ready, false, false, 0, 0, 0, 0⟩
    ∃ s,
      run (Irqs.step fun _ => 0) Irqs.idle
          [.interrupt 0, .advance 0, .interrupt 9,
            .advance 0] = some s ∧
        ((s.log.map Prod.snd).foldl Pics.perform
          ((Pics.mk blank blank).outbs remapIrq)).vector 9 =
            some 41 := by
  intro blank
  rcases hRun :
      run (Irqs.step fun _ => 0) Irqs.idle
        [.interrupt 0, .advance 0, .interrupt 9,
          .advance 0] with _ | s
  · cases hRun
  · exact ⟨s, rfl, lines_keep_vectors _ hRun 9⟩

------------------------------------------------------------
-- Served Interrupts
------------------------------------------------------------

section Served

variable {env : Env} {m : Machine}
variable {address : Symbol → UInt32} {table : UInt32}
variable {before : Memory}

/- The stub of a line. -/
def lineStub
    (line : Fin 16) : Stub :=
  .irq (UInt8.ofNat line.val) (32 + UInt8.ofNat line.val)

theorem lineStub_mem
    (line : Fin 16) :
    lineStub line ∈ stubs := by
  have hAll :
      ∀ line : Fin 16,
        stubs.elem (lineStub line) = true := by
    decide
  exact List.mem_of_elem_eq_true (hAll line)

theorem lineStub_number
    (line : Fin 16) :
    (lineStub line).number.toUInt32.toNat = vector line := by
  revert line
  decide

/-
  The interrupt of a line, from the controllers up to the
  return from the interrupt: the handler is called with the
  number of the line, and the interrupted code goes on.
-/
theorem irq_served
    (pics : Pics)
    (line : Fin 16)
    (hAddress :
      ∀ a ∈ stubs, ∀ b ∈ stubs,
        address a.symbol = address b.symbol → a = b)
    (hTable : TableSet address table before m.stack.memory)
    (hCs : m.cs &&& 3 = 0)
    (hReturns :
      let entry := (lineStub line).entry env
        (m.take none 0x08 (address (lineStub line).symbol))
      Returns entry (env.call .irqHandler entry)) :
    let entry := (lineStub line).entry env
      (m.take none 0x08 (address (lineStub line).symbol))
    ∃ v after,
      (pics.outbs remapIrq).vector line = some v ∧
      m.serve env defaultGdt (idtReg table) address v none =
        some after ∧
      Resumed m after ∧
      after.stack.memory =
        (env.call .irqHandler entry).stack.memory ∧
      (IntRegs.read entry.stack.memory
        entry.argument).intNo.toNat = vector line := by
  intro entry
  have hStub := lineStub_mem line
  have hCode :
      (none : Option UInt32).isSome =
        (lineStub line).expectsCode := rfl
  have hReceives :=
    Stub.handler_receives env m 0x08
      (address (lineStub line).symbol) hStub hCode
  refine ⟨_, _, vector_remapped pics line,
    Machine.serve_stub hAddress hTable hStub hCs,
    (Stub.transparent_iff hReturns).mpr hCode, ?_, ?_⟩
  · rw [Stub.run_eq hCode hReturns]
    rfl
  · rw [hReceives.intNo]
    exact lineStub_number line

/- A line of the slave interrupts the processor. -/
theorem irq_served_slave :
    let blank : Pic := ⟨.ready, false, false, 0, 0, 0, 0⟩
    ∃ after,
      ((Pics.mk blank blank).outbs remapIrq).vector 9 =
          some 41 ∧
        Machine.sampleKernel.serve Stub.sampleEnv defaultGdt
            (idtReg 0x8000) Machine.sampleAddress 41 none =
          some after ∧
        Resumed Machine.sampleKernel after := by
  intro blank
  rcases irq_served (Pics.mk blank blank) 9
    Machine.sampleAddress_inj Machine.sampleKernel_table rfl
    (Stub.sampleEnv_returns _ _) with
    ⟨v, after, hVector, hServe, hResumed, -⟩
  have hSame := hVector.symm.trans (vector_remapped _ 9)
  cases hSame
  exact ⟨after, hVector, hServe, hResumed⟩

/- Each fault has its message, and comes back only from 87. -/
theorem isrHandler_stub
    {stub : Stub}
    {r : IntRegs}
    (hStub : stub ∈ stubs)
    (hHandler : stub.handler = .isrHandler)
    (hNumber : r.intNo = stub.number.toUInt32) :
    if stub.number = 87 then
      isrHandler r =
        some (text "I caught fault 0x" ++ puthex 87 ++
          text ", resuming execution\n", true)
    else
      ∃ mesg ∈ intMesg[stub.number.toNat]?,
        isrHandler r =
          some (text "Caught fault, halting. " ++ text mesg,
            false) := by
  have hAll :
      stubs.all (fun stub =>
        stub.handler = .irqHandler ∨ stub.number = 87 ∨
          stub.number < 32) = true := by
    decide
  have hRange :=
    of_decide_eq_true (List.all_eq_true.mp hAll stub hStub)
  unfold isrHandler
  rw [hNumber]
  split
  · next hUser =>
      rw [hUser]
      rfl
  · next hUser =>
      have hFault : stub.number < 32 := by
        rcases hRange with hIrq | hNumber | hFault
        · rw [hHandler] at hIrq
          cases hIrq
        · exact absurd hNumber hUser
        · exact hFault
      have hSmall : stub.number.toNat < 32 :=
        UInt8.lt_iff_toNat_lt.mp hFault
      have hLess : stub.number.toUInt32 < 32 := by
        rw [UInt32.lt_iff_toNat_lt, UInt8.toNat_toUInt32]
        exact hSmall
      have hMesg :
          intMesg[stub.number.toNat]? =
            some intMesg[stub.number.toNat] :=
        List.getElem?_eq_getElem hSmall
      refine ⟨_, hMesg, ?_⟩
      rw [if_pos hLess, UInt8.toNat_toUInt32, hMesg]
      rfl

/-
  A fault or a software interrupt, up to the text that its
  handler prints.
-/
theorem isr_served
    {stub : Stub}
    {code : Option UInt32}
    (env : Env)
    (hAddress :
      ∀ a ∈ stubs, ∀ b ∈ stubs,
        address a.symbol = address b.symbol → a = b)
    (hTable : TableSet address table before m.stack.memory)
    (hCs : m.cs &&& 3 = 0)
    (hStub : stub ∈ stubs)
    (hHandler : stub.handler = .isrHandler)
    (hCode : code.isSome = stub.expectsCode) :
    ∃ taken,
      m.interrupt defaultGdt (idtReg table) stub.number
          code = some taken ∧
      Machine.stubAt address taken.eip = some stub ∧
      let entry := stub.entry env taken
      let r := IntRegs.read entry.stack.memory entry.argument
      r.errCode = code.getD 0 ∧
        if stub.number = 87 then
          isrHandler r =
            some (text "I caught fault 0x" ++ puthex 87 ++
              text ", resuming execution\n", true)
        else
          ∃ mesg ∈ intMesg[stub.number.toNat]?,
            isrHandler r =
              some (text "Caught fault, halting. " ++
                text mesg, false) := by
  have hEip :
      (m.take code 0x08 (address stub.symbol)).eip =
        address stub.symbol := by
    cases code with
    | none => rfl
    | some error => rfl
  have hReceives :=
    Stub.handler_receives env m 0x08 (address stub.symbol)
      hStub hCode
  refine ⟨_, Machine.interrupt_stub hTable hStub hCs, ?_,
    hReceives.errCode,
    isrHandler_stub hStub hHandler hReceives.intNo⟩
  rw [hEip]
  exact Machine.stubAt_stub hAddress hStub

/- The processor finds a divisor of zero. -/
theorem isr_served_division :
    ∃ taken,
      Machine.sampleKernel.interrupt defaultGdt
          (idtReg 0x8000) 0 none = some taken ∧
        let entry :=
          (Stub.isrNoErrcode 0).entry Stub.sampleEnv taken
        isrHandler
            (IntRegs.read entry.stack.memory
              entry.argument) =
          some (text "Caught fault, halting. Division By Zero",
            false) := by
  have hStub : Stub.isrNoErrcode 0 ∈ stubs :=
    List.mem_of_elem_eq_true rfl
  have hCode :
      (none : Option UInt32).isSome =
        (Stub.isrNoErrcode 0).expectsCode := rfl
  rcases isr_served Stub.sampleEnv Machine.sampleAddress_inj
    Machine.sampleKernel_table rfl hStub rfl hCode with
    ⟨taken, hTaken, -, -, hText⟩
  refine ⟨taken, hTaken, ?_⟩
  rcases hText with ⟨mesg, hMesg, hText⟩
  cases hMesg
  exact hText

end Served

end AsaKernel
