import AsaKernel.Kernel.Statements
import Mathlib.Algebra.GroupWithZero.Nat
import Mathlib.Logic.Function.Basic

/-
  Hardware interrupts of the kernel (my-kernel-asa: idt0.s,
  idt.c and main.c).

  An interrupt is taken while interrupts are enabled.  The
  stub masks them and calls `irq_handler`, whose statements
  form a frame; a handler that enables interrupts again may be
  interrupted between any two of its statements, those of
  `putc` included.  `yield` is taken as returning.

  Each effect is logged with the line whose handler made it.

  Main declarations:
    * `HandlerStmt`, `irqHandler`
    * `Irqs`, `Irqs.step`
    * `Acknowledged`
    * `Irqs.step_ledger`
    * `acknowledged_iff`
-/

------------------------------------------------------------
-- Handlers
------------------------------------------------------------

namespace AsaKernel

open Transition

/- codesMap -/
def codesMap : List UInt8 :=
  [0, 0, 49, 50, 51, 52, 53, 54, 55, 56, 57, 48, 45, 61,
    0, 0, 113, 119, 101, 114, 116, 121, 117, 105, 111, 112,
    91, 93, 0, 0, 97, 115, 100,
    102, 103, 104, 106, 107, 108, 59, 39, 96, 0, 92, 122,
    120, 99, 118, 98, 110,
    109, 44, 46, 47, 0, 0, 0, 32]

/-
  read_keyboard_entry; `beyond` is what stands in memory after
  the table.
-/
def readKeyboardEntry
    (beyond : Nat → UInt8)
    (scancode : UInt8) : UInt8 :=
  let value := (scancode &&& 0x7F).toNat
  codesMap[value]?.getD (beyond value)

/- The statements of which the handlers are made. -/
inductive HandlerStmt where
  | irqEnable
  | irqDisable
  | outb (port : UInt16) (value : UInt8)
  | inb
  | putc (c : UInt8)
  | yield
deriving DecidableEq, Repr

/- The functions that `irq_handlers` may hold. -/
inductive Handler where
  | nullHandler
  | timerIrq
  | keyboardIrq
deriving DecidableEq, Repr

/- The text of `timer_irq`. -/
def timerText : List UInt8 :=
  [84, 105, 109, 101, 114, 33, 10]

/-
  The statements of a handler.  What `keyboard_irq` does with
  the byte that it reads is decided when it reads it.
-/
def Handler.body : Handler → List HandlerStmt
| .nullHandler => []
| .timerIrq =>
    [.irqEnable, .outb 0x20 0x20] ++
      timerText.map .putc ++ [.yield, .irqDisable]
| .keyboardIrq => [.inb]

/- idt_setup_handler -/
def idtSetupHandler
    (irq : Fin 16)
    (handler : Handler)
    (table : Fin 16 → Handler) : Fin 16 → Handler :=
  Function.update table irq handler

/- irq_handlers after `setup_irq` and `main`. -/
def irqHandlers : Fin 16 → Handler :=
  idtSetupHandler 1 .keyboardIrq
    (idtSetupHandler 0 .timerIrq fun _ => .nullHandler)

/- The vector of a line, after `remap_irq`. -/
def vector
    (line : Fin 16) : Nat :=
  32 + line.val

/- irq_handler -/
def irqHandler
    (line : Fin 16) : List HandlerStmt :=
  (irqHandlers line).body ++
    (if 40 ≤ vector line then [.outb 0xA0 0x20] else []) ++
    [.outb 0x20 0x20]

------------------------------------------------------------
-- Nested Interrupts
------------------------------------------------------------

/-
  An interrupt in service: the statements that remain, and the
  call of `putc` that is under way.
-/
structure Frame where
  line : Fin 16
  call : Option (UInt8 × Point)
  todo : List HandlerStmt
deriving DecidableEq, Repr

/-
  The cursor, the interrupt flag, the interrupts in service,
  the innermost first, the effects so far, and the lines of
  the interrupts that have returned.
-/
structure Irqs where
  cursor : Cursor
  enabled : Bool
  frames : List Frame
  log : List (Fin 16 × ConsoleOp)
  completed : List (Fin 16)
deriving DecidableEq, Repr

/-
  A line interrupts the processor, or the innermost handler
  performs a statement; a port it reads returns `input`.
-/
inductive IrqEvent where
  | interrupt (line : Fin 16)
  | advance (input : UInt8)
deriving DecidableEq, Repr

namespace Irqs

def idle : Irqs where
  cursor := .home
  enabled := true
  frames := []
  log := []
  completed := []

/- A statement of a handler that is not inside `putc`. -/
def perform
    (beyond : Nat → UInt8)
    (s : Irqs)
    (frame : Frame)
    (outer : List Frame)
    (input : UInt8) :
    HandlerStmt → Irqs
| .irqEnable =>
    { s with enabled := true, frames := frame :: outer }
| .irqDisable =>
    { s with enabled := false, frames := frame :: outer }
| .outb port value =>
    { s with
      frames := frame :: outer
      log := s.log ++ [(frame.line, .outb port value)] }
| .inb =>
    if input &&& 0x80 = 0 then
      { s with
        frames :=
          { frame with
            todo :=
              .putc (readKeyboardEntry beyond input) ::
                frame.todo } :: outer }
    else { s with frames := frame :: outer }
| .putc c =>
    { s with
      frames :=
        { frame with call := some (c, .testColumn) } ::
          outer }
| .yield => { s with frames := frame :: outer }

/-
  The return from an interrupt restores the flag, which was
  set when the interrupt was taken.
-/
def step
    (beyond : Nat → UInt8)
    (s : Irqs) : IrqEvent → Option Irqs
| .interrupt line =>
    if s.enabled then
      some
        { s with
          enabled := false
          frames :=
            { line := line
              call := none
              todo := irqHandler line } :: s.frames }
    else none
| .advance input =>
    match s.frames with
    | [] => none
    | frame :: outer =>
        match frame.call with
        | some (c, point) =>
            let done := statement c s.cursor point
            some
              { s with
                cursor := done.1
                frames :=
                  { frame with
                    call := done.2.2.map (Prod.mk c) } ::
                    outer
                log :=
                  s.log ++ done.2.1.map (Prod.mk frame.line) }
        | none =>
            match frame.todo with
            | [] =>
                some
                  { s with
                    enabled := true
                    frames := outer
                    completed := s.completed ++ [frame.line] }
            | stmt :: todo =>
                some
                  (s.perform beyond
                    { frame with todo := todo } outer input
                    stmt)

/- What a step can be. -/
theorem step_cases
    {beyond : Nat → UInt8}
    {s t : Irqs}
    {event : IrqEvent}
    (hStep : s.step beyond event = some t) :
    (∃ line,
      event = .interrupt line ∧ s.enabled ∧
      t =
        { s with
          enabled := false
          frames :=
            { line := line
              call := none
              todo := irqHandler line } :: s.frames }) ∨
    ∃ input frame outer,
      event = .advance input ∧ s.frames = frame :: outer ∧
      ((∃ c point,
        frame.call = some (c, point) ∧
        t =
          { s with
            cursor := (statement c s.cursor point).1
            frames :=
              { frame with
                call :=
                  (statement c s.cursor point).2.2.map
                    (Prod.mk c) } :: outer
            log :=
              s.log ++
                (statement c s.cursor point).2.1.map
                  (Prod.mk frame.line) }) ∨
      (frame.call = none ∧ frame.todo = [] ∧
        t =
          { s with
            enabled := true
            frames := outer
            completed := s.completed ++ [frame.line] }) ∨
      ∃ stmt todo,
        frame.call = none ∧ frame.todo = stmt :: todo ∧
        t =
          s.perform beyond { frame with todo := todo } outer
            input stmt) := by
  cases event with
  | interrupt line =>
      unfold step at hStep
      rw [Option.ite_none_right_eq_some] at hStep
      rcases hStep with ⟨hEnabled, hResult⟩
      cases hResult
      exact Or.inl ⟨line, rfl, hEnabled, rfl⟩
  | advance input =>
      unfold step at hStep
      cases hFrames : s.frames with
      | nil =>
          rw [hFrames] at hStep
          cases hStep
      | cons frame outer =>
          rw [hFrames] at hStep
          refine Or.inr
            ⟨input, frame, outer, rfl, rfl, ?_⟩
          rcases frame with ⟨line, call, todo⟩
          cases call with
          | some call =>
              cases hStep
              exact Or.inl ⟨_, _, rfl, rfl⟩
          | none =>
              cases todo with
              | nil =>
                  cases hStep
                  exact Or.inr (Or.inl ⟨rfl, rfl, rfl⟩)
              | cons stmt todo =>
                  cases hStep
                  exact Or.inr
                    (Or.inr ⟨stmt, todo, rfl, rfl, rfl⟩)

end Irqs

------------------------------------------------------------
-- Acknowledgements
------------------------------------------------------------

/- The effect is an end-of-interrupt write to a port. -/
def IsAck
    (port : UInt16)
    (op : ConsoleOp) : Bool :=
  op = .outb port 0x20

/-
  The end-of-interrupt writes to a port that the handlers of
  the selected lines have made.
-/
def Irqs.acks
    (s : Irqs)
    (port : UInt16)
    (select : Fin 16 → Bool) : Nat :=
  s.log.countP fun entry =>
    select entry.1 && IsAck port entry.2

/-
  Every completed interrupt was acknowledged once, by its own
  handler: at the master, and at the slave for the vectors
  from 40 on.
-/
structure Acknowledged
    (s : Irqs) : Prop where
  master :
    s.acks 0x20 (fun _ => true) = s.completed.length
  slave :
    s.acks 0xA0 (fun _ => true) =
      s.completed.countP fun line => 40 ≤ vector line
  own :
    ∀ line,
      s.acks 0x20 (fun other => other = line) =
        s.completed.count line

------------------------------------------------------------
-- Ledger of Acknowledgements
------------------------------------------------------------

/- The effects that a loop of `putc` has still to make. -/
def Point.ops : Point → List ConsoleOp
| .clearing rest => rest
| .ports rest => rest
| _ => []

/- The acknowledgements that a handler has still to make. -/
def Frame.owed
    (port : UInt16)
    (frame : Frame) : Nat :=
  (frame.call.elim [] fun call => call.2.ops).countP
      (IsAck port) +
    frame.todo.countP fun stmt => stmt = .outb port 0x20

/- The acknowledgements that a line's handler makes. -/
def due
    (port : UInt16)
    (line : Fin 16) : Nat :=
  (irqHandler line).countP fun stmt =>
    stmt = .outb port 0x20

/- The timer acknowledges the master twice. -/
theorem due_master
    (line : Fin 16) :
    due 0x20 line = if line = 0 then 2 else 1 := by
  decide +revert

theorem due_slave
    (line : Fin 16) :
    due 0xA0 line = if 40 ≤ vector line then 1 else 0 := by
  decide +revert

/- The acknowledgements of the selected lines, if any. -/
def selected
    (select : Fin 16 → Bool)
    (amount : Fin 16 → Nat)
    (line : Fin 16) : Nat :=
  if select line then amount line else 0

/-
  The acknowledgements made and owed are those due for the
  interrupts completed and in service.
-/
def AckLedger
    (port : UInt16)
    (select : Fin 16 → Bool)
    (s : Irqs) : Prop :=
  s.acks port select +
      (s.frames.map fun frame =>
        selected select (fun _ => frame.owed port)
          frame.line).sum =
    (s.completed.map (selected select (due port))).sum +
      (s.frames.map fun frame =>
        selected select (due port) frame.line).sum

section AckLedger

variable {port : UInt16}
variable {select : Fin 16 → Bool}

theorem clearScreen_acks :
    clearScreen.countP (IsAck port) = 0 := by
  rw [List.countP_eq_zero]
  intro op hOp
  rcases clearScreen_mem hOp with ⟨index, value, rfl, _⟩
  simp [IsAck]

theorem setCursor_acks
    (hPort : port ≠ 0x3D4 ∧ port ≠ 0x3D5)
    (cur : Cursor) :
    (setCursor cur).countP (IsAck port) = 0 := by
  simp [setCursor, IsAck, hPort.1.symm, hPort.2.symm]

/- `putc` makes no acknowledgement of its own. -/
theorem statement_acks
    (hPort : port ≠ 0x3D4 ∧ port ≠ 0x3D5)
    (c : UInt8)
    (cur : Cursor)
    (point : Point) :
    (statement c cur point).2.1.countP (IsAck port) +
        ((statement c cur point).2.2.elim []
          Point.ops).countP (IsAck port) =
      point.ops.countP (IsAck port) := by
  cases point with
  | clearing rest =>
      cases rest with
      | nil => rfl
      | cons op rest =>
          simp [statement, Point.ops, List.countP_cons,
            Nat.add_comm]
  | ports rest =>
      cases rest with
      | nil => rfl
      | cons op rest =>
          simp [statement, Point.ops, List.countP_cons,
            Nat.add_comm]
  | resetRow =>
      simp [statement, Point.ops, clearScreen_acks]
  | setCursor =>
      simp [statement, Point.ops, setCursor_acks hPort]
  | store => simp [statement, Point.ops, IsAck]
  | testColumn =>
      dsimp only [statement]
      split_ifs <;> rfl
  | testRow =>
      dsimp only [statement]
      split_ifs <;> rfl
  | testBack =>
      dsimp only [statement]
      split_ifs <;> rfl
  | select =>
      dsimp only [statement]
      unfold Point.case
      split_ifs <;> rfl
  | _ => rfl

theorem acks_append
    (s : Irqs)
    (line : Fin 16)
    (ops : List ConsoleOp) :
    (s.log ++ ops.map (Prod.mk line)).countP
        (fun entry =>
          select entry.1 && IsAck port entry.2) =
      s.acks port select +
        selected select (fun _ => ops.countP (IsAck port))
          line := by
  unfold Irqs.acks selected
  rw [List.countP_append, List.countP_map]
  cases hSelect : select line with
  | false => simp [Function.comp_def, hSelect]
  | true => simp [Function.comp_def, hSelect]

theorem selected_add
    (line : Fin 16)
    (m n : Nat) :
    selected select (fun _ => m + n) line =
      selected select (fun _ => m) line +
        selected select (fun _ => n) line := by
  unfold selected
  split_ifs <;> rfl

/-
  The innermost handler makes some acknowledgements, and owes
  that many less.
-/
theorem AckLedger.advance
    {s t : Irqs}
    {frame frame' : Frame}
    {outer : List Frame}
    {made : Nat}
    (hLedger : AckLedger port select s)
    (hFrames : s.frames = frame :: outer)
    (hNext : t.frames = frame' :: outer)
    (hLine : frame'.line = frame.line)
    (hCompleted : t.completed = s.completed)
    (hActs :
      t.acks port select =
        s.acks port select +
          selected select (fun _ => made) frame.line)
    (hOwed : made + frame'.owed port = frame.owed port) :
    AckLedger port select t := by
  unfold AckLedger at hLedger ⊢
  rw [hFrames] at hLedger
  rw [hNext, hCompleted, hActs]
  simp only [List.map_cons, List.sum_cons, hLine,
    ← hOwed, selected_add] at hLedger ⊢
  omega

/- A statement of a handler keeps the ledger. -/
theorem Irqs.perform_ledger
    {beyond : Nat → UInt8}
    {s : Irqs}
    {frame : Frame}
    {outer : List Frame}
    {input : UInt8}
    {stmt : HandlerStmt}
    {todo : List HandlerStmt}
    (hFrames : s.frames = frame :: outer)
    (hTodo : frame.todo = stmt :: todo)
    (hCall : frame.call = none)
    (hLedger : AckLedger port select s) :
    AckLedger port select
      (s.perform beyond { frame with todo := todo } outer
        input stmt) := by
  have hSilent :
      s.acks port select =
        s.acks port select +
          selected select (fun _ => 0) frame.line := by
    simp [selected]
  cases stmt with
  | irqEnable =>
      refine hLedger.advance hFrames rfl rfl rfl hSilent ?_
      simp [Frame.owed, hTodo, hCall]
  | irqDisable =>
      refine hLedger.advance hFrames rfl rfl rfl hSilent ?_
      simp [Frame.owed, hTodo, hCall]
  | outb target value =>
      refine hLedger.advance hFrames rfl rfl rfl
        (acks_append s frame.line [.outb target value]) ?_
      simp [Frame.owed, hTodo, hCall, IsAck,
        List.countP_cons, Nat.add_comm]
  | inb =>
      unfold Irqs.perform
      split_ifs with hPressed
      · refine hLedger.advance hFrames rfl rfl rfl hSilent ?_
        simp [Frame.owed, hTodo, hCall]
      · refine hLedger.advance hFrames rfl rfl rfl hSilent ?_
        simp [Frame.owed, hTodo, hCall]
  | putc c =>
      refine hLedger.advance hFrames rfl rfl rfl hSilent ?_
      simp [Frame.owed, hTodo, hCall, Point.ops]
  | yield =>
      refine hLedger.advance hFrames rfl rfl rfl hSilent ?_
      simp [Frame.owed, hTodo, hCall]

/- Every event keeps the ledger. -/
theorem Irqs.step_ledger
    {beyond : Nat → UInt8}
    {s t : Irqs}
    {event : IrqEvent}
    (hPort : port ≠ 0x3D4 ∧ port ≠ 0x3D5)
    (hLedger : AckLedger port select s)
    (hStep : s.step beyond event = some t) :
    AckLedger port select t := by
  rcases step_cases hStep with
    ⟨line, rfl, _, rfl⟩ |
      ⟨input, frame, outer, rfl, hFrames, hAdvance⟩
  · have hOwed :
        Frame.owed port
            { line := line
              call := none
              todo := irqHandler line } =
          due port line := by
      simp [Frame.owed, due]
    unfold AckLedger Irqs.acks at hLedger ⊢
    simp only [selected] at hLedger ⊢
    simp only [List.map_cons, List.sum_cons, hOwed]
    omega
  rcases hAdvance with
    ⟨c, point, hCall, rfl⟩ | ⟨hCall, hTodo, rfl⟩ |
      ⟨stmt, todo, hCall, hTodo, rfl⟩
  · refine hLedger.advance hFrames rfl rfl rfl
      (acks_append s frame.line _) ?_
    have hActs := statement_acks hPort c s.cursor point
    unfold Frame.owed
    rw [hCall]
    cases hNext : (statement c s.cursor point).2.2 with
    | none =>
        simp only [hNext] at hActs ⊢
        simp at hActs ⊢
        omega
    | some next =>
        simp only [hNext] at hActs ⊢
        simp at hActs ⊢
        omega
  · unfold AckLedger Irqs.acks at hLedger ⊢
    rw [hFrames] at hLedger
    have hOwed : frame.owed port = 0 := by
      simp [Frame.owed, hCall, hTodo]
    simp only [List.map_cons, List.sum_cons, hOwed]
      at hLedger
    simp only [List.map_append, List.sum_append,
      List.map_cons, List.map_nil, List.sum_cons,
      List.sum_nil]
    simp only [selected] at hLedger ⊢
    simp at hLedger ⊢
    omega
  · exact perform_ledger hFrames hTodo hCall hLedger

end AckLedger

------------------------------------------------------------
-- Runs
------------------------------------------------------------

/- An interrupt of the line was taken. -/
def Irqs.Taken
    (s : Irqs)
    (line : Fin 16) : Prop :=
  line ∈ s.completed ∨ line ∈ s.frames.map Frame.line

theorem Irqs.step_taken
    {beyond : Nat → UInt8}
    {s t : Irqs}
    {event : IrqEvent}
    (hStep : s.step beyond event = some t)
    (line : Fin 16) :
    t.Taken line ↔ s.Taken line ∨ event = .interrupt line := by
  rcases step_cases hStep with
    ⟨other, rfl, _, rfl⟩ |
      ⟨input, frame, outer, rfl, hFrames, hAdvance⟩
  · simp only [Taken, List.map_cons, List.mem_cons,
      IrqEvent.interrupt.injEq, eq_comm (a := other)]
    tauto
  rcases hAdvance with
    ⟨c, point, _, rfl⟩ | ⟨_, _, rfl⟩ |
      ⟨stmt, todo, _, _, rfl⟩
  · simp [Taken, hFrames]
  · simp only [Taken, hFrames, List.mem_append,
      List.map_cons, List.mem_cons, List.not_mem_nil,
      or_false, reduceCtorEq]
    tauto
  · cases stmt with
    | inb =>
        unfold perform
        split_ifs <;> simp [Taken, hFrames]
    | _ => simp [perform, Taken, hFrames]

theorem Irqs.run_taken
    {beyond : Nat → UInt8}
    {s t : Irqs}
    {events : List IrqEvent}
    (hRun : run (step beyond) s events = some t)
    (line : Fin 16) :
    t.Taken line ↔ s.Taken line ∨ .interrupt line ∈ events := by
  induction events generalizing s with
  | nil =>
      cases hRun
      simp
  | cons event events ih =>
      rw [run_cons, Option.bind_eq_some_iff] at hRun
      rcases hRun with ⟨u, hStep, hRest⟩
      rw [ih hRest, step_taken hStep line, List.mem_cons,
        eq_comm (a := event)]
      tauto

theorem Irqs.run_ledger
    {beyond : Nat → UInt8}
    {s : Irqs}
    {events : List IrqEvent}
    {port : UInt16}
    {select : Fin 16 → Bool}
    (hPort : port ≠ 0x3D4 ∧ port ≠ 0x3D5)
    (hRun : run (step beyond) idle events = some s) :
    AckLedger port select s := by
  refine reached_invariant (AckLedger port select) ?_ ?_
    (reached_of_run hRun)
  · rfl
  · intro t event u _ hLedger hStep
    exact step_ledger hPort hLedger hStep

/- When no interrupt is in service, all that is due is made. -/
theorem Irqs.acks_eq_due
    {beyond : Nat → UInt8}
    {s : Irqs}
    {events : List IrqEvent}
    (hRun : run (step beyond) idle events = some s)
    (hDone : s.frames = [])
    (port : UInt16)
    (hPort : port ≠ 0x3D4 ∧ port ≠ 0x3D5)
    (select : Fin 16 → Bool) :
    s.acks port select =
      (s.completed.map (selected select (due port))).sum := by
  have hLedger : AckLedger port select s :=
    run_ledger hPort hRun
  unfold AckLedger at hLedger
  rw [hDone] at hLedger
  simpa using hLedger

/- The sum of an amount that is the same where it counts. -/
theorem sum_selected
    {select : Fin 16 → Bool}
    {amount : Fin 16 → Nat}
    {lines : List (Fin 16)}
    (each : Nat)
    (count : Fin 16 → Bool)
    (hAmount :
      ∀ line ∈ lines,
        selected select amount line =
          if count line then each else 0) :
    (lines.map (selected select amount)).sum =
      each * lines.countP count := by
  induction lines with
  | nil => rfl
  | cons line lines ih =>
      rw [List.map_cons, List.sum_cons, List.countP_cons,
        hAmount line List.mem_cons_self,
        ih fun other hOther =>
          hAmount other (List.mem_cons_of_mem _ hOther)]
      split_ifs
      · rw [Nat.mul_add, Nat.mul_one, Nat.add_comm]
      · rw [Nat.add_zero, Nat.zero_add]

/-
  When every interrupt of a run has returned, each was
  acknowledged exactly once if and only if no timer interrupt
  was taken.
-/
theorem acknowledged_iff
    (beyond : Nat → UInt8)
    (events : List IrqEvent)
    (s : Irqs)
    (hRun : run (Irqs.step beyond) .idle events = some s)
    (hDone : s.frames = []) :
    Acknowledged s ↔
      ∀ event ∈ events, event ≠ .interrupt 0 := by
  have hMaster :=
    Irqs.acks_eq_due hRun hDone 0x20 (by decide)
  have hSlave :=
    Irqs.acks_eq_due hRun hDone 0xA0 (by decide)
  have hTimer :
      0 ∈ s.completed ↔ .interrupt 0 ∈ events := by
    have hTaken := Irqs.run_taken hRun 0
    simpa [Irqs.Taken, hDone, Irqs.idle] using hTaken
  constructor
  · intro hAck event hEvent hSame
    rw [hSame, ← hTimer] at hEvent
    have hTwice :
        s.acks 0x20 (fun other => other = 0) =
          2 * s.completed.countP fun other => other = 0 := by
      rw [hMaster]
      apply sum_selected
      intro line _
      unfold selected
      rw [due_master]
      split_ifs <;> simp_all
    have hOnce := hAck.own 0
    have hPositive : 0 < s.completed.count 0 :=
      List.count_pos_iff.mpr hEvent
    have hCount :
        (s.completed.countP fun other => other = 0) =
          s.completed.count 0 := rfl
    omega
  · intro hNoTimer
    have hOthers : ∀ line ∈ s.completed, line ≠ 0 := by
      rintro line hLine rfl
      exact hNoTimer _ (hTimer.mp hLine) rfl
    have hOnce (select : Fin 16 → Bool) :
        s.acks 0x20 select = s.completed.countP select := by
      rw [hMaster, sum_selected 1 select, Nat.one_mul]
      intro line hLine
      unfold selected
      rw [due_master, if_neg (hOthers line hLine)]
    constructor
    · rw [hOnce, List.countP_true]
    · rw [hSlave, sum_selected 1 fun line => 40 ≤ vector line,
        Nat.one_mul]
      intro line _
      unfold selected
      rw [due_slave]
      simp
    · intro line
      rw [hOnce]
      rfl

/-
  A key is pressed, a line of the slave and one of the master
  interrupt, and the key is released.
-/
def fourInterrupts : List IrqEvent :=
  .interrupt 1 :: List.replicate 15 (.advance 0x1e) ++
    .interrupt 9 :: List.replicate 3 (.advance 0) ++
    .interrupt 4 :: List.replicate 2 (.advance 0) ++
    .interrupt 1 :: List.replicate 3 (.advance 0x9e)

/- Four interrupts return, and the slave is told of one. -/
theorem acknowledged_iff_lines :
    ∃ s ∈ run (Irqs.step fun _ => 0) .idle fourInterrupts,
      s.completed = [1, 9, 4, 1] ∧
      s.acks 0x20 (fun _ => true) = 4 ∧
      s.acks 0xA0 (fun _ => true) = 1 ∧
      Acknowledged s := by
  have hState :
      ∃ s ∈ run (Irqs.step fun _ => 0) .idle fourInterrupts,
        s.frames = [] ∧ s.completed = [1, 9, 4, 1] ∧
        s.acks 0x20 (fun _ => true) = 4 ∧
        s.acks 0xA0 (fun _ => true) = 1 := by
    decide +kernel
  rcases hState with
    ⟨s, hRun, hDone, hCompleted, hMaster, hSlave⟩
  refine ⟨s, hRun, hCompleted, hMaster, hSlave, ?_⟩
  apply (acknowledged_iff _ fourInterrupts s hRun hDone).mpr
  decide

/- One timer interrupt: two writes, one interrupt completed. -/
theorem timer_acknowledged_twice :
    ¬ ∀ beyond events s,
      run (Irqs.step beyond) .idle events = some s →
      s.frames = [] →
      Acknowledged s := by
  intro hAll
  have hTimer :
      ((run (Irqs.step fun _ => 0) .idle
          (.interrupt 0 ::
            List.replicate 90 (.advance 0))).map fun s =>
        (s.frames, s.acks 0x20 fun _ => true,
          s.completed)) = some ([], 2, [0]) := by
    decide +kernel
  rw [Option.map_eq_some_iff] at hTimer
  rcases hTimer with ⟨s, hRun, hResult⟩
  rw [Prod.mk.injEq, Prod.mk.injEq] at hResult
  rcases hResult with ⟨hDone, hWrites, hCompleted⟩
  have hMaster := (hAll _ _ s hRun hDone).master
  rw [hWrites, hCompleted] at hMaster
  cases hMaster

end AsaKernel
