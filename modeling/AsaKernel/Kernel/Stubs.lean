import AsaKernel.Foundations.WordStack

/-
  The stubs of the interrupts (my-kernel-asa: idt0.s, idt.h).

  A stub pushes the number of its interrupt, and zero where
  the processor pushes no error code.  It then saves the
  registers, calls a handler of C with a pointer to what is on
  the stack, and restores what it saved.

  The functions of C are a parameter, as are the flags that an
  addition sets: the stubs do not depend on them.

  Main declarations:
    * `Machine`, `Instr`, `Instr.exec`
    * `Stub`, `stubs`, `Stub.run`
    * `IntRegs`, `Returns`
    * `Stub.transparent_iff`
-/

------------------------------------------------------------
-- The Processor
------------------------------------------------------------

namespace AsaKernel

open WordStack

/-
  The registers of the processor; `esp` and the memory are the
  stack.
-/
@[ext]
structure Machine where
  eax : UInt32
  ecx : UInt32
  edx : UInt32
  ebx : UInt32
  ebp : UInt32
  esi : UInt32
  edi : UInt32
  stack : Stack
  cs : UInt16
  ds : UInt16
  es : UInt16
  fs : UInt16
  gs : UInt16
  ss : UInt16
  eip : UInt32
  eflags : UInt32

/- The handlers of idt.c that the stubs call. -/
inductive CFunction where
  | isrHandler
  | irqHandler
deriving DecidableEq, Repr

/- The segment registers that the stubs load. -/
inductive DataSegment where
  | ds | es | fs | gs
deriving DecidableEq, Repr

/- The halves of registers that the stubs use. -/
inductive HalfRegister where
  | ax | si
deriving DecidableEq, Repr

/- The instructions of the stubs. -/
inductive Instr where
  | cli
  | pushByte (value : UInt8)
  | pusha
  | pushEsp
  | pushEax
  | movSiDs
  | movAx (value : UInt16)
  | movSegment (segment : DataSegment) (source : HalfRegister)
  | movEaxEsp
  | call (handler : CFunction)
  | popEax
  | addEsp (n : UInt32)
  | popa
  | iret
deriving DecidableEq, Repr

/-
  What is not in the stubs: the flags after an addition to a
  word, the address after the call of a function, and what the
  function does until it has returned.
-/
structure Env where
  addFlags : UInt32 → UInt32 → UInt32 → UInt32
  returnAddress : CFunction → UInt32
  call : CFunction → Machine → Machine

/- Replace the low half of a word. -/
def setLow
    (word : UInt32)
    (low : UInt16) : UInt32 :=
  (word &&& 0xFFFF0000) ||| low.toUInt32

/- A byte as a word, with its sign. -/
def signExtend
    (value : UInt8) : UInt32 :=
  value.toInt8.toInt32.toUInt32

namespace Machine

def push
    (m : Machine)
    (word : UInt32) : Machine :=
  { m with stack := m.stack.push word }

def half
    (m : Machine) : HalfRegister → UInt16
| .ax => m.eax.toUInt16
| .si => m.esi.toUInt16

def setSegment
    (m : Machine)
    (value : UInt16) : DataSegment → Machine
| .ds => { m with ds := value }
| .es => { m with es := value }
| .fs => { m with fs := value }
| .gs => { m with gs := value }

/- pusha; the value of `esp` is the one before. -/
def pusha
    (m : Machine) : Machine :=
  let esp := m.stack.top
  (((((((m.push m.eax).push m.ecx).push m.edx).push
    m.ebx).push esp).push m.ebp).push m.esi).push m.edi

/- popa; the word of `esp` is skipped. -/
def popa
    (m : Machine) : Machine :=
  let (edi, s) := m.stack.pop
  let (esi, s) := s.pop
  let (ebp, s) := s.pop
  let (_, s) := s.pop
  let (ebx, s) := s.pop
  let (edx, s) := s.pop
  let (ecx, s) := s.pop
  let (eax, s) := s.pop
  { m with
    edi := edi
    esi := esi
    ebp := ebp
    ebx := ebx
    edx := edx
    ecx := ecx
    eax := eax
    stack := s }

/- iret, to the privilege of the handler. -/
def iret
    (m : Machine) : Machine :=
  let (eip, s) := m.stack.pop
  let (cs, s) := s.pop
  let (eflags, s) := s.pop
  { m with
    eip := eip
    cs := cs.toUInt16
    eflags := eflags
    stack := s }

/-
  The processor takes an interrupt through an interrupt gate
  of its own privilege: it saves the flags and where it is,
  pushes the error code of the exception if there is one, and
  clears IF, TF, NT, RF and VM.
-/
def take
    (m : Machine)
    (code : Option UInt32)
    (cs : UInt16)
    (offset : UInt32) : Machine :=
  let saved :=
    ((m.push m.eflags).push m.cs.toUInt32).push m.eip
  { code.elim saved saved.push with
    cs := cs
    eip := offset
    eflags := m.eflags &&& ~~~0x34300 }

end Machine

namespace Instr

variable (env : Env)

/- One instruction; `eip` is followed at the gates only. -/
def exec
    (m : Machine) : Instr → Machine
| .cli => { m with eflags := m.eflags &&& ~~~0x200 }
| .pushByte value => m.push (signExtend value)
| .pusha => m.pusha
| .pushEsp => m.push m.stack.top
| .pushEax => m.push m.eax
| .movSiDs => { m with esi := setLow m.esi m.ds }
| .movAx value => { m with eax := setLow m.eax value }
| .movSegment segment source =>
    m.setSegment (m.half source) segment
| .movEaxEsp => { m with eax := m.stack.top }
| .call handler =>
    env.call handler (m.push (env.returnAddress handler))
| .popEax =>
    { m with eax := m.stack.pop.1, stack := m.stack.pop.2 }
| .addEsp n =>
    { m with
      stack := { m.stack with top := m.stack.top + n }
      eflags := env.addFlags m.eflags m.stack.top n }
| .popa => m.popa
| .iret => m.iret

def run
    (code : List Instr)
    (m : Machine) : Machine :=
  code.foldl (exec env) m

end Instr

------------------------------------------------------------
-- The Stubs
------------------------------------------------------------

/- DEFINE_HANDLER -/
def defineHandler
    (handler : CFunction) : List Instr :=
  [.pusha,
    .pushEsp,
    .movSiDs,
    .movAx 0x10,
    .movSegment .ds .ax,
    .movSegment .es .ax,
    .movSegment .fs .ax,
    .movSegment .gs .ax,
    .movEaxEsp,
    .pushEax,
    .call handler,
    .popEax,
    .addEsp 4,
    .movSegment .ds .si,
    .movSegment .es .si,
    .movSegment .fs .si,
    .movSegment .gs .si,
    .popa,
    .addEsp 8,
    .iret]

/- The stubs, by the macros that define them. -/
inductive Stub where
  | isrNoErrcode (number : UInt8)
  | isrErrcode (number : UInt8)
  | irq (line : UInt8) (number : UInt8)
deriving DecidableEq, Repr

/- The stubs of idt0.s. -/
def stubs : List Stub :=
  [.isrNoErrcode 0, .isrNoErrcode 1, .isrNoErrcode 2,
    .isrNoErrcode 3, .isrNoErrcode 4, .isrNoErrcode 5,
    .isrNoErrcode 6, .isrNoErrcode 7, .isrErrcode 8,
    .isrNoErrcode 9, .isrErrcode 10, .isrErrcode 11,
    .isrErrcode 12, .isrErrcode 13, .isrErrcode 14,
    .isrNoErrcode 15, .isrNoErrcode 16, .isrNoErrcode 17,
    .isrNoErrcode 18, .isrNoErrcode 19, .isrNoErrcode 20,
    .isrNoErrcode 21, .isrNoErrcode 22, .isrNoErrcode 23,
    .isrNoErrcode 24, .isrNoErrcode 25, .isrNoErrcode 26,
    .isrNoErrcode 27, .isrNoErrcode 28, .isrNoErrcode 29,
    .isrNoErrcode 30, .isrNoErrcode 31,
    .irq 0 32, .irq 1 33, .irq 2 34, .irq 3 35,
    .irq 4 36, .irq 5 37, .irq 6 38, .irq 7 39,
    .irq 8 40, .irq 9 41, .irq 10 42, .irq 11 43,
    .irq 12 44, .irq 13 45, .irq 14 46, .irq 15 47,
    .isrNoErrcode 87]

namespace Stub

/- The number that the stub pushes. -/
def number : Stub → UInt8
| .isrNoErrcode number => number
| .isrErrcode number => number
| .irq _ number => number

/- The handler that the stub calls. -/
def handler : Stub → CFunction
| .isrNoErrcode _ => .isrHandler
| .isrErrcode _ => .isrHandler
| .irq _ _ => .irqHandler

/- The stub leaves the error code to the processor. -/
def expectsCode : Stub → Bool
| .isrNoErrcode _ => false
| .isrErrcode _ => true
| .irq _ _ => false

/- The instructions up to the jump to `process_isr`. -/
def prologue : Stub → List Instr
| .isrNoErrcode number =>
    [.cli, .pushByte 0, .pushByte number]
| .isrErrcode number => [.cli, .pushByte number]
| .irq _ number => [.cli, .pushByte 0, .pushByte number]

/- The stub, up to its return from the interrupt. -/
def run
    (env : Env)
    (stub : Stub)
    (m : Machine) : Machine :=
  Instr.run env (stub.prologue ++ defineHandler stub.handler)
    m

end Stub

------------------------------------------------------------
-- What a Handler Receives
------------------------------------------------------------

/- struct int_regs -/
structure IntRegs where
  ds : UInt32
  edi : UInt32
  esi : UInt32
  ebp : UInt32
  esp : UInt32
  ebx : UInt32
  edx : UInt32
  ecx : UInt32
  eax : UInt32
  intNo : UInt32
  errCode : UInt32
  eip : UInt32
  cs : UInt32
  eflags : UInt32
  useresp : UInt32
  ss : UInt32
deriving DecidableEq, Repr

/- The structure that a pointer points to. -/
def IntRegs.read
    (memory : Memory)
    (r : UInt32) : IntRegs :=
  let field (i : Nat) := load memory (r + UInt32.ofNat (4 * i))
  ⟨field 0, field 1, field 2, field 3, field 4, field 5,
    field 6, field 7, field 8, field 9, field 10, field 11,
    field 12, field 13, field 14, field 15⟩

/- The argument `r` of a function that is entered. -/
def Machine.argument
    (m : Machine) : UInt32 :=
  load m.stack.memory (m.stack.top + 4)

/-
  What the stubs need of a function of C: it returns, it keeps
  `esi` and the stack segment, and it does not write to the
  constant structure that it is given, up to its `eflags`.
-/
structure Returns
    (before after : Machine) : Prop where
  top : after.stack.top = before.stack.top + 4
  esi : after.esi = before.esi
  ss : after.ss = before.ss
  frame :
    ∀ i < 56,
      after.stack.memory (before.argument + UInt32.ofNat i) =
        before.stack.memory
          (before.argument + UInt32.ofNat i)

/-
  The interrupted code goes on: nothing has changed but three
  segment registers, which are those of `ds`.
-/
structure Resumed
    (m after : Machine) : Prop where
  eax : after.eax = m.eax
  ecx : after.ecx = m.ecx
  edx : after.edx = m.edx
  ebx : after.ebx = m.ebx
  ebp : after.ebp = m.ebp
  esi : after.esi = m.esi
  edi : after.edi = m.edi
  esp : after.stack.top = m.stack.top
  eip : after.eip = m.eip
  eflags : after.eflags = m.eflags
  cs : after.cs = m.cs
  ss : after.ss = m.ss
  ds : after.ds = m.ds
  es : after.es = m.ds
  fs : after.fs = m.ds
  gs : after.gs = m.ds

------------------------------------------------------------
-- Saving and Restoring
------------------------------------------------------------

namespace Machine

/-
  The state in which a handler starts: the registers are saved
  and the call has pushed its return address.
-/
def entry
    (env : Env)
    (handler : CFunction)
    (m : Machine) : Machine :=
  (Instr.run env ((defineHandler handler).take 10) m).push
    (env.returnAddress handler)

/-
  The words that a handler finds behind its pointer, when it
  is entered on a stack that holds `words`.
-/
def frame
    (m : Machine)
    (words : List UInt32) : List UInt32 :=
  m.pusha.stack.top :: m.edi :: m.esi :: m.ebp ::
    m.stack.top :: m.ebx :: m.edx :: m.ecx :: m.eax :: words

variable {env : Env} {handler : CFunction} {m : Machine}
variable {words : List UInt32}

theorem pusha_has
    (hHas : m.stack.Has words)
    (hFits : 4 * words.length + 32 ≤ 4294967296) :
    m.pusha.stack.Has
      (m.edi :: m.esi :: m.ebp :: m.stack.top :: m.ebx ::
        m.edx :: m.ecx :: m.eax :: words) := by
  have hEax := hHas.push m.eax (by omega)
  have hEcx := hEax.push m.ecx
    (by simp only [List.length_cons]; omega)
  have hEdx := hEcx.push m.edx
    (by simp only [List.length_cons]; omega)
  have hEbx := hEdx.push m.ebx
    (by simp only [List.length_cons]; omega)
  have hEsp := hEbx.push m.stack.top
    (by simp only [List.length_cons]; omega)
  have hEbp := hEsp.push m.ebp
    (by simp only [List.length_cons]; omega)
  have hEsi := hEbp.push m.esi
    (by simp only [List.length_cons]; omega)
  exact hEsi.push m.edi
    (by simp only [List.length_cons]; omega)

/-
  A handler is entered with a return address and a pointer to
  the frame on the stack.
-/
theorem entry_has
    (env : Env)
    (handler : CFunction)
    (hHas : m.stack.Has words)
    (hFits : 4 * words.length + 44 ≤ 4294967296) :
    (m.entry env handler).stack.Has
      (env.returnAddress handler ::
        (m.pusha.stack.top - 4) :: m.frame words) := by
  have hSaved := pusha_has hHas (by omega)
  have hPointer := hSaved.push m.pusha.stack.top
    (by simp only [List.length_cons]; omega)
  have hArgument := hPointer.push (m.pusha.stack.top - 4)
    (by simp only [List.length_cons]; omega)
  exact hArgument.push (env.returnAddress handler)
    (by simp only [List.length_cons]; omega)

theorem entry_top :
    (m.entry env handler).stack.top =
      m.pusha.stack.top - 4 - 4 - 4 := rfl

theorem entry_ss :
    (m.entry env handler).ss = m.ss := by
  simp only [entry, Instr.run, defineHandler, List.take,
    List.foldl, Instr.exec, push, pusha, setSegment]

theorem entry_esi :
    (m.entry env handler).esi = setLow m.esi m.ds := by
  simp only [entry, Instr.run, defineHandler, List.take,
    List.foldl, Instr.exec, push, pusha, setSegment]

/- The pointer of a handler points to the frame. -/
theorem entry_argument
    (env : Env)
    (handler : CFunction)
    (hHas : m.stack.Has words)
    (hFits : 4 * words.length + 44 ≤ 4294967296) :
    (m.entry env handler).argument =
        m.pusha.stack.top - 4 ∧
      Holds (m.entry env handler).stack.memory
        (m.entry env handler).argument (m.frame words) := by
  have hEntry := entry_has env handler hHas hFits
  have hArgument :
      (m.entry env handler).argument =
        m.pusha.stack.top - 4 := hEntry.2.1
  have hTop :
      (m.entry env handler).stack.top + 4 + 4 =
        (m.entry env handler).argument := by
    rw [hArgument, entry_top, UInt32.sub_add_cancel,
      UInt32.sub_add_cancel]
  refine ⟨hArgument, ?_⟩
  rw [← hTop]
  exact hEntry.2.2

/- The frame is on the stack when the handler has returned. -/
theorem call_has
    (hHas : m.stack.Has words)
    (hFits : 4 * words.length + 44 ≤ 4294967296)
    (hWords : words.length = 5)
    (hReturns :
      Returns (m.entry env handler)
        (env.call handler (m.entry env handler))) :
    ∃ word,
      (env.call handler (m.entry env handler)).stack.Has
        (word :: m.frame words) := by
  have hFrame := entry_argument env handler hHas hFits
  have hNext :
      (env.call handler (m.entry env handler)).stack.top +
          4 =
        (m.entry env handler).argument := by
    rw [hReturns.top, hFrame.1, entry_top,
      UInt32.sub_add_cancel, UInt32.sub_add_cancel]
  refine ⟨_, rfl, ?_⟩
  rw [hNext]
  apply hFrame.2.congr
  have hLength : (m.frame words).length = 14 := by
    simp only [frame, List.length_cons, hWords]
  rw [hLength]
  exact hReturns.frame

/- The instructions before the call, the call, and the rest. -/
theorem run_defineHandler :
    Instr.run env (defineHandler handler) m =
      Instr.run env ((defineHandler handler).drop 11)
        (env.call handler (m.entry env handler)) := rfl

theorem setLow_low
    (word : UInt32)
    (low : UInt16) :
    (setLow word low).toUInt16 = low := by
  have hHigh : (0xFFFF0000 : UInt32).toUInt16 = 0 := rfl
  unfold setLow
  rw [UInt32.toUInt16_or, UInt32.toUInt16_and, hHigh,
    UInt16.and_zero, UInt16.zero_or,
    UInt16.toUInt16_toUInt32]

/- What the rest makes of a stack that holds the frame. -/
theorem run_restore
    {after : Machine}
    {word number error eip cs eflags : UInt32}
    (hHas :
      after.stack.Has
        (word :: m.frame [number, error, eip, cs, eflags]))
    (hEsi : after.esi = setLow m.esi m.ds) :
    Instr.run env ((defineHandler handler).drop 11) after =
      { m with
        stack := ⟨after.stack.top + 60, after.stack.memory⟩
        eip := eip
        cs := cs.toUInt16
        eflags := eflags
        es := m.ds
        fs := m.ds
        gs := m.ds
        ss := after.ss } := by
  rcases hHas with ⟨h0, -, h2, h3, h4, h5, h6, h7, h8, h9,
    -, -, h12, h13, h14, -⟩
  have hEight (a : UInt32) : a + 8 = a + 4 + 4 := by
    rw [UInt32.add_assoc]
    rfl
  have hSixty (a : UInt32) :
      a + 60 = a + 4 + 4 + 4 + 4 + 4 + 4 + 4 + 4 + 4 + 4 +
        4 + 4 + 4 + 4 + 4 := by
    simp only [UInt32.add_assoc]
    rfl
  simp only [Instr.run, defineHandler, List.drop,
    List.foldl, Instr.exec, setSegment, half, popa, iret,
    Stack.pop, hEsi, setLow_low, hEight, hSixty, h0, h2, h3,
    h4, h5, h6, h7, h8, h9, h12, h13, h14]

/- A handler that returns takes away what was pushed. -/
theorem run_top
    (hReturns :
      Returns (m.entry env handler)
        (env.call handler (m.entry env handler))) :
    (Instr.run env (defineHandler handler) m).stack.top =
      m.stack.top + 20 := by
  have hTop :
      (Instr.run env (defineHandler handler) m).stack.top =
        (env.call handler (m.entry env handler)).stack.top +
          4 + 4 + 4 + 4 + 4 + 4 + 4 + 4 + 4 + 4 + 8 + 4 + 4 +
          4 := rfl
  have hEntry :
      (m.entry env handler).stack.top =
        m.stack.top - 4 - 4 - 4 - 4 - 4 - 4 - 4 - 4 - 4 - 4 -
          4 := rfl
  rw [hTop, hReturns.top, hEntry]
  simp only [UInt32.sub_eq_add_neg, UInt32.add_assoc]
  rfl

/-
  A handler that is called on five words takes them away, and
  the registers are those from before.
-/
theorem run_handler
    {number error eip cs eflags : UInt32}
    (hHas : m.stack.Has [number, error, eip, cs, eflags])
    (hReturns :
      Returns (m.entry env handler)
        (env.call handler (m.entry env handler))) :
    Instr.run env (defineHandler handler) m =
      { m with
        stack :=
          ⟨m.stack.top + 20,
            (env.call handler
              (m.entry env handler)).stack.memory⟩
        eip := eip
        cs := cs.toUInt16
        eflags := eflags
        es := m.ds
        fs := m.ds
        gs := m.ds } := by
  rcases call_has hHas (by simp) rfl hReturns with
    ⟨word, hCall⟩
  have hTop := run_top hReturns
  have hEsi := hReturns.esi.trans entry_esi
  rw [run_defineHandler, run_restore hCall hEsi] at hTop ⊢
  have hStack :
      (env.call handler (m.entry env handler)).stack.top +
          60 = m.stack.top + 20 := hTop
  rw [hStack, hReturns.ss, entry_ss]

/- The same from the machine that was interrupted. -/
theorem run_interrupted
    {j : Machine}
    {s : Stack}
    {number error offset eflags : UInt32}
    {cs : UInt16}
    (hJump :
      j =
        { m with
          stack := s
          cs := cs
          eip := offset
          eflags := eflags })
    (hHas :
      j.stack.Has
        [number, error, m.eip, m.cs.toUInt32, m.eflags])
    (hTop : j.stack.top = m.stack.top - 20)
    (hReturns :
      Returns (j.entry env handler)
        (env.call handler (j.entry env handler))) :
    Instr.run env (defineHandler handler) j =
      { m with
        stack :=
          ⟨m.stack.top,
            (env.call handler
              (j.entry env handler)).stack.memory⟩
        es := m.ds
        fs := m.ds
        gs := m.ds } := by
  rw [run_handler hHas hReturns, hTop,
    UInt32.sub_add_cancel, UInt16.toUInt16_toUInt32]
  subst hJump
  rfl

end Machine

------------------------------------------------------------
-- Interrupts
------------------------------------------------------------

/-
  The handler finds the registers of the interrupted code, the
  number and the error code.  The field `ds` is the address of
  the field that follows it.
-/
structure IntRegs.Saves
    (r : IntRegs)
    (m : Machine)
    (number error : UInt32) : Prop where
  ds : r.ds = m.stack.top - 52
  edi : r.edi = m.edi
  esi : r.esi = m.esi
  ebp : r.ebp = m.ebp
  esp : r.esp = m.stack.top - 20
  ebx : r.ebx = m.ebx
  edx : r.edx = m.edx
  ecx : r.ecx = m.ecx
  eax : r.eax = m.eax
  intNo : r.intNo = number
  errCode : r.errCode = error
  eip : r.eip = m.eip
  cs : r.cs = m.cs.toUInt32
  eflags : r.eflags = m.eflags

/- The fields are the words behind the pointer, in turn. -/
theorem IntRegs.read_eq
    {memory : Memory}
    {r ds edi esi ebp esp ebx edx ecx eax intNo errCode eip cs
      eflags : UInt32}
    (hHolds :
      Holds memory r
        [ds, edi, esi, ebp, esp, ebx, edx, ecx, eax, intNo,
          errCode, eip, cs, eflags]) :
    IntRegs.read memory r =
      ⟨ds, edi, esi, ebp, esp, ebx, edx, ecx, eax, intNo,
        errCode, eip, cs, eflags,
        load memory (r + UInt32.ofNat (4 * 14)),
        load memory (r + UInt32.ofNat (4 * 15))⟩ := by
  have hField (i : Nat) (hi : i < 14) :=
    hHolds.load (i := i) hi
  simp only [IntRegs.read, hField 0 (by decide),
    hField 1 (by decide), hField 2 (by decide),
    hField 3 (by decide), hField 4 (by decide),
    hField 5 (by decide), hField 6 (by decide),
    hField 7 (by decide), hField 8 (by decide),
    hField 9 (by decide), hField 10 (by decide),
    hField 11 (by decide), hField 12 (by decide),
    hField 13 (by decide), List.getElem_cons_zero,
    List.getElem_cons_succ]

/- A handler that is called on five words finds them. -/
theorem Machine.entry_saves
    {m j : Machine}
    {s : Stack}
    {number error offset eflags : UInt32}
    {cs : UInt16}
    (env : Env)
    (handler : CFunction)
    (hJump :
      j =
        { m with
          stack := s
          cs := cs
          eip := offset
          eflags := eflags })
    (hHas :
      j.stack.Has
        [number, error, m.eip, m.cs.toUInt32, m.eflags])
    (hTop : j.stack.top = m.stack.top - 20) :
    (IntRegs.read (j.entry env handler).stack.memory
      (j.entry env handler).argument).Saves m number
        error := by
  have hHolds :=
    (entry_argument env handler hHas (by simp)).2
  have hDs : j.pusha.stack.top = m.stack.top - 52 := by
    have hPusha :
        j.pusha.stack.top =
          j.stack.top - 4 - 4 - 4 - 4 - 4 - 4 - 4 - 4 := rfl
    rw [hPusha, hTop]
    simp only [UInt32.sub_eq_add_neg, UInt32.add_assoc]
    rfl
  rw [IntRegs.read_eq hHolds]
  subst hJump
  exact ⟨hDs, rfl, rfl, rfl, hTop, rfl, rfl, rfl, rfl, rfl,
    rfl, rfl, rfl, rfl⟩

namespace Stub

variable {env : Env} {stub : Stub} {m : Machine}
variable {code : Option UInt32}
variable {cs : UInt16} {offset : UInt32}

/- The processor at the jump to `process_isr`. -/
def jump
    (env : Env)
    (stub : Stub)
    (m : Machine) : Machine :=
  Instr.run env stub.prologue m

/- The processor at the start of the handler of the stub. -/
def entry
    (env : Env)
    (stub : Stub)
    (m : Machine) : Machine :=
  (stub.jump env m).entry env stub.handler

theorem run_eq_jump :
    stub.run env m =
      Instr.run env (defineHandler stub.handler)
        (stub.jump env m) :=
  List.foldl_append

/- The number, the error code, and what was interrupted. -/
theorem jump_has
    (env : Env)
    (m : Machine)
    (cs : UInt16)
    (offset : UInt32)
    (hCode : code.isSome = stub.expectsCode) :
    (stub.jump env (m.take code cs offset)).stack.Has
        [signExtend stub.number, code.getD 0, m.eip,
          m.cs.toUInt32, m.eflags] ∧
      (stub.jump env (m.take code cs offset)).stack.top =
        m.stack.top - 20 := by
  have hEflags :=
    (Stack.has_nil m.stack).push m.eflags (by simp)
  have hCs := hEflags.push m.cs.toUInt32 (by simp)
  have hEip := hCs.push m.eip (by simp)
  have hTop :
      m.stack.top - 4 - 4 - 4 - 4 - 4 = m.stack.top - 20 := by
    simp only [UInt32.sub_eq_add_neg, UInt32.add_assoc]
    rfl
  have hPushed (error : UInt32) :=
    (hEip.push error (by simp)).push
      (signExtend stub.number) (by simp)
  cases stub with
  | isrErrcode number =>
      cases code with
      | none => cases hCode
      | some error => exact ⟨hPushed error, hTop⟩
  | isrNoErrcode number =>
      cases code with
      | none => exact ⟨hPushed 0, hTop⟩
      | some error => cases hCode
  | irq line number =>
      cases code with
      | none => exact ⟨hPushed 0, hTop⟩
      | some error => cases hCode

/- The registers are untouched up to the handler. -/
theorem jump_eq
    (env : Env)
    (stub : Stub)
    (m : Machine)
    (code : Option UInt32)
    (cs : UInt16)
    (offset : UInt32) :
    stub.jump env (m.take code cs offset) =
      { m with
        stack := (stub.jump env (m.take code cs offset)).stack
        cs := cs
        eip := offset
        eflags := m.eflags &&& ~~~0x34300 &&& ~~~0x200 } := by
  cases stub <;> cases code <;>
    simp only [jump, prologue, Instr.run, List.foldl,
      Instr.exec, Machine.take, Machine.push, Option.elim]

/-
  A stub whose error code is there restores what it saved, and
  what the handler has stored stays.
-/
theorem run_eq
    (hCode : code.isSome = stub.expectsCode)
    (hReturns :
      Returns (stub.entry env (m.take code cs offset))
        (env.call stub.handler
          (stub.entry env (m.take code cs offset)))) :
    stub.run env (m.take code cs offset) =
      { m with
        stack :=
          ⟨m.stack.top,
            (env.call stub.handler
              (stub.entry env
                (m.take code cs offset))).stack.memory⟩
        es := m.ds
        fs := m.ds
        gs := m.ds } := by
  have hHas := jump_has env m cs offset hCode
  rw [run_eq_jump]
  exact Machine.run_interrupted
    (jump_eq env stub m code cs offset) hHas.1 hHas.2
    hReturns

/- Otherwise the stack is not what it was. -/
theorem run_top
    (hReturns :
      Returns (stub.entry env (m.take code cs offset))
        (env.call stub.handler
          (stub.entry env (m.take code cs offset))))
    (hCode : code.isSome ≠ stub.expectsCode) :
    (stub.run env (m.take code cs offset)).stack.top ≠
      m.stack.top := by
  have hMoved
      {k : UInt32}
      (hk : k ≠ 0) : m.stack.top + k ≠ m.stack.top := by
    intro hSame
    exact hk (UInt32.add_eq_left.mp hSame)
  have hShift4 :
      m.stack.top - 4 - 4 - 4 - 4 + 20 = m.stack.top + 4 := by
    simp only [UInt32.sub_eq_add_neg, UInt32.add_assoc]
    rfl
  have hShift6 :
      m.stack.top - 4 - 4 - 4 - 4 - 4 - 4 + 20 =
        m.stack.top + (-4) := by
    simp only [UInt32.sub_eq_add_neg, UInt32.add_assoc]
    rfl
  rw [run_eq_jump, Machine.run_top hReturns]
  cases stub with
  | isrErrcode number =>
      cases code with
      | none =>
          change m.stack.top - 4 - 4 - 4 - 4 + 20 ≠ _
          rw [hShift4]
          exact hMoved (by decide)
      | some error => exact absurd rfl hCode
  | isrNoErrcode number =>
      cases code with
      | none => exact absurd rfl hCode
      | some error =>
          change m.stack.top - 4 - 4 - 4 - 4 - 4 - 4 + 20 ≠ _
          rw [hShift6]
          exact hMoved (by decide)
  | irq line number =>
      cases code with
      | none => exact absurd rfl hCode
      | some error =>
          change m.stack.top - 4 - 4 - 4 - 4 - 4 - 4 + 20 ≠ _
          rw [hShift6]
          exact hMoved (by decide)

/-
  An interrupt is transparent to the interrupted code exactly
  if the processor pushes an error code where the stub leaves
  it to the processor, and none where the stub pushes a zero.
-/
theorem transparent_iff
    (hReturns :
      Returns (stub.entry env (m.take code cs offset))
        (env.call stub.handler
          (stub.entry env (m.take code cs offset)))) :
    Resumed m (stub.run env (m.take code cs offset)) ↔
      code.isSome = stub.expectsCode := by
  constructor
  · intro hResumed
    by_contra hCode
    exact run_top hReturns hCode hResumed.esp
  · intro hCode
    rw [run_eq hCode hReturns]
    exact ⟨rfl, rfl, rfl, rfl, rfl, rfl, rfl, rfl, rfl, rfl,
      rfl, rfl, rfl, rfl, rfl, rfl⟩

/- The numbers of the stubs have no sign. -/
theorem signExtend_number
    (hStub : stub ∈ stubs) :
    signExtend stub.number = stub.number.toUInt32 := by
  have hAll :
      stubs.all (fun stub =>
        signExtend stub.number = stub.number.toUInt32) =
          true := by
    decide
  exact of_decide_eq_true (List.all_eq_true.mp hAll stub hStub)

/- The processor with a function of C that only returns. -/
def sampleEnv : Env where
  addFlags := fun flags _ _ => flags
  returnAddress := fun _ => 0
  call := fun _ m =>
    { m with
      stack := { m.stack with top := m.stack.top + 4 } }

theorem sampleEnv_returns
    (handler : CFunction)
    (before : Machine) :
    Returns before (sampleEnv.call handler before) :=
  ⟨rfl, rfl, rfl, fun _ _ => rfl⟩

def sampleMachine : Machine where
  eax := 1
  ecx := 2
  edx := 3
  ebx := 4
  ebp := 5
  esi := 6
  edi := 7
  stack := ⟨0x1000, fun _ => 0⟩
  cs := 0x08
  ds := 0x10
  es := 0x10
  fs := 0x10
  gs := 0x10
  ss := 0x10
  eip := 0x2000
  eflags := 0x202

/-
  The line of the timer, and an alignment check, for which the
  processor pushes an error code.
-/
theorem transparent_iff_timer :
    Resumed sampleMachine
        ((Stub.irq 0 32).run sampleEnv
          (sampleMachine.take none 8 0x3000)) ∧
      ¬ Resumed sampleMachine
        ((Stub.isrNoErrcode 17).run sampleEnv
          (sampleMachine.take (some 0) 8 0x3000)) := by
  constructor
  · exact (transparent_iff
      (sampleEnv_returns _ _)).mpr rfl
  · rw [transparent_iff (sampleEnv_returns _ _)]
    decide

/-
  Every handler finds the number of its stub and the registers
  of the code that was interrupted.
-/
theorem handler_receives
    (env : Env)
    (m : Machine)
    (cs : UInt16)
    (offset : UInt32)
    (hStub : stub ∈ stubs)
    (hCode : code.isSome = stub.expectsCode) :
    let entry := stub.entry env (m.take code cs offset)
    (IntRegs.read entry.stack.memory entry.argument).Saves m
      stub.number.toUInt32 (code.getD 0) := by
  have hJump := jump_has env m cs offset hCode
  rw [← signExtend_number hStub]
  exact Machine.entry_saves env stub.handler
    (jump_eq env stub m code cs offset) hJump.1 hJump.2

theorem handler_receives_timer :
    let entry := (Stub.irq 0 32).entry sampleEnv
      (sampleMachine.take none 8 0x3000)
    (IntRegs.read entry.stack.memory
      entry.argument).Saves sampleMachine 32 0 :=
  handler_receives sampleEnv sampleMachine 8 0x3000
    (List.mem_of_elem_eq_true rfl) rfl

end Stub

end AsaKernel
