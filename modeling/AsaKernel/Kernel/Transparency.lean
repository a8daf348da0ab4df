import AsaKernel.Kernel.Stubs

/-
  A program that is interrupted at any moments (my-kernel-asa:
  idt0.s).

  Interrupts change the memory below the stack pointer and
  what the handlers share with each other.  A program that
  relies on neither computes the same whether it is
  interrupted or not.

  Main declarations:
    * `Quiet`, `Alike`, `Program`
    * `Stub.run_quiet`
    * `interrupts_invisible`
-/

------------------------------------------------------------
-- One Interrupt
------------------------------------------------------------

namespace AsaKernel

open WordStack

/-
  The functions of C change the bytes that they share, and as
  much of the stack as there is room for, their return address
  and argument included.
-/
structure Quiet
    (shared : UInt32 → Prop)
    (room : Nat)
    (env : Env) : Prop where
  returns :
    ∀ handler before,
      (∀ i < 56,
        ¬ shared (before.argument + UInt32.ofNat i)) →
      Returns before (env.call handler before)
  spares :
    ∀ handler before b,
      ¬ shared b →
      Spared room (before.stack.top + 8) b →
      (env.call handler before).stack.memory b =
        before.stack.memory b

/-
  The code at hand has one data segment, and its stack has
  room for an interrupt outside of what the handlers share.
-/
structure Interruptible
    (shared : UInt32 → Prop)
    (room : Nat)
    (m : Machine) : Prop where
  es : m.es = m.ds
  fs : m.fs = m.ds
  gs : m.gs = m.ds
  apart :
    ∀ b, ¬ Spared (56 + room) m.stack.top b → ¬ shared b

namespace Stub

variable {env : Env} {stub : Stub} {m : Machine}
variable {code : Option UInt32}
variable {cs : UInt16} {offset : UInt32}
variable {shared : UInt32 → Prop} {room : Nat}

/- What is on the stack when the handler starts. -/
theorem entry_grown
    (env : Env)
    (m : Machine)
    (cs : UInt16)
    (offset : UInt32)
    (hCode : code.isSome = stub.expectsCode) :
    Stack.Grown 64 m.stack
      (stub.entry env (m.take code cs offset)).stack := by
  have hTaken :=
    (((Stack.Grown.refl m.stack).push m.eflags).push
      m.cs.toUInt32).push m.eip
  have hSaved
      {j : Machine}
      (hJump : Stack.Grown 20 m.stack j.stack) :
      Stack.Grown 64 m.stack
        (j.entry env stub.handler).stack :=
    ((((((((((hJump.push j.eax).push j.ecx).push j.edx).push
      j.ebx).push j.stack.top).push j.ebp).push
      j.esi).push j.edi).push j.pusha.stack.top).push
      (j.pusha.stack.top - 4)).push
      (env.returnAddress stub.handler)
  apply hSaved
  cases stub with
  | isrErrcode number =>
      cases code with
      | none => cases hCode
      | some error =>
          exact (hTaken.push error).push (signExtend number)
  | isrNoErrcode number =>
      cases code with
      | none =>
          exact (hTaken.push (signExtend 0)).push
            (signExtend number)
      | some error => cases hCode
  | irq line number =>
      cases code with
      | none =>
          exact (hTaken.push (signExtend 0)).push
            (signExtend number)
      | some error => cases hCode

/- The pointer of the handler points below the stack. -/
theorem entry_argument
    (env : Env)
    (m : Machine)
    (cs : UInt16)
    (offset : UInt32)
    (hCode : code.isSome = stub.expectsCode) :
    (stub.entry env (m.take code cs offset)).argument =
      m.stack.top - 56 := by
  have hJump := jump_has env m cs offset hCode
  have hArgument :=
    (Machine.entry_argument env stub.handler hJump.1
      (by simp)).1
  have hPusha :
      (stub.jump env (m.take code cs offset)).pusha.stack.top =
        (stub.jump env (m.take code cs offset)).stack.top -
          4 - 4 - 4 - 4 - 4 - 4 - 4 - 4 := rfl
  unfold entry
  rw [hArgument, hPusha, hJump.2]
  simp only [UInt32.sub_eq_add_neg, UInt32.add_assoc]
  rfl

/- An interrupt changes what is shared, and the free stack. -/
theorem run_quiet
    (cs : UInt16)
    (offset : UInt32)
    (hQuiet : Quiet shared room env)
    (hRoom : 8 ≤ room)
    (hReady : Interruptible shared room m)
    (hCode : code.isSome = stub.expectsCode) :
    ∃ memory,
      stub.run env (m.take code cs offset) =
          { m with stack := ⟨m.stack.top, memory⟩ } ∧
        ∀ b, ¬ shared b →
          Spared (56 + room) m.stack.top b →
          memory b = m.stack.memory b := by
  have hGrown := entry_grown env m cs offset hCode
  have hArgument := entry_argument env m cs offset hCode
  have hReturns :
      Returns (stub.entry env (m.take code cs offset))
        (env.call stub.handler
          (stub.entry env (m.take code cs offset))) := by
    apply hQuiet.returns
    intro i hi
    apply hReady.apart
    rw [hArgument]
    exact not_spared (k := 56) hi (by omega) (by omega)
  refine
    ⟨(env.call stub.handler
        (stub.entry env
          (m.take code cs offset))).stack.memory, ?_, ?_⟩
  · rw [run_eq hCode hReturns, hReady.es, hReady.fs,
      hReady.gs]
  · intro b hShared hSpared
    have hTop :
        (stub.entry env (m.take code cs offset)).stack.top +
            8 = m.stack.top - UInt32.ofNat 56 := by
      rw [hGrown.top, UInt32.sub_eq_add_neg,
        UInt32.sub_eq_add_neg, UInt32.add_assoc]
      rfl
    rw [hQuiet.spares stub.handler _ b hShared]
    · exact hGrown.memory b (hSpared.mono (by omega))
    · rw [hTop]
      exact hSpared.sub

end Stub

------------------------------------------------------------
-- Any Number of Interrupts
------------------------------------------------------------

/-
  What happens next: the program takes a step, or an interrupt
  is taken through a gate and served by the functions of C as
  they behave this time.
-/
inductive Turn where
  | program
  | interrupt (env : Env) (stub : Stub)
      (code : Option UInt32) (cs : UInt16) (offset : UInt32)

namespace Turn

def perform
    (program : Machine → Machine)
    (m : Machine) : Turn → Machine
| .program => program m
| .interrupt env stub code cs offset =>
    stub.run env (m.take code cs offset)

/- The stub fits its interrupt, and the functions are quiet. -/
def Regular
    (shared : UInt32 → Prop)
    (room : Nat) : Turn → Prop
| .program => True
| .interrupt env stub code _ _ =>
    Quiet shared room env ∧ code.isSome = stub.expectsCode

/- The steps of the program among the turns. -/
def steps : List Turn → Nat
| [] => 0
| .program :: turns => steps turns + 1
| .interrupt _ _ _ _ _ :: turns => steps turns

end Turn

/-
  Two machines with the same registers, and the same bytes
  where the program relies on them.  Which bytes these are may
  depend on where the program is and on its stack pointer.
-/
structure Alike
    (live : UInt32 → UInt32 → UInt32 → Prop)
    (m m' : Machine) : Prop where
  registers :
    m' = { m with stack := ⟨m.stack.top, m'.stack.memory⟩ }
  memory :
    ∀ b, live m.eip m.stack.top b →
      m'.stack.memory b = m.stack.memory b

/- What the program needs of a state to be interrupted. -/
structure Undisturbed
    (shared : UInt32 → Prop)
    (room : Nat)
    (live : UInt32 → UInt32 → UInt32 → Prop)
    (m : Machine) : Prop where
  ready : Interruptible shared room m
  live :
    ∀ b, live m.eip m.stack.top b →
      ¬ shared b ∧ Spared (56 + room) m.stack.top b

section Runs

variable {shared : UInt32 → Prop} {room : Nat}
variable {live : UInt32 → UInt32 → UInt32 → Prop}
variable {program : Machine → Machine}
variable {m m' : Machine}

theorem Alike.refl
    (live : UInt32 → UInt32 → UInt32 → Prop)
    (m : Machine) :
    Alike live m m :=
  ⟨rfl, fun _ _ => rfl⟩

/- An interrupt is not seen by the program. -/
theorem Alike.interrupt
    {env : Env}
    {stub : Stub}
    {code : Option UInt32}
    {cs : UInt16}
    {offset : UInt32}
    (hAlike : Alike live m m')
    (hRoom : 8 ≤ room)
    (hUndisturbed : Undisturbed shared room live m)
    (hQuiet : Quiet shared room env)
    (hCode : code.isSome = stub.expectsCode) :
    Alike live m
      (stub.run env (m'.take code cs offset)) := by
  rcases hAlike with ⟨hRegisters, hMemory⟩
  have hReady : Interruptible shared room m' := by
    rw [hRegisters]
    exact ⟨hUndisturbed.ready.es, hUndisturbed.ready.fs,
      hUndisturbed.ready.gs, hUndisturbed.ready.apart⟩
  have hTop : m'.stack.top = m.stack.top := by
    rw [hRegisters]
  rcases Stub.run_quiet cs offset
    hQuiet hRoom hReady hCode with ⟨memory, hRun, hKept⟩
  rw [hRun]
  constructor
  · rw [hRegisters]
  · intro b hLive
    have hSpared := hUndisturbed.live b hLive
    rw [← hTop] at hSpared
    exact (hKept b hSpared.1 hSpared.2).trans
      (hMemory b hLive)

/- Machines that are alike stay so through all turns. -/
theorem Alike.turns
    {turns : List Turn}
    (hAlike : Alike live m m')
    (hRoom : 8 ≤ room)
    (hProgram :
      ∀ u u', Alike live u u' →
        Alike live (program u) (program u'))
    (hUndisturbed :
      ∀ n, Undisturbed shared room live (program^[n] m))
    (hRegular : ∀ turn ∈ turns, turn.Regular shared room) :
    Alike live (program^[Turn.steps turns] m)
      (turns.foldl (Turn.perform program) m') := by
  induction turns generalizing m m' with
  | nil => exact hAlike
  | cons turn turns ih =>
      have hRest :
          ∀ turn ∈ turns, turn.Regular shared room :=
        fun other hOther =>
          hRegular other (List.mem_cons_of_mem turn hOther)
      cases turn with
      | program =>
          exact ih (hProgram m m' hAlike)
            (fun n => hUndisturbed (n + 1)) hRest
      | interrupt env stub code cs offset =>
          have hTurn : Quiet shared room env ∧
              code.isSome = stub.expectsCode :=
            hRegular _ List.mem_cons_self
          exact ih
            (hAlike.interrupt hRoom (hUndisturbed 0)
              hTurn.1 hTurn.2)
            hUndisturbed hRest

/-
  However a program is interrupted, its registers and the
  bytes that it relies on are those that it would have without
  interrupts.
-/
theorem interrupts_invisible
    {turns : List Turn}
    (hRoom : 8 ≤ room)
    (hProgram :
      ∀ u u', Alike live u u' →
        Alike live (program u) (program u'))
    (hUndisturbed :
      ∀ n, Undisturbed shared room live (program^[n] m))
    (hRegular : ∀ turn ∈ turns, turn.Regular shared room) :
    Alike live (program^[Turn.steps turns] m)
      (turns.foldl (Turn.perform program) m) :=
  (Alike.refl live m).turns hRoom hProgram hUndisturbed
    hRegular

/- A handler that stores a character on the screen. -/
def screenEnv : Env where
  addFlags := fun flags _ _ => flags
  returnAddress := fun _ => 0
  call := fun _ m =>
    { m with
      eax := 0
      stack :=
        ⟨m.stack.top + 4,
          Function.update m.stack.memory 0xB8000 65⟩ }

theorem screenEnv_quiet :
    Quiet (fun b => b = 0xB8000) 8 screenEnv where
  returns := by
    intro handler before hApart
    refine ⟨rfl, rfl, rfl, ?_⟩
    intro i hi
    exact Function.update_of_ne (hApart i hi) 65 _
  spares := by
    intro handler before b hShared _
    exact Function.update_of_ne hShared 65 _

/- A program that adds up what it reads. -/
def addUp
    (m : Machine) : Machine :=
  { m with
    eax := m.eax + (m.stack.memory 0x1000).toUInt32 + 1 }

theorem addUp_iterate
    (m : Machine)
    (n : Nat) :
    ∃ eax, addUp^[n] m = { m with eax := eax } := by
  induction n with
  | zero => exact ⟨m.eax, rfl⟩
  | succ n ih =>
      rcases ih with ⟨eax, hEq⟩
      rw [Function.iterate_succ_apply', hEq]
      exact ⟨_, rfl⟩

/- It is interrupted twice. -/
theorem interrupts_invisible_sum :
    let interrupt := Turn.interrupt screenEnv (.irq 0 32) none
      8 0x3000
    ([.program, interrupt, .program, interrupt,
      .program].foldl (Turn.perform addUp)
        Stub.sampleMachine).eax = 4 := by
  intro interrupt
  have hRegular :
      ∀ turn ∈ [.program, interrupt, .program, interrupt,
          .program],
        turn.Regular (fun b => b = 0xB8000) 8 := by
    intro turn hTurn
    rcases turn with _ | ⟨env, stub, code, cs, offset⟩
    · trivial
    · simp only [interrupt, List.mem_cons, reduceCtorEq,
        Turn.interrupt.injEq, List.not_mem_nil, or_false,
        false_or, or_self] at hTurn
      rcases hTurn with ⟨rfl, rfl, rfl, rfl, rfl⟩
      exact ⟨screenEnv_quiet, rfl⟩
  have hProgram :
      ∀ u u', Alike (fun _ _ b => b = 0x1000) u u' →
        Alike (fun _ _ b => b = 0x1000) (addUp u)
          (addUp u') := by
    intro u u' hAlike
    have hByte := hAlike.memory 0x1000 rfl
    refine ⟨?_, hAlike.memory⟩
    unfold addUp
    rw [hByte]
    rw [hAlike.registers]
  have hUndisturbed :
      ∀ n, Undisturbed (fun b => b = 0xB8000) 8
        (fun _ _ b => b = 0x1000)
        (addUp^[n] Stub.sampleMachine) := by
    intro n
    rcases addUp_iterate Stub.sampleMachine n with
      ⟨eax, hEq⟩
    rw [hEq]
    have hScreen : Spared (56 + 8) 0x1000 0xB8000 := by
      decide
    have hByte : Spared (56 + 8) 0x1000 0x1000 := by
      decide
    refine ⟨⟨rfl, rfl, rfl, ?_⟩, ?_⟩
    · rintro b hBelow rfl
      exact hBelow hScreen
    · rintro b rfl
      exact ⟨by decide, hByte⟩
  have hAlike :=
    interrupts_invisible (Nat.le_refl 8) hProgram
      hUndisturbed hRegular
  exact congrArg Machine.eax hAlike.registers

end Runs

end AsaKernel
