import AsaKernel.Scheduler.Creation
import AsaKernel.Scheduler.Semaphore

/-
  Timer interrupts inside the scheduler (TP3.c).

  The statements between `irq_disable` and `irq_enable` are
  one step.  Between two steps a timer interrupt may call
  `yield` on the stack of the running context, so each context
  has a stack of tasks that it performs before its own code
  goes on.  The pointer 0 stands for the main program, before
  the first switch.

  `yield` enables the interrupts between the choice of a
  context and the switch to it: the choice may be outdated
  when the switch is made.

  Main declarations:
    * `Task`, `Preempted`, `Preempted.step`
    * `Preempted.run_yield`
    * `Preempted.SwitchOk`, `Preempted.KeepsChosen`
    * `Preempted.Settled`, `Preempted.Settled.step`
    * `Preempted.switch_target_runnable`
-/

------------------------------------------------------------
-- Parts of the Functions
------------------------------------------------------------

namespace AsaKernel

open Transition

namespace Scheduler

namespace Machine

/- `yield` up to the switch. -/
def chooseNext
    (m : Machine) : Option Scan :=
  if m.currentCtx = 0 then some (.switches m.ctxRing m)
  else do
    let m := m.irqDisable
    let ctx ← m.ctx? m.currentCtx
    let scan ←
      m.yieldLoop (m.heap.size + 1) m.currentCtx ctx.next
    match scan with
    | .exits => some .exits
    | .switches target m =>
        some (.switches target m.irqEnable)

/- `sem_down` without a token, up to its call of `yield`. -/
def block
    (sem : Sem)
    (m : Machine) : Option (Sem × Machine) := do
  let m ← m.irqDisable.update? m.currentCtx fun c =>
    { c with
      etat := .waiting
      nextBlocked := sem.firstBlocked }
  let val ← FixedWidth.ofInt? (sem.val.toInt - 1)
  some (⟨val, m.currentCtx⟩, m.irqEnable)

/- `yield` is the choice and then the switch. -/
theorem yield_eq_chooseNext
    (m : Machine) :
    m.yield =
      m.chooseNext.bind fun scan =>
        match scan with
        | .exits => some (.exited 1)
        | .switches target m => m.yieldTo target := by
  unfold yield chooseNext
  by_cases hFirst : m.currentCtx = 0
  · rw [if_pos hFirst, if_pos hFirst, Option.bind_some]
  · rw [if_neg hFirst, if_neg hFirst]
    simp only [Option.bind_eq_bind, Option.bind_assoc]
    congr 1
    funext c
    congr 1
    funext scan
    cases scan <;> rfl

/- `sem_down` without a token blocks and then yields. -/
theorem semDown_eq_block
    (sem : Sem)
    (m : Machine)
    (hToken : ¬ 1 ≤ sem.val) :
    m.semDown sem =
      (m.block sem).bind fun blocked =>
        blocked.2.yield.map (Prod.mk blocked.1) := by
  unfold semDown block
  rw [if_neg hToken]
  simp only [Option.bind_eq_bind, Option.bind_assoc]
  congr 1
  funext chained
  congr 1
  funext val
  exact (Option.map_eq_bind ..).symm

end Machine

------------------------------------------------------------
-- Interrupted Contexts
------------------------------------------------------------

/-
  What a context has still to do before its own code goes on:
  a call of `yield`, the switch at the end of one, the end of
  the context after its entry function has returned, or the
  return from `switch_to_ctx` on the stack of an ended
  context, which has no defined result.
-/
inductive Task where
  | yield
  | switchTo (target : UInt64)
  | ends
  | lost
deriving DecidableEq, Repr

/- The contexts with their tasks, and the semaphores. -/
structure Preempted where
  machine : Machine
  sems : UInt64 → Sem
  tasks : UInt64 → List Task

/-
  A timer interrupt, the next task of the running context, or
  a call that its own code makes.
-/
inductive Occurrence where
  | timer
  | advance
  | createCtx (call : Call)
  | semDown (sem : UInt64)
  | semUp (sem : UInt64)
  | yield
  | returns
deriving DecidableEq, Repr

namespace Preempted

/- The program before it creates a context. -/
def boot
    (cpu : Regs)
    (vals : UInt64 → UInt32) : Preempted where
  machine := Machine.boot cpu
  sems sem := semInit (vals sem)
  tasks _ := []

/- The tasks of the running context. -/
def current
    (s : Preempted) : List Task :=
  s.tasks s.machine.currentCtx

/- Replace the tasks of the running context. -/
def setTasks
    (tasks : List Task)
    (s : Preempted) : Preempted :=
  { s with
    tasks :=
      Function.update s.tasks s.machine.currentCtx tasks }

/- Perform the first of the tasks of the running context. -/
def perform
    (s : Preempted) : List Task → Option Preempted
| [] => none
| .yield :: rest => do
    let scan ← s.machine.chooseNext
    match scan with
    | .exits => none
    | .switches target m =>
        some
          { s.setTasks (.switchTo target :: rest) with
            machine := m }
| .switchTo target :: rest => do
    let m ← s.machine.switchToCtx target
    some { s.setTasks rest with machine := m }
| .ends :: rest => do
    let m ← s.machine.update? s.machine.currentCtx fun c =>
      { c with etat := .terminated }
    some
      { s.setTasks (.yield :: .lost :: rest) with
        machine := m }
| .lost :: _ => none

/- A call that the code of the running context makes. -/
def call
    (libc : CLib)
    (s : Preempted) : Occurrence → Option Preempted
| .createCtx call => do
    let (_, m) ←
      s.machine.createCtx libc call.stackSize call.f call.args
    some { s with machine := m }
| .semDown a =>
    let sem := s.sems a
    if 1 ≤ sem.val then do
      let val ← FixedWidth.ofInt? (sem.val.toInt - 1)
      some
        { s with
          machine := s.machine.irqDisable.irqEnable
          sems :=
            Function.update s.sems a { sem with val := val } }
    else do
      let (sem, m) ← s.machine.block sem
      some
        { s.setTasks [.yield] with
          machine := m
          sems := Function.update s.sems a sem }
| .semUp a => do
    let (sem, m) ← s.machine.semUp (s.sems a)
    some
      { s with
        machine := m
        sems := Function.update s.sems a sem }
| .yield => some (s.setTasks [.yield])
| .returns =>
    if s.machine.currentCtx = 0 then none
    else some (s.setTasks [.ends])
| .timer | .advance => none

/-
  A timer interrupt comes while the interrupts are enabled;
  the code of the running context goes on when it has no task.
-/
def step
    (libc : CLib)
    (s : Preempted) : Occurrence → Option Preempted
| .timer =>
    if s.machine.mask = 1 then
      some (s.setTasks (.yield :: s.current))
    else none
| .advance => s.perform s.current
| occurrence =>
    if s.current = [] then s.call libc occurrence else none

/- The tasks of the running context, after an assignment. -/
theorem current_of_setTasks
    {s : Preempted}
    {m : Machine}
    (tasks : List Task)
    (hSame : m.currentCtx = s.machine.currentCtx) :
    current { s.setTasks tasks with machine := m } =
      tasks := by
  unfold current setTasks
  dsimp only
  rw [hSame]
  exact Function.update_self _ _ _

/- The choice of a context switches nothing. -/
theorem chooseNext_cases
    {m after : Machine}
    {target : UInt64}
    (hChoice : m.chooseNext = some (.switches target after)) :
    after = { m with mask := after.mask } ∧
      (m.currentCtx = 0 ∨
        ∃ c, m.ctx? target = some c ∧ c.Runnable) := by
  unfold Machine.chooseNext at hChoice
  by_cases hFirst : m.currentCtx = 0
  · rw [if_pos hFirst] at hChoice
    cases hChoice
    exact ⟨rfl, Or.inl hFirst⟩
  · rw [if_neg hFirst] at hChoice
    rcases Option.bind_eq_some_iff.mp hChoice with
      ⟨c, _, hRest⟩
    rcases Option.bind_eq_some_iff.mp hRest with
      ⟨scan, hScan, hResult⟩
    cases scan with
    | exits => cases hResult
    | switches target' scanned =>
        cases hResult
        rcases Machine.yieldLoop_switches hScan with
          ⟨rfl, c', hLive, hRunnable⟩
        exact ⟨rfl, Or.inr ⟨c', hLive, hRunnable⟩⟩

/- A call of `yield` that nothing interrupts. -/
theorem run_yield
    (libc : CLib)
    (s : Preempted)
    (hIdle : s.current = []) :
    (run (step libc) s [.yield, .advance, .advance]).map
        machine =
      s.machine.yield.bind Machine.Outcome.running? := by
  have hCall :
      step libc s .yield = some (s.setTasks [.yield]) :=
    if_pos hIdle
  have hChoose :
      step libc (s.setTasks [.yield]) .advance =
        (s.setTasks [.yield]).perform [.yield] :=
    congrArg (s.setTasks [.yield]).perform
      (current_of_setTasks [.yield] rfl)
  rw [run_cons, hCall, Option.bind_some, run_cons, hChoose,
    Machine.yield_eq_chooseNext]
  unfold perform
  change Option.map machine
      (Option.bind
        (Option.bind s.machine.chooseNext _) _) = _
  cases hChoice : s.machine.chooseNext with
  | none => rfl
  | some scan =>
      cases scan with
      | exits => rfl
      | switches target m =>
          have hSame :
              m.currentCtx = s.machine.currentCtx := by
            rw [(chooseNext_cases hChoice).1]
          let t : Preempted :=
            { (s.setTasks [.yield]).setTasks
                [.switchTo target] with
              machine := m }
          have hSwitch :
              step libc t .advance =
                t.perform [.switchTo target] :=
            congrArg t.perform
              (current_of_setTasks [.switchTo target] hSame)
          change Option.map machine
              (run (step libc) t [.advance]) =
            (m.yieldTo target).bind _
          rw [run_cons, hSwitch]
          unfold perform Machine.yieldTo
          change Option.map machine
              (Option.bind
                (Option.bind (m.switchToCtx target) _) _) = _
          cases m.switchToCtx target <;> rfl

------------------------------------------------------------
-- Switches and Interrupts
------------------------------------------------------------

/- The state is neither WAITING nor TERMINATED. -/
def Calm
    (m : Machine)
    (p : UInt64) : Prop :=
  m.view Ctx.etat p ≠ some .waiting ∧
    m.view Ctx.etat p ≠ some .terminated

/-
  No switch is executed to a context that waits or that is
  terminated.
-/
def SwitchOk
    (s : Preempted) : Occurrence → Prop
| .advance =>
    ∀ target rest, s.current = .switchTo target :: rest →
      Calm s.machine target
| _ => True

/-
  A context has chosen the target and not yet switched to it.
  The main program does not come back from its switch.
-/
def Pending
    (s : Preempted)
    (target : UInt64) : Prop :=
  ∃ p, p ≠ 0 ∧ Task.switchTo target ∈ s.tasks p

/-
  The running context neither blocks nor ends while a switch
  to it is pending.
-/
def KeepsChosen
    (s : Preempted) : Occurrence → Prop
| .semDown a =>
    1 ≤ (s.sems a).val ∨ ¬ s.Pending s.machine.currentCtx
| .advance =>
    s.current.head? = some .ends →
      ¬ s.Pending s.machine.currentCtx
| _ => True

/-
  Every pending switch is one to a context that can run.
  Before the first switch no context has done anything.
-/
structure Settled
    (s : Preempted) : Prop where
  chosen :
    ∀ target, s.Pending target → Calm s.machine target
  first : s.machine.currentCtx = 0 → ∀ p, Calm s.machine p

variable {s t : Preempted} {m after : Machine}
variable {libc : CLib} {target p : UInt64}
variable {tasks : List Task}

theorem Settled.switchOk
    (hSettled : s.Settled)
    (occurrence : Occurrence) :
    s.SwitchOk occurrence := by
  cases occurrence with
  | advance =>
      intro target rest hNext
      by_cases hFirst : s.machine.currentCtx = 0
      · exact hSettled.first hFirst target
      · refine hSettled.chosen target ⟨_, hFirst, ?_⟩
        unfold current at hNext
        rw [hNext]
        exact List.mem_cons_self
  | _ => trivial

theorem settled_boot
    (cpu : Regs)
    (vals : UInt64 → UInt32) :
    (boot cpu vals).Settled where
  chosen target hPending := by
    rcases hPending with ⟨p, _, hTask⟩
    cases hTask
  first _ p := by
    have hDead := Machine.link_boot cpu p
    unfold Machine.link Machine.view at hDead
    have hNone :
        (boot cpu vals).machine.view Ctx.etat p = none :=
      Option.map_eq_none_iff.mpr
        (Option.map_eq_none_iff.mp hDead)
    unfold Calm
    rw [hNone]
    simp

------------------------------------------------------------
-- What a Step Keeps
------------------------------------------------------------

theorem Calm.of_view
    (hCalm : Calm m p)
    (hSame : after.view Ctx.etat p = m.view Ctx.etat p) :
    Calm after p := by
  unfold Calm
  rw [hSame]
  exact hCalm

theorem calm_of_etat
    {etat : Etat}
    (hEtat : m.view Ctx.etat p = some etat)
    (hEnded : etat ≠ .terminated)
    (hWaiting : etat ≠ .waiting) :
    Calm m p := by
  unfold Calm
  rw [hEtat]
  simp [hEnded, hWaiting]

/- Nothing is pending that was not pending before. -/
theorem Settled.of_calm
    (hSettled : s.Settled)
    (hPending :
      ∀ target, t.Pending target →
        s.Pending target ∨ Calm t.machine target)
    (hKept :
      ∀ p, s.Pending p ∨ t.machine.currentCtx = 0 →
        Calm s.machine p → Calm t.machine p)
    (hCurrent :
      t.machine.currentCtx = 0 →
        s.machine.currentCtx = 0) :
    t.Settled := by
  refine ⟨?_, ?_⟩
  · intro target hTarget
    rcases hPending target hTarget with hBefore | hCalm
    · exact hKept target (Or.inl hBefore)
        (hSettled.chosen target hBefore)
    · exact hCalm
  · intro hFirst p
    exact hKept p (Or.inr hFirst)
      (hSettled.first (hCurrent hFirst) p)

/- The running context has other tasks. -/
theorem pending_setTasks
    (hPending :
      Pending { s.setTasks tasks with machine := m } target) :
    s.Pending target ∨
      s.machine.currentCtx ≠ 0 ∧
        .switchTo target ∈ tasks := by
  rcases hPending with ⟨p, hNonnull, hTask⟩
  unfold setTasks at hTask
  dsimp only at hTask
  by_cases hOwn : p = s.machine.currentCtx
  · rw [hOwn, Function.update_self] at hTask
    exact Or.inr ⟨hOwn ▸ hNonnull, hTask⟩
  · rw [Function.update_of_ne hOwn] at hTask
    exact Or.inl ⟨p, hNonnull, hTask⟩

/- It has the tasks that it had, or some that do not switch. -/
theorem pending_of_tasks
    (hTasks :
      ∀ target, .switchTo target ∈ tasks →
        .switchTo target ∈ s.current)
    (hPending :
      Pending { s.setTasks tasks with machine := m } target) :
    s.Pending target := by
  rcases pending_setTasks hPending with
    hBefore | ⟨hRunning, hTask⟩
  · exact hBefore
  · exact ⟨_, hRunning, hTasks target hTask⟩

/- The main program can neither block nor end. -/
theorem update?_running
    {f : Ctx → Ctx}
    (hUpdate :
      m.update? m.currentCtx f = some after) :
    m.currentCtx ≠ 0 ∧ after.currentCtx = m.currentCtx := by
  refine ⟨?_, (Machine.update?_globals hUpdate).2⟩
  rcases Machine.update?_cases hUpdate with ⟨_, hLive, _⟩
  exact (Machine.ctx?_eq_load hLive).1

/- A context to which no switch is pending changes its state. -/
theorem Settled.update
    {f : Ctx → Ctx}
    (hSettled : s.Settled)
    (hTasks :
      ∀ target, .switchTo target ∈ tasks →
        .switchTo target ∈ s.current)
    (hQuiet : ¬ s.Pending s.machine.currentCtx)
    (hUpdate :
      m.update? s.machine.currentCtx f = some after)
    (hSame : m.currentCtx = s.machine.currentCtx)
    (hView : m.view Ctx.etat = s.machine.view Ctx.etat) :
    Settled { s.setTasks tasks with machine := after } := by
  rw [← hSame] at hUpdate
  rcases update?_running hUpdate with ⟨hRunning, hCurrent⟩
  refine hSettled.of_calm
    (fun _ hTarget => Or.inl (pending_of_tasks hTasks hTarget))
    ?_ ?_
  · intro p hPending hCalm
    have hApart : p ≠ m.currentCtx := by
      rintro rfl
      rcases hPending with hBefore | hFirst
      · rw [hSame] at hBefore
        exact hQuiet hBefore
      · exact hRunning (hCurrent.symm.trans hFirst)
    refine hCalm.of_view ?_
    rw [← hView]
    exact Machine.view_update?_ne hUpdate hApart
  · exact fun hFirst =>
      absurd (hCurrent.symm.trans hFirst) hRunning

/- A new context is READY. -/
theorem Calm.createCtx
    {call : Call}
    {fresh : UInt64}
    (hCalm : Calm m p)
    (hBorn : m.Born libc call fresh after) :
    Calm after p := by
  by_cases hFresh : p = fresh
  · rw [hFresh]
    exact calm_of_etat hBorn.ready nofun nofun
  · exact hCalm.of_view
      (hBorn.others (fun _ _ => rfl) p hFresh)

/- `sem_up` makes a context ACTIVABLE, if any. -/
theorem Calm.semUp
    {sem sem' : Sem}
    (hCalm : Calm m p)
    (hUp : m.semUp sem = some (sem', after)) :
    Calm after p := by
  rcases Machine.semUp_parts hUp with
    ⟨_, _, rfl⟩ | ⟨_, woken, first, hUpdate, _, _, rfl⟩
  · exact hCalm
  · have hWoken : Calm woken p := by
      by_cases hFirst : p = sem.firstBlocked
      · rcases Machine.update?_cases hUpdate with
          ⟨_, _, _, hNew, _⟩
        rw [hFirst]
        exact calm_of_etat
          (congrArg (Option.map Ctx.etat) hNew) nofun nofun
      · have hSame :=
          Machine.view_update?_ne (v := Ctx.etat) hUpdate
            hFirst
        exact hCalm.of_view hSame
    exact hWoken

theorem semUp_currentCtx
    {sem sem' : Sem}
    (hUp : m.semUp sem = some (sem', after)) :
    after.currentCtx = m.currentCtx := by
  rcases Machine.semUp_parts hUp with
    ⟨_, _, rfl⟩ | ⟨_, woken, first, hUpdate, _, _, rfl⟩
  · rfl
  · exact (Machine.update?_globals hUpdate).2

/- A switch starts a context, if it is READY. -/
theorem Calm.switchToCtx
    (hCalm : Calm m p)
    (hSwitch : m.switchToCtx target = some after) :
    Calm after p := by
  rcases Machine.switchToCtx_starts hSwitch with
    ⟨etat, _, _, hEtat, _, _, _, hNew, hOthers⟩
  by_cases hTarget : p = target
  · subst hTarget
    unfold Calm at *
    rw [hEtat] at hCalm
    rw [hNew]
    split_ifs with hReady
    · simp
    · exact hCalm
  · exact hCalm.of_view (hOthers p hTarget)

/- The code of the running context makes a call. -/
theorem Settled.call
    {occurrence : Occurrence}
    (hSettled : s.Settled)
    (hQuiet : s.KeepsChosen occurrence)
    (hCall : s.call libc occurrence = some t) :
    t.Settled := by
  have hNoSwitch (task : Task)
      (hPlain : ∀ target, task ≠ .switchTo target)
      (target : UInt64)
      (hTask : .switchTo target ∈ [task]) :
      .switchTo target ∈ s.current :=
    absurd (List.mem_singleton.mp hTask).symm (hPlain target)
  cases occurrence with
  | createCtx call =>
      rcases Option.bind_eq_some_iff.mp hCall with
        ⟨⟨res, created⟩, hCreate, hResult⟩
      cases hResult
      rcases Machine.createCtx_born hCreate with
        ⟨fresh, hBorn⟩
      exact hSettled.of_calm (fun _ => Or.inl)
        (fun _ _ hCalm => hCalm.createCtx hBorn)
        hBorn.current.symm.trans
  | semDown a =>
      unfold Preempted.call at hCall
      dsimp only at hCall
      by_cases hToken : 1 ≤ (s.sems a).val
      · rw [if_pos hToken] at hCall
        rcases Option.bind_eq_some_iff.mp hCall with
          ⟨val, _, hResult⟩
        cases hResult
        exact ⟨hSettled.chosen, hSettled.first⟩
      · rw [if_neg hToken] at hCall
        rcases Option.bind_eq_some_iff.mp hCall with
          ⟨⟨sem, blocked⟩, hBlock, hResult⟩
        cases hResult
        rcases Option.bind_eq_some_iff.mp hBlock with
          ⟨chained, hUpdate, hRest⟩
        rcases Option.bind_eq_some_iff.mp hRest with
          ⟨val, _, hBlocked⟩
        cases hBlocked
        have hAfter :=
          hSettled.update
            (hNoSwitch .yield fun _ => nofun)
            (hQuiet.resolve_left hToken) hUpdate rfl rfl
        exact ⟨hAfter.chosen, hAfter.first⟩
  | semUp a =>
      rcases Option.bind_eq_some_iff.mp hCall with
        ⟨⟨sem, woken⟩, hUp, hResult⟩
      cases hResult
      exact hSettled.of_calm (fun _ => Or.inl)
        (fun _ _ hCalm => hCalm.semUp hUp)
        (semUp_currentCtx hUp).symm.trans
  | yield =>
      cases hCall
      exact hSettled.of_calm
        (fun _ hTarget => Or.inl
          (pending_of_tasks
            (hNoSwitch .yield fun _ => nofun) hTarget))
        (fun _ _ => id) id
  | returns =>
      unfold Preempted.call at hCall
      dsimp only at hCall
      by_cases hFirst : s.machine.currentCtx = 0
      · rw [if_pos hFirst] at hCall
        cases hCall
      · rw [if_neg hFirst] at hCall
        cases hCall
        exact hSettled.of_calm
          (fun _ hTarget => Or.inl
            (pending_of_tasks
              (hNoSwitch .ends fun _ => nofun) hTarget))
          (fun _ _ => id) id
  | timer => cases hCall
  | advance => cases hCall

/-
  The running context performs its next task.  The choice of
  `yield` can run when it is made.
-/
theorem Settled.perform
    (hSettled : s.Settled)
    (hQuiet : s.KeepsChosen .advance)
    (hStep : s.perform s.current = some t) :
    t.Settled := by
  cases hTasks : s.current with
  | nil =>
      rw [hTasks] at hStep
      cases hStep
  | cons task rest =>
      rw [hTasks] at hStep
      have hRest (target : UInt64)
          (hTask : .switchTo target ∈ rest) :
          .switchTo target ∈ s.current := by
        rw [hTasks]
        exact List.mem_cons_of_mem task hTask
      cases task with
      | yield =>
          rcases Option.bind_eq_some_iff.mp hStep with
            ⟨scan, hChoice, hResult⟩
          cases scan with
          | exits => cases hResult
          | switches target m =>
              cases hResult
              rcases chooseNext_cases hChoice with
                ⟨hFrame, hTarget⟩
              have hKept (p : UInt64)
                  (hCalm : Calm s.machine p) :
                  Calm m p := by
                rw [hFrame]
                exact hCalm
              refine hSettled.of_calm ?_
                (fun p _ => hKept p) ?_
              · intro other hPending
                rcases pending_setTasks hPending with
                  hBefore | ⟨hRunning, hTask⟩
                · exact Or.inl hBefore
                rcases List.mem_cons.mp hTask with
                  hNew | hTask
                · right
                  cases hNew
                  rcases hTarget.resolve_left hRunning with
                    ⟨c, hLive, hEnded, hWaiting⟩
                  apply hKept
                  exact calm_of_etat
                    (congrArg (Option.map Ctx.etat) hLive)
                    hEnded hWaiting
                · exact Or.inl ⟨_, hRunning, hRest _ hTask⟩
              · intro hFirst
                rw [hFrame] at hFirst
                exact hFirst
      | switchTo target =>
          rcases Option.bind_eq_some_iff.mp hStep with
            ⟨m, hSwitch, hResult⟩
          cases hResult
          rcases Machine.switchToCtx_keeps hSwitch with
            ⟨_, hCurrent, hLive⟩
          rcases Option.isSome_iff_exists.mp hLive with
            ⟨c, hLive⟩
          have hNonnull := (Machine.ctx?_eq_load hLive).1
          exact hSettled.of_calm
            (fun _ hTarget =>
              Or.inl (pending_of_tasks hRest hTarget))
            (fun _ _ hCalm => hCalm.switchToCtx hSwitch)
            (fun hFirst =>
              absurd (hCurrent.symm.trans hFirst) hNonnull)
      | ends =>
          rcases Option.bind_eq_some_iff.mp hStep with
            ⟨m, hUpdate, hResult⟩
          cases hResult
          have hOthers (target : UInt64)
              (hTask :
                .switchTo target ∈
                  .yield :: .lost :: rest) :
              .switchTo target ∈ s.current := by
            apply hRest
            simpa using hTask
          refine hSettled.update hOthers (hQuiet ?_) hUpdate
            rfl rfl
          rw [hTasks]
          rfl
      | lost => cases hStep

theorem Settled.step
    {occurrence : Occurrence}
    (hSettled : s.Settled)
    (hQuiet : s.KeepsChosen occurrence)
    (hStep : step libc s occurrence = some t) :
    t.Settled := by
  cases occurrence with
  | timer =>
      unfold Preempted.step at hStep
      by_cases hMask : s.machine.mask = 1
      · rw [if_pos hMask] at hStep
        cases hStep
        have hYield (target : UInt64)
            (hTask :
              .switchTo target ∈ .yield :: s.current) :
            .switchTo target ∈ s.current := by
          simpa using hTask
        exact hSettled.of_calm
          (fun _ hTarget =>
            Or.inl (pending_of_tasks hYield hTarget))
          (fun _ _ => id) id
      · rw [if_neg hMask] at hStep
        cases hStep
  | advance => exact hSettled.perform hQuiet hStep
  | _ =>
      unfold Preempted.step at hStep
      dsimp only at hStep
      by_cases hIdle : s.current = []
      · rw [if_pos hIdle] at hStep
        exact hSettled.call hQuiet hStep
      · rw [if_neg hIdle] at hStep
        cases hStep

/-
  When no context blocks or ends while a switch to it is
  pending, no context that waits or that is terminated is
  switched to.
-/
theorem switch_target_runnable
    (libc : CLib)
    (cpu : Regs)
    (vals : UInt64 → UInt32)
    (occurrences : List Occurrence)
    (hQuiet :
      Always (step libc) (boot cpu vals) occurrences
        KeepsChosen) :
    Always (step libc) (boot cpu vals) occurrences
      SwitchOk := by
  intro u occurrence hPerforms
  have hSettled : u.Settled := by
    refine reached_invariant Settled (settled_boot cpu vals)
      ?_ hPerforms.reached
    intro v o w hExecuted hBefore hNext
    exact hBefore.step (hQuiet v o hExecuted) hNext
  exact hSettled.switchOk occurrence

/- Nothing blocks or ends at all in this step. -/
def goesOn
    (s : Preempted) : Occurrence → Bool
| .semDown a => 1 ≤ (s.sems a).val
| .advance => s.current.head? ≠ some .ends
| _ => true

theorem keepsChosen_of_goesOn
    {occurrence : Occurrence}
    (hGoesOn : s.goesOn occurrence = true) :
    s.KeepsChosen occurrence := by
  cases occurrence with
  | semDown a => exact Or.inl (of_decide_eq_true hGoesOn)
  | advance =>
      exact fun hEnds =>
        absurd hEnds (of_decide_eq_true hGoesOn)
  | _ => trivial

/-
  Two contexts, with a timer interrupt before the first switch
  and one between a choice and its switch.
-/
theorem switch_target_runnable_main :
    Always (step plainLib) (boot ⟨0x9000, 0x9000⟩ fun _ => 3)
      [.createCtx ⟨0x4000, 0x401000, 0⟩,
        .createCtx ⟨0x4000, 0x402000, 0⟩,
        .timer, .advance, .advance, .semDown 0, .yield,
        .advance, .timer, .advance, .advance, .semDown 0]
      SwitchOk := by
  have hGoesOn :
      Always (step plainLib)
        (boot ⟨0x9000, 0x9000⟩ fun _ => 3)
        [.createCtx ⟨0x4000, 0x401000, 0⟩,
          .createCtx ⟨0x4000, 0x402000, 0⟩,
          .timer, .advance, .advance, .semDown 0, .yield,
          .advance, .timer, .advance, .advance, .semDown 0]
        (fun s occurrence => s.goesOn occurrence = true) := by
    decide
  exact switch_target_runnable _ _ _ _
    fun s occurrence hPerforms =>
      keepsChosen_of_goesOn (hGoesOn s occurrence hPerforms)

/-
  A context has chosen the second one when the timer lets this
  one run; it blocks, and then the switch to it is made.
-/
theorem switch_to_waiting :
    ¬ ∀ libc cpu vals occurrences,
      Always (step libc) (boot cpu vals) occurrences
        SwitchOk := by
  intro hAll
  have hChosen :
      ∃ u ∈ run (step plainLib)
          (boot ⟨0x9000, 0x9000⟩ fun _ => 0)
          [.createCtx ⟨0x4000, 0x401000, 0⟩,
            .createCtx ⟨0x4000, 0x402000, 0⟩,
            .timer, .advance, .advance,
            .yield, .advance,
            .timer, .advance, .advance,
            .semDown 0, .advance, .advance],
        u.current = [.switchTo 32] ∧
          u.machine.view Ctx.etat 32 = some .waiting := by
    decide
  rcases hChosen with ⟨u, hRun, hNext, hWaiting⟩
  have hOk :=
    hAll plainLib ⟨0x9000, 0x9000⟩ (fun _ => 0) _ u .advance
      ⟨_, [], rfl, hRun⟩
  exact (hOk 32 [] hNext).1 hWaiting

end Preempted

end Scheduler

end AsaKernel
