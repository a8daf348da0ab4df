import AsaKernel.Foundations.Heap
import AsaKernel.Foundations.Ring
import AsaKernel.Foundations.Transition

/-
  The user-level contexts and their scheduler (TP3.c).

  Contexts live in memory of the C library and are linked in a
  circular list.  The bytes of their stacks are not modelled,
  and an entry function is given by its address.  Access
  through a pointer to no live context is undefined.

  `yield` looks for the next context that may run.  A
  terminated context that it meets is unlinked and given back,
  and the link of this context is read afterwards.

  Main declarations:
    * `Ctx`, `CLib`, `Machine`
    * `Machine.createCtx`, `Machine.switchToCtx`
    * `Machine.yieldLoop`, `Machine.yield`
    * `Machine.view`, `Stable`, `Machine.Keeps`
    * `Machine.yieldLoop_switches`, `Machine.yield_keeps`
    * `Machine.boot`, `pingPong`
-/

------------------------------------------------------------
-- Contexts
------------------------------------------------------------

namespace AsaKernel

namespace Scheduler

/- enum etat_t -/
inductive Etat where
  | ready
  | activable
  | terminated
  | waiting
deriving DecidableEq, Repr

/- The stack registers of the CPU, or their copies. -/
structure Regs where
  rsp : UInt64
  rbp : UInt64
deriving DecidableEq, Repr

/- struct ctx_s -/
structure Ctx where
  copie : Regs
  magic : UInt32
  args : UInt64
  stack : UInt64
  entryPoint : UInt64
  etat : Etat
  next : UInt64
  nextBlocked : UInt64
deriving DecidableEq, Repr

/- MAGIC -/
def magicNumber : UInt32 := 0xDEADBEEF

/-
  The memory of the C library: where contexts are placed, what
  a block holds before it is written, and where a stack of a
  given size is placed (null when there is no room).
-/
structure CLib where
  ctxs : Allocator Ctx
  leftover : Nat → Ctx
  stack : Nat → UInt64 → UInt64

/-
  The contexts, the globals `ctx_ring` and `current_ctx`, the
  CPU with its interrupt mask, and the calls of entry
  functions made so far, each with its context and argument.
-/
structure Machine where
  heap : Heap Ctx
  ctxRing : UInt64
  currentCtx : UInt64
  cpu : Regs
  mask : Int32
  entered : List (UInt64 × UInt64 × UInt64)

namespace Machine

/- The context that a pointer designates. -/
def ctx?
    (m : Machine)
    (p : UInt64) : Option Ctx :=
  if p = 0 then none else m.heap.load p

/- Assign fields of the context that a pointer designates. -/
def update?
    (m : Machine)
    (p : UInt64)
    (f : Ctx → Ctx) : Option Machine := do
  let ctx ← m.ctx? p
  let heap ← m.heap.store p (f ctx)
  some { m with heap := heap }

/- irq_enable -/
def irqEnable
    (m : Machine) : Machine :=
  { m with mask := 1 }

/- irq_disable -/
def irqDisable
    (m : Machine) : Machine :=
  { m with mask := 15 }

------------------------------------------------------------
-- Creation and Switch
------------------------------------------------------------

/- The link of a new context, the first or a further one. -/
def insertCtx
    (ctx : UInt64)
    (m : Machine) : Option Machine :=
  if m.ctxRing = 0 then do
    let m ← m.update? ctx fun c => { c with next := ctx }
    some { m with ctxRing := ctx }
  else do
    let ring ← m.ctx? m.ctxRing
    let m ← m.update? ctx fun c =>
      { c with next := ring.next }
    m.update? m.ctxRing fun c => { c with next := ctx }

/-
  create_ctx; the pointer that `malloc` returns is used
  without a test, and `args` is not assigned
-/
def createCtx
    (libc : CLib)
    (stackSize : Int32)
    (f _args : UInt64)
    (m : Machine) : Option (Int32 × Machine) := do
  let m := m.irqDisable
  let (ctx, heap) ←
    m.heap.alloc libc.ctxs (libc.leftover m.heap.calls)
  let m ← insertCtx ctx { m with heap := heap }
  let size := stackSize.toInt64.toUInt64
  let stack := libc.stack m.heap.calls size
  let m := { m with heap := m.heap.scratch }
  let m ← m.update? ctx fun c =>
    { c with
      magic := magicNumber
      stack := stack
      entryPoint := f
      etat := .ready
      copie := ⟨stack + size - 8, stack + size - 8⟩
      nextBlocked := 0 }
  some (0, m.irqEnable)

/- The first block of assembly of `switch_to_ctx`. -/
def saveCurrent
    (m : Machine) : Option Machine :=
  if m.currentCtx ≠ 0 then
    m.update? m.currentCtx fun c =>
      { c with copie := m.cpu }
  else some m

/- The second block: the registers are loaded. -/
def loadCurrent
    (m : Machine) : Option Machine := do
  let ctx ← m.ctx? m.currentCtx
  some { m with cpu := ctx.copie }

/-
  A context that never ran is started with a call of its
  entry function, with interrupts enabled.
-/
def startIfReady
    (m : Machine) : Option Machine := do
  let ctx ← m.ctx? m.currentCtx
  if ctx.etat = .ready then
    let m ← m.update? m.currentCtx fun c =>
      { c with etat := .activable }
    some
      { m with
        entered :=
          m.entered ++
            [(m.currentCtx, ctx.entryPoint, ctx.args)] }
  else some m

/- switch_to_ctx, up to the call of an entry function -/
def switchToCtx
    (ctx : UInt64)
    (m : Machine) : Option Machine := do
  let m ← m.irqDisable.saveCurrent
  let m := { m with currentCtx := ctx }
  let m ← m.loadCurrent
  let m ← m.startIfReady
  some m.irqEnable

------------------------------------------------------------
-- The Scheduler
------------------------------------------------------------

/- The loop of `yield` ends the program or finds a context. -/
inductive Scan where
  | exits
  | switches (target : UInt64) (m : Machine)

/- What a call that may end the program leaves. -/
inductive Outcome where
  | exited (status : Int32)
  | running (m : Machine)

/- The machine on which the program continues. -/
def Outcome.running? :
    Outcome → Option Machine
| .exited _ => none
| .running m => some m

/- Unlink a terminated context and give it back. -/
def removeCtx
    (precedent target : UInt64)
    (m : Machine) : Option Machine := do
  let ctx ← m.ctx? target
  let m :=
    if m.ctxRing = target then
      { m with ctxRing := ctx.next }
    else m
  let m ← m.update? precedent fun c =>
    { c with next := ctx.next }
  some { m with heap := m.heap.release target }

/-
  The loop of `yield`, with enough fuel for a walk over all
  contexts.
-/
def yieldLoop :
    Nat → UInt64 → UInt64 → Machine → Option Scan
| 0, _, _, _ => none
| fuel + 1, precedent, target, m => do
    let ctx ← m.ctx? target
    if ctx.etat = .terminated ∨ ctx.etat = .waiting then
      if target = m.currentCtx then some .exits
      else
        let m ←
          if ctx.etat = .terminated then
            m.removeCtx precedent target
          else some m
        -- `target` is read although it may be given back.
        let ctx ← m.ctx? target
        yieldLoop fuel target ctx.next m
    else some (.switches target m)

/- The switch at the end of `yield`. -/
def yieldTo
    (target : UInt64)
    (m : Machine) : Option Outcome := do
  let m ← m.switchToCtx target
  some (.running m)

/- yield -/
def yield
    (m : Machine) : Option Outcome :=
  if m.currentCtx = 0 then m.yieldTo m.ctxRing
  else do
    let m := m.irqDisable
    let ctx ← m.ctx? m.currentCtx
    let scan ←
      m.yieldLoop (m.heap.size + 1) m.currentCtx ctx.next
    match scan with
    | .exits => some (.exited 1)
    | .switches target m => m.irqEnable.yieldTo target

------------------------------------------------------------
-- Views of the Contexts
------------------------------------------------------------

/- One aspect of the live contexts. -/
def view
    {β : Type}
    (v : Ctx → β)
    (m : Machine)
    (p : UInt64) : Option β :=
  (m.ctx? p).map v

variable {m after : Machine} {p q : UInt64} {c : Ctx}
variable {f : Ctx → Ctx} {β : Type} {v : Ctx → β}

@[simp] theorem view_null :
    m.view v 0 = none := by
  simp [view, ctx?]

theorem ctx?_eq_load
    (hLive : m.ctx? p = some c) :
    p ≠ 0 ∧ m.heap.load p = some c := by
  by_cases hNull : p = 0
  · rw [ctx?, if_pos hNull] at hLive
    cases hLive
  · rw [ctx?, if_neg hNull] at hLive
    exact ⟨hNull, hLive⟩

/- An assignment changes one context and nothing else. -/
theorem update?_spec
    (hLive : m.ctx? p = some c)
    (f : Ctx → Ctx) :
    ∃ after,
      m.update? p f = some after ∧
      after = { m with heap := after.heap } ∧
      after.ctx? p = some (f c) ∧
      ∀ q, q ≠ p → after.ctx? q = m.ctx? q := by
  rcases ctx?_eq_load hLive with ⟨hNonnull, hLoad⟩
  rcases Heap.store_spec hLoad (f c) with
    ⟨heap, hStore, hNew, hOthers, _⟩
  refine ⟨{ m with heap := heap }, ?_, rfl, ?_, ?_⟩
  · unfold update?
    simp only [hLive, hStore, Option.bind_eq_bind,
      Option.bind_some]
  · exact (if_neg hNonnull).trans hNew
  · intro q hNe
    unfold ctx?
    by_cases hq : q = 0
    · rw [if_pos hq, if_pos hq]
    · rw [if_neg hq, if_neg hq]
      exact hOthers q hNe

/- An assignment needs a live context. -/
theorem update?_cases
    (hUpdate : m.update? p f = some after) :
    ∃ c,
      m.ctx? p = some c ∧
      after = { m with heap := after.heap } ∧
      after.ctx? p = some (f c) ∧
      ∀ q, q ≠ p → after.ctx? q = m.ctx? q := by
  rcases Option.bind_eq_some_iff.mp hUpdate with
    ⟨c, hLive, _⟩
  rcases update?_spec hLive f with ⟨after', hUpdate', hSpec⟩
  cases hUpdate.symm.trans hUpdate'
  exact ⟨c, hLive, hSpec⟩

theorem update?_globals
    (hUpdate : m.update? p f = some after) :
    after.ctxRing = m.ctxRing ∧
      after.currentCtx = m.currentCtx := by
  rcases update?_cases hUpdate with ⟨_, _, hFrame, _⟩
  rw [hFrame]
  exact ⟨rfl, rfl⟩

theorem update?_entered
    (hUpdate : m.update? p f = some after) :
    after.entered = m.entered := by
  rcases update?_cases hUpdate with ⟨_, _, hFrame, _⟩
  rw [hFrame]

theorem view_update?_self
    (hUpdate : m.update? p f = some after) :
    after.view v p = m.view (fun c => v (f c)) p := by
  rcases update?_cases hUpdate with ⟨c, hLive, _, hNew, _⟩
  unfold view
  rw [hLive, hNew]
  rfl

theorem view_update?_ne
    (hUpdate : m.update? p f = some after)
    (hNe : q ≠ p) :
    after.view v q = m.view v q := by
  rcases update?_cases hUpdate with
    ⟨_, _, _, _, hOthers⟩
  unfold view
  rw [hOthers q hNe]

/- Aspects that the assignment does not concern stay. -/
theorem view_update?
    (hUpdate : m.update? p f = some after)
    (hSame : ∀ c, m.ctx? p = some c → v (f c) = v c) :
    after.view v = m.view v := by
  funext q
  by_cases hq : q = p
  · subst hq
    rw [view_update?_self hUpdate]
    unfold view
    cases hLive : m.ctx? q with
    | none => rfl
    | some c => rw [Option.map_some, Option.map_some,
        hSame c hLive]
  · exact view_update?_ne hUpdate hq

end Machine

------------------------------------------------------------
-- What a Switch Keeps
------------------------------------------------------------

/-
  An aspect that does not depend on the copied registers, nor
  on whether a context has run yet.
-/
structure Stable
    {β : Type}
    (v : Ctx → β) : Prop where
  copie : ∀ c r, v { c with copie := r } = v c
  started :
    ∀ c, c.etat = .ready →
      v { c with etat := .activable } = v c

namespace Ctx

/- The context waits for a semaphore. -/
def waits
    (c : Ctx) : Bool :=
  c.etat == .waiting

/- The entry function of the context has returned. -/
def ended
    (c : Ctx) : Bool :=
  c.etat == .terminated

/- The test of `yield` fails, and the context can run. -/
def Runnable
    (c : Ctx) : Prop :=
  c.etat ≠ .terminated ∧ c.etat ≠ .waiting

instance (c : Ctx) : Decidable c.Runnable :=
  inferInstanceAs (Decidable (_ ∧ _))

theorem stable_next : Stable Ctx.next where
  copie _ _ := rfl
  started _ _ := rfl

theorem stable_nextBlocked : Stable Ctx.nextBlocked where
  copie _ _ := rfl
  started _ _ := rfl

theorem stable_waits : Stable waits where
  copie _ _ := rfl
  started c hReady := by
    simp [waits, hReady]

end Ctx

namespace Machine

/- The context at this address waits for a semaphore. -/
def Waits
    (m : Machine)
    (p : UInt64) : Prop :=
  m.view Ctx.waits p = some true

/- The context at this address is terminated. -/
def Ended
    (m : Machine)
    (p : UInt64) : Prop :=
  m.view Ctx.ended p = some true

instance (m : Machine) (p : UInt64) :
    Decidable (m.Waits p) :=
  inferInstanceAs (Decidable (_ = _))

instance (m : Machine) (p : UInt64) :
    Decidable (m.Ended p) :=
  inferInstanceAs (Decidable (_ = _))

variable {m after last : Machine} {p q target : UInt64}
variable {c : Ctx} {β : Type} {v : Ctx → β}

theorem waits_iff
    (hLive : m.ctx? p = some c) :
    m.Waits p ↔ c.etat = .waiting := by
  unfold Waits view
  rw [hLive, Option.map_some, Option.some.injEq, Ctx.waits,
    beq_iff_eq]

theorem ended_iff
    (hLive : m.ctx? p = some c) :
    m.Ended p ↔ c.etat = .terminated := by
  unfold Ended view
  rw [hLive, Option.map_some, Option.some.injEq, Ctx.ended,
    beq_iff_eq]

/- The same contexts, in the same list, in stable aspects. -/
structure Keeps
    (m after : Machine) : Prop where
  ring : after.ctxRing = m.ctxRing
  view :
    ∀ {β : Type} {v : Ctx → β},
      Stable v → after.view v = m.view v

theorem Keeps.refl :
    m.Keeps m where
  ring := rfl
  view _ := rfl

theorem Keeps.trans
    (hFirst : m.Keeps after)
    (hSecond : after.Keeps last) :
    m.Keeps last where
  ring := hSecond.ring.trans hFirst.ring
  view hStable :=
    (hSecond.view hStable).trans (hFirst.view hStable)

/- The same contexts are live. -/
theorem Keeps.isSome
    (hKeeps : m.Keeps after)
    (p : UInt64) :
    (after.ctx? p).isSome = (m.ctx? p).isSome := by
  have hView := congrFun (hKeeps.view Ctx.stable_next) p
  have hSome := congrArg Option.isSome hView
  unfold Machine.view at hSome
  rwa [Option.isSome_map, Option.isSome_map] at hSome

/- The copy of the registers is no stable aspect. -/
theorem saveCurrent_keeps
    (hSave : m.saveCurrent = some after) :
    m.Keeps after ∧ after.currentCtx = m.currentCtx := by
  unfold saveCurrent at hSave
  by_cases hCurrent : m.currentCtx ≠ 0
  · rw [if_pos hCurrent] at hSave
    rcases update?_globals hSave with ⟨hRing, hSame⟩
    refine ⟨⟨hRing, ?_⟩, hSame⟩
    intro β v hStable
    exact view_update? hSave
      fun c _ => hStable.copie c m.cpu
  · rw [if_neg hCurrent] at hSave
    cases hSave
    exact ⟨Keeps.refl, rfl⟩

/- Neither is the start of a context. -/
theorem startIfReady_keeps
    (hStart : m.startIfReady = some after) :
    m.Keeps after ∧ after.currentCtx = m.currentCtx := by
  rcases Option.bind_eq_some_iff.mp hStart with
    ⟨c, hLive, hStart⟩
  by_cases hReady : c.etat = .ready
  · rw [if_pos hReady] at hStart
    rcases Option.bind_eq_some_iff.mp hStart with
      ⟨started, hUpdate, hAfter⟩
    cases hAfter
    rcases update?_globals hUpdate with ⟨hRing, hSame⟩
    refine ⟨⟨hRing, ?_⟩, hSame⟩
    intro β v hStable
    have hView : started.view v = m.view v := by
      refine view_update? hUpdate fun c' hLive' => ?_
      cases hLive.symm.trans hLive'
      exact hStable.started c hReady
    exact hView
  · rw [if_neg hReady] at hStart
    cases hStart
    exact ⟨Keeps.refl, rfl⟩

/- The parts of a switch, one after the other. -/
theorem switchToCtx_parts
    (hSwitch : m.switchToCtx target = some after) :
    ∃ saved c started,
      m.irqDisable.saveCurrent = some saved ∧
      saved.ctx? target = some c ∧
      startIfReady
          { saved with currentCtx := target, cpu := c.copie } =
        some started ∧
      after = started.irqEnable := by
  rcases Option.bind_eq_some_iff.mp hSwitch with
    ⟨saved, hSave, hSwitch⟩
  rcases Option.bind_eq_some_iff.mp hSwitch with
    ⟨loaded, hLoad, hSwitch⟩
  rcases Option.bind_eq_some_iff.mp hLoad with
    ⟨c, hLive, hLoaded⟩
  rcases Option.bind_eq_some_iff.mp hSwitch with
    ⟨started, hStart, hAfter⟩
  cases hLoaded
  cases hAfter
  exact ⟨saved, c, started, hSave, hLive, hStart, rfl⟩

/- A switch goes to a live context, which is then current. -/
theorem switchToCtx_keeps
    (hSwitch : m.switchToCtx target = some after) :
    m.Keeps after ∧ after.currentCtx = target ∧
      (m.ctx? target).isSome := by
  rcases switchToCtx_parts hSwitch with
    ⟨saved, c, started, hSave, hLive, hStart, rfl⟩
  rcases saveCurrent_keeps hSave with ⟨hSaved, _⟩
  rcases startIfReady_keeps hStart with
    ⟨hStarted, hTarget⟩
  refine ⟨⟨?_, ?_⟩, hTarget, ?_⟩
  · exact hStarted.ring.trans hSaved.ring
  · intro β v hStable
    exact (hStarted.view hStable).trans
      (hSaved.view hStable)
  · refine (hSaved.isSome target).symm.trans ?_
    exact Option.isSome_iff_exists.mpr ⟨c, hLive⟩

/- The copy of the registers changes no other field. -/
theorem saveCurrent_view
    (hCopie : ∀ c r, v { c with copie := r } = v c)
    (hSave : m.saveCurrent = some after) :
    after.view v = m.view v ∧ after.entered = m.entered := by
  unfold saveCurrent at hSave
  by_cases hCurrent : m.currentCtx ≠ 0
  · rw [if_pos hCurrent] at hSave
    refine ⟨?_, update?_entered hSave⟩
    exact view_update? hSave fun c _ => hCopie c m.cpu
  · rw [if_neg hCurrent] at hSave
    cases hSave
    exact ⟨rfl, rfl⟩

/-
  A switch calls the entry function of a context that never
  ran, and changes the state of no other context.
-/
theorem switchToCtx_starts
    (hSwitch : m.switchToCtx target = some after) :
    ∃ etat f args,
      m.view Ctx.etat target = some etat ∧
      m.view Ctx.entryPoint target = some f ∧
      m.view Ctx.args target = some args ∧
      after.entered =
        m.entered ++
          (if etat = .ready then [(target, f, args)]
            else []) ∧
      after.view Ctx.etat target =
        some (if etat = .ready then .activable else etat) ∧
      ∀ q, q ≠ target →
        after.view Ctx.etat q = m.view Ctx.etat q := by
  rcases switchToCtx_parts hSwitch with
    ⟨saved, c, started, hSave, hLive, hStart, rfl⟩
  have hCalls : saved.entered = m.entered :=
    (saveCurrent_view (v := Ctx.etat) (fun _ _ => rfl)
      hSave).2
  have hEtats : saved.view Ctx.etat = m.view Ctx.etat :=
    (saveCurrent_view (fun _ _ => rfl) hSave).1
  have hEntries :
      saved.view Ctx.entryPoint = m.view Ctx.entryPoint :=
    (saveCurrent_view (fun _ _ => rfl) hSave).1
  have hArgs : saved.view Ctx.args = m.view Ctx.args :=
    (saveCurrent_view (fun _ _ => rfl) hSave).1
  refine ⟨c.etat, c.entryPoint, c.args, ?_, ?_, ?_, ?_⟩
  · rw [← hEtats]
    exact congrArg (Option.map Ctx.etat) hLive
  · rw [← hEntries]
    exact congrArg (Option.map Ctx.entryPoint) hLive
  · rw [← hArgs]
    exact congrArg (Option.map Ctx.args) hLive
  · rcases Option.bind_eq_some_iff.mp hStart with
      ⟨c', hLive', hStart⟩
    cases hLive.symm.trans hLive'
    by_cases hReady : c.etat = .ready
    · rw [if_pos hReady] at hStart
      rcases Option.bind_eq_some_iff.mp hStart with
        ⟨running, hUpdate, hRunning⟩
      cases hRunning
      rcases update?_cases hUpdate with ⟨_, _, _, hNew, _⟩
      have hLog : running.entered = m.entered :=
        (update?_entered hUpdate).trans hCalls
      have hTarget : running.currentCtx = target :=
        (update?_globals hUpdate).2
      rw [if_pos hReady, if_pos hReady, ← hLog]
      refine ⟨?_, congrArg (Option.map Ctx.etat) hNew, ?_⟩
      · exact congrArg
          (fun p =>
            running.entered ++ [(p, c.entryPoint, c.args)])
          hTarget
      · intro q hNe
        have hOther :=
          view_update?_ne (v := Ctx.etat) hUpdate hNe
        exact hOther.trans (congrFun hEtats q)
    · rw [if_neg hReady] at hStart
      cases hStart
      rw [if_neg hReady, if_neg hReady, List.append_nil]
      refine ⟨hCalls, ?_, fun q _ => congrFun hEtats q⟩
      exact congrArg (Option.map Ctx.etat) hLive

/- The registers can be saved, unless the context was lost. -/
theorem saveCurrent_defined
    (hCurrent :
      m.currentCtx = 0 ∨ (m.ctx? m.currentCtx).isSome) :
    ∃ saved, m.saveCurrent = some saved := by
  unfold saveCurrent
  rcases hCurrent with hNull | hLive
  · exact ⟨m, if_neg (not_not.mpr hNull)⟩
  · rcases Option.isSome_iff_exists.mp hLive with
      ⟨c, hLive⟩
    rcases update?_spec hLive
        (fun c => { c with copie := m.cpu }) with
      ⟨saved, hUpdate, _⟩
    rw [if_pos (ctx?_eq_load hLive).1]
    exact ⟨saved, hUpdate⟩

/- A live current context can be started. -/
theorem startIfReady_defined
    (hLive : m.ctx? m.currentCtx = some c) :
    ∃ started, m.startIfReady = some started := by
  unfold startIfReady
  rw [hLive, Option.bind_eq_bind, Option.bind_some]
  by_cases hReady : c.etat = .ready
  · rcases update?_spec hLive
        (fun c => { c with etat := .activable }) with
      ⟨started, hUpdate, _⟩
    rw [if_pos hReady, hUpdate]
    exact ⟨_, rfl⟩
  · rw [if_neg hReady]
    exact ⟨m, rfl⟩

/-
  A live context can be switched to, unless the current one
  was lost.
-/
theorem switchToCtx_defined
    (hTarget : (m.ctx? target).isSome)
    (hCurrent :
      m.currentCtx = 0 ∨ (m.ctx? m.currentCtx).isSome) :
    ∃ after, m.switchToCtx target = some after := by
  rcases saveCurrent_defined (m := m.irqDisable) hCurrent
    with ⟨saved, hSave⟩
  have hLive : (saved.ctx? target).isSome := by
    rw [(saveCurrent_keeps hSave).1.isSome]
    exact hTarget
  rcases Option.isSome_iff_exists.mp hLive with ⟨c, hLive⟩
  let entered : Machine := { saved with currentCtx := target }
  let loaded : Machine := { entered with cpu := c.copie }
  have hLoad : entered.loadCurrent = some loaded :=
    Option.bind_eq_some_iff.mpr ⟨c, hLive, rfl⟩
  rcases startIfReady_defined (m := loaded) hLive with
    ⟨started, hStart⟩
  refine ⟨started.irqEnable, ?_⟩
  apply Option.bind_eq_some_iff.mpr
  refine ⟨saved, hSave, ?_⟩
  apply Option.bind_eq_some_iff.mpr
  refine ⟨loaded, hLoad, ?_⟩
  apply Option.bind_eq_some_iff.mpr
  exact ⟨started, hStart, rfl⟩

------------------------------------------------------------
-- The Loop of `yield`
------------------------------------------------------------

variable {precedent : UInt64} {fuel : Nat}

/- What was given back cannot be read. -/
theorem removeCtx_released
    (hRemove : m.removeCtx precedent target = some after) :
    after.ctx? target = none := by
  rcases Option.bind_eq_some_iff.mp hRemove with
    ⟨c, _, hRemove⟩
  rcases Option.bind_eq_some_iff.mp hRemove with
    ⟨unlinked, _, hAfter⟩
  cases hAfter
  unfold ctx?
  by_cases hNull : target = 0
  · rw [if_pos hNull]
  · rw [if_neg hNull]
    exact Heap.load_release_self

/- The walk ends at a context that can run. -/
theorem yieldLoop_runnable
    (hLive : m.ctx? target = some c)
    (hRunnable : c.Runnable) :
    yieldLoop (fuel + 1) precedent target m =
      some (.switches target m) := by
  unfold yieldLoop
  rw [hLive, Option.bind_eq_bind, Option.bind_some, if_neg]
  exact not_or.mpr hRunnable

/- It ends the program when it comes back. -/
theorem yieldLoop_back
    (hLive : m.ctx? target = some c)
    (hBlocked : ¬ c.Runnable)
    (hBack : target = m.currentCtx) :
    yieldLoop (fuel + 1) precedent target m =
      some .exits := by
  unfold yieldLoop
  rw [hLive, Option.bind_eq_bind, Option.bind_some, if_pos,
    if_pos hBack]
  rwa [Ctx.Runnable, not_and_or, not_not, not_not]
    at hBlocked

/- It passes a context that waits. -/
theorem yieldLoop_waiting
    (hLive : m.ctx? target = some c)
    (hWaiting : c.etat = .waiting)
    (hAway : target ≠ m.currentCtx) :
    yieldLoop (fuel + 1) precedent target m =
      yieldLoop fuel target c.next m := by
  conv_lhs => unfold yieldLoop
  have hKept : c.etat ≠ .terminated := by
    rw [hWaiting]
    exact Etat.noConfusion
  rw [hLive, Option.bind_eq_bind, Option.bind_some,
    if_pos (Or.inr hWaiting), if_neg hAway, if_neg hKept,
    Option.bind_eq_bind, Option.bind_some]
  dsimp only
  rw [hLive, Option.bind_some]

/- It reads a terminated context that was given back. -/
theorem yieldLoop_ended
    (hLive : m.ctx? target = some c)
    (hEnded : c.etat = .terminated)
    (hAway : target ≠ m.currentCtx) :
    yieldLoop (fuel + 1) precedent target m = none := by
  unfold yieldLoop
  rw [hLive, Option.bind_eq_bind, Option.bind_some,
    if_pos (Or.inl hEnded), if_neg hAway, if_pos hEnded]
  cases hRemove : m.removeCtx precedent target with
  | none => rfl
  | some after =>
      rw [Option.bind_eq_bind, Option.bind_some]
      dsimp only
      rw [removeCtx_released hRemove, Option.bind_none]

/- A context is found as it is, with nothing unlinked. -/
theorem yieldLoop_switches
    (hScan :
      yieldLoop fuel precedent target m =
        some (.switches q after)) :
    after = m ∧ ∃ c, m.ctx? q = some c ∧ c.Runnable := by
  induction fuel generalizing precedent target with
  | zero => cases hScan
  | succ fuel ih =>
      cases hLive : m.ctx? target with
      | none =>
          unfold yieldLoop at hScan
          rw [hLive] at hScan
          cases hScan
      | some c =>
          by_cases hRunnable : c.Runnable
          · rw [yieldLoop_runnable hLive hRunnable] at hScan
            cases hScan
            exact ⟨rfl, c, hLive, hRunnable⟩
          by_cases hBack : target = m.currentCtx
          · rw [yieldLoop_back hLive hRunnable hBack]
              at hScan
            cases hScan
          by_cases hEnded : c.etat = .terminated
          · rw [yieldLoop_ended hLive hEnded hBack] at hScan
            cases hScan
          have hWaiting : c.etat = .waiting := by
            rw [Ctx.Runnable, not_and_or, not_not, not_not]
              at hRunnable
            exact hRunnable.resolve_left hEnded
          rw [yieldLoop_waiting hLive hWaiting hBack]
            at hScan
          exact ih hScan

/- A call of `yield` that goes on ends with a switch. -/
theorem yield_switches
    (hYield : m.yield = some (.running after)) :
    ∃ (base : Machine) (target : UInt64),
      base = { m with mask := base.mask } ∧
      base.switchToCtx target = some after := by
  unfold yield at hYield
  by_cases hFirst : m.currentCtx = 0
  · rw [if_pos hFirst] at hYield
    rcases Option.bind_eq_some_iff.mp hYield with
      ⟨switched, hSwitch, hAfter⟩
    cases hAfter
    exact ⟨m, _, rfl, hSwitch⟩
  · rw [if_neg hFirst] at hYield
    rcases Option.bind_eq_some_iff.mp hYield with
      ⟨c, _, hRest⟩
    rcases Option.bind_eq_some_iff.mp hRest with
      ⟨scan, hScan, hSwitch⟩
    cases scan with
    | exits => cases hSwitch
    | switches target scanned =>
        have hSame := (yieldLoop_switches hScan).1
        subst hSame
        rcases Option.bind_eq_some_iff.mp hSwitch with
          ⟨switched, hSwitch, hAfter⟩
        cases hAfter
        exact ⟨m.irqDisable.irqEnable, _, rfl, hSwitch⟩

/- A call of `yield` that goes on with some context. -/
theorem yield_keeps
    (hYield : m.yield = some (.running after)) :
    m.Keeps after ∧ (m.ctx? after.currentCtx).isSome := by
  rcases yield_switches hYield with
    ⟨base, target, hBase, hSwitch⟩
  rcases switchToCtx_keeps hSwitch with
    ⟨hKeeps, hCurrent, hLive⟩
  rw [hBase] at hKeeps hLive
  rw [hCurrent]
  exact ⟨⟨hKeeps.ring, hKeeps.view⟩, hLive⟩

------------------------------------------------------------
-- Two Contexts
------------------------------------------------------------

/- The program before it creates a context. -/
def boot
    (cpu : Regs) : Machine where
  heap := Heap.empty
  ctxRing := 0
  currentCtx := 0
  cpu := cpu
  mask := 15
  entered := []

end Machine

/- Blocks are cleared, and stacks lie far behind contexts. -/
def plainLib : CLib where
  ctxs := Allocator.firstFit
  leftover _ := ⟨⟨0, 0⟩, 0, 0, 0, 0, .ready, 0, 0⟩
  stack calls _ := 0x100000 * (UInt64.ofNat calls + 1)

/- The two contexts of `main`, the first one running. -/
def pingPong : Option Machine := do
  let m := Machine.boot ⟨0x9000, 0x9000⟩
  let (_, m) ← m.createCtx plainLib 0x4000 0x401000 0
  let (_, m) ← m.createCtx plainLib 0x4000 0x402000 0
  let outcome ← m.yield
  outcome.running?

end Scheduler

end AsaKernel
