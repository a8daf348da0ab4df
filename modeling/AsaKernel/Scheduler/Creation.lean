import AsaKernel.Scheduler.RingRuns

/-
  The contexts that calls of `create_ctx` leave (TP3.c).

  A new context is ready, has the entry function that was
  given, and in its field `args` what the block of memory
  held before.  The other contexts keep everything but their
  links, and all of them form one ring.

  Main declarations:
    * `Call`, `creations`
    * `Machine.Born`, `Machine.createCtx_born`
    * `Machine.creations_circle`
-/

------------------------------------------------------------
-- One Call
------------------------------------------------------------

namespace AsaKernel

open Transition

namespace Scheduler

/- The arguments of a call of `create_ctx`. -/
structure Call where
  stackSize : Int32
  f : UInt64
  args : UInt64
deriving DecidableEq, Repr

/- Calls of `create_ctx`, one after the other. -/
def creations
    (calls : List Call) : List RingOp :=
  calls.map fun call =>
    .createCtx call.stackSize call.f call.args

/- An aspect of a context that its link does not concern. -/
def Unlinked
    {β : Type}
    (v : Ctx → β) : Prop :=
  ∀ c next, v { c with next := next } = v c

namespace Machine

variable {m placed after : Machine} {fresh : UInt64}
variable {β : Type} {v : Ctx → β} {libc : CLib}

/- The insertion into the ring changes links only. -/
theorem insertCtx_view
    (hInsert : placed.insertCtx fresh = some after) :
    after.entered = placed.entered ∧
      after.currentCtx = placed.currentCtx ∧
      ∀ {β : Type} {v : Ctx → β}, Unlinked v →
        after.view v = placed.view v := by
  rcases insertCtx_parts hInsert with
    ⟨_, linked, hUpdate, rfl⟩ |
      ⟨_, ring, linked, _, hFirst, hSecond⟩
  · have hCalls := update?_entered hUpdate
    have hCurrent := (update?_globals hUpdate).2
    refine ⟨hCalls, hCurrent, ?_⟩
    intro β v hView
    have hSame : linked.view v = placed.view v :=
      view_update? hUpdate fun c _ => hView c fresh
    exact hSame
  · refine ⟨(update?_entered hSecond).trans
        (update?_entered hFirst),
      (update?_globals hSecond).2.trans
        (update?_globals hFirst).2, ?_⟩
    intro β v hView
    have hSame : linked.view v = placed.view v :=
      view_update? hFirst fun c _ => hView c ring.next
    have hSame' : after.view v = linked.view v :=
      view_update? hSecond fun c _ => hView c fresh
    exact hSame'.trans hSame

/- The new context comes behind `ctx_ring`. -/
theorem insertCtx_newest
    (hInsert : placed.insertCtx fresh = some after) :
    after.link after.ctxRing = some fresh := by
  rcases insertCtx_parts hInsert with
    ⟨_, linked, hUpdate, rfl⟩ |
      ⟨_, ring, linked, _, hFirst, hSecond⟩
  · rcases update?_cases hUpdate with ⟨_, _, _, hNew, _⟩
    have hSelf := link_eq hNew
    exact hSelf
  · rcases update?_cases hSecond with ⟨_, _, _, hNew, _⟩
    rw [(update?_globals hSecond).1,
      (update?_globals hFirst).1]
    exact link_eq hNew

/- The context that a call of `create_ctx` has made. -/
structure Born
    (libc : CLib)
    (m : Machine)
    (call : Call)
    (fresh : UInt64)
    (after : Machine) : Prop where
  free : m.ctx? fresh = none
  newest : after.link after.ctxRing = some fresh
  args :
    after.view Ctx.args fresh =
      some (libc.leftover m.heap.calls).args
  entry :
    after.view Ctx.entryPoint fresh = some call.f
  ready : after.view Ctx.etat fresh = some .ready
  others :
    ∀ {β : Type} {v : Ctx → β}, Unlinked v →
      ∀ q, q ≠ fresh → after.view v q = m.view v q
  current : after.currentCtx = m.currentCtx
  entered : after.entered = m.entered

theorem createCtx_born
    {call : Call}
    {res : Int32}
    (hCreate :
      m.createCtx libc call.stackSize call.f call.args =
        some (res, after)) :
    ∃ fresh, m.Born libc call fresh after := by
  rcases Option.bind_eq_some_iff.mp hCreate with
    ⟨⟨fresh, heap⟩, hAlloc, hRest⟩
  rcases Option.bind_eq_some_iff.mp hRest with
    ⟨linked, hInsert, hRest⟩
  rcases Option.bind_eq_some_iff.mp hRest with
    ⟨filled, hUpdate, hAfter⟩
  cases hAfter
  let placed : Machine := { m.irqDisable with heap := heap }
  rcases Heap.alloc_spec hAlloc with
    ⟨hNonnull, hFree, hNew, hOthers, _⟩
  have hDead : m.ctx? fresh = none :=
    (if_neg hNonnull).trans hFree
  have hPlaced :
      placed.ctx? fresh =
        some (libc.leftover m.heap.calls) :=
    (if_neg hNonnull).trans hNew
  have hKept {β : Type} {v : Ctx → β} (q : UInt64)
      (hNe : q ≠ fresh) :
      placed.view v q = m.view v q := by
    unfold view ctx?
    by_cases hq : q = 0
    · rw [if_pos hq, if_pos hq]
    · rw [if_neg hq, if_neg hq]
      exact congrArg (Option.map v) (hOthers q hNe)
  rcases insertCtx_view hInsert with
    ⟨hEntered, hCurrent, hViews⟩
  have hLinked {β : Type} {v : Ctx → β}
      (hView : Unlinked v) :
      linked.view v fresh =
        some (v (libc.leftover m.heap.calls)) := by
    rw [hViews hView]
    exact congrArg (Option.map v) hPlaced
  rcases update?_cases hUpdate with
    ⟨c, hLive, _, hFilled, _⟩
  have hArgs :
      linked.view Ctx.args fresh =
        some (libc.leftover m.heap.calls).args :=
    hLinked fun _ _ => rfl
  refine ⟨fresh, hDead, ?_, ?_, ?_, ?_, ?_, ?_, ?_⟩
  · have hSame := view_update? (v := Ctx.next) hUpdate
      fun _ _ => rfl
    have hNewest := insertCtx_newest hInsert
    rw [← (update?_globals hUpdate).1] at hNewest
    exact (congrFun hSame _).trans hNewest
  · have hSame := view_update? (v := Ctx.args) hUpdate
      fun _ _ => rfl
    exact (congrFun hSame fresh).trans hArgs
  · exact congrArg (Option.map Ctx.entryPoint) hFilled
  · exact congrArg (Option.map Ctx.etat) hFilled
  · intro β v hView q hNe
    have hSame := view_update?_ne (v := v) hUpdate hNe
    refine hSame.trans ?_
    exact (congrFun (hViews hView) q).trans (hKept q hNe)
  · exact (update?_globals hUpdate).2.trans hCurrent
  · exact (update?_entered hUpdate).trans hEntered

------------------------------------------------------------
-- A Sequence of Calls
------------------------------------------------------------

/- A creation is a step of the ring. -/
theorem ringStep_createCtx
    {call : Call}
    (hStep :
      m.ringStep libc
          (.createCtx call.stackSize call.f call.args) =
        some after) :
    ∃ res,
      m.createCtx libc call.stackSize call.f call.args =
        some (res, after) := by
  rcases Option.bind_eq_some_iff.mp hStep with
    ⟨⟨res, created⟩, hCreate, hAfter⟩
  cases hAfter
  exact ⟨res, hCreate⟩

/- Further contexts go into the same ring. -/
theorem Circle.creations
    {calls : List Call}
    {ps : List UInt64}
    (hCircle : m.Circle ps)
    (hRun :
      run (ringStep libc) m (creations calls) =
        some after) :
    ∃ qs, after.Circle qs ∧
      qs.length = ps.length + calls.length := by
  induction calls generalizing m ps with
  | nil =>
      cases hRun
      exact ⟨ps, hCircle, rfl⟩
  | cons call calls ih =>
      unfold Scheduler.creations at hRun
      rw [List.map_cons, run_cons,
        Option.bind_eq_some_iff] at hRun
      rcases hRun with ⟨created, hStep, hRest⟩
      rcases ringStep_createCtx hStep with ⟨res, hCreate⟩
      rcases hCircle.createCtx hCreate with
        ⟨qs, hGrown, hLength⟩
      rcases ih hGrown hRest with ⟨rs, hLast, hTotal⟩
      refine ⟨rs, hLast, ?_⟩
      rw [hTotal, hLength, List.length_cons]
      omega

theorem link_boot
    (cpu : Regs)
    (p : UInt64) :
    (boot cpu).link p = none := by
  unfold link view ctx?
  by_cases hp : p = 0
  · rw [if_pos hp]
    rfl
  · rw [if_neg hp]
    rfl

/- The contexts that a program creates form one ring. -/
theorem creations_circle
    {cpu : Regs}
    {calls : List Call}
    (hSome : calls ≠ [])
    (hRun :
      run (ringStep libc) (boot cpu) (creations calls) =
        some after) :
    ∃ ps, after.Circle ps ∧ ps.length = calls.length := by
  cases calls with
  | nil => exact absurd rfl hSome
  | cons call calls =>
      unfold creations at hRun
      rw [List.map_cons, run_cons,
        Option.bind_eq_some_iff] at hRun
      rcases hRun with ⟨created, hStep, hRest⟩
      rcases ringStep_createCtx hStep with ⟨res, hCreate⟩
      rcases createCtx_first rfl rfl (link_boot cpu) hCreate
        with ⟨fresh, hCircle⟩
      rcases hCircle.creations hRest with
        ⟨ps, hLast, hLength⟩
      refine ⟨ps, hLast, ?_⟩
      rw [hLength, List.length_singleton, List.length_cons,
        Nat.add_comm]

end Machine

end Scheduler

end AsaKernel
