import AsaKernel.Scheduler.Creation

/-
  The calls of entry functions (TP3.c).

  Contexts are created, and then the running context yields or
  its entry function returns.  Each context that is switched
  to has its entry function called once, but with what the
  field `args` held before the creation: `create_ctx` does not
  assign it.

  Main declarations:
    * `Birth`, `Machine.createAll`
    * `Turn`, `Machine.turn`
    * `Machine.Faithful`, `Machine.Started`
    * `Machine.run_started`
    * `Machine.own_argument_iff`
-/

------------------------------------------------------------
-- Runs
------------------------------------------------------------

namespace AsaKernel

open Transition

namespace Scheduler

/-
  A created context: its address, the number of the block of
  memory that it was given, and the call that created it.
-/
structure Birth where
  ctx : UInt64
  block : Nat
  call : Call
deriving DecidableEq, Repr

/- What the running context does when it gives up the CPU. -/
inductive Turn where
  | yield
  | returns
deriving DecidableEq, Repr

namespace Machine

/-
  Calls of `create_ctx`.  The context that a call has made is
  the one behind `ctx_ring`.
-/
def createAll
    (libc : CLib) :
    List Call → Machine → Option (List Birth × Machine)
| [], m => some ([], m)
| call :: calls, m => do
    let (_, after) ←
      m.createCtx libc call.stackSize call.f call.args
    let ctx ← after.link after.ctxRing
    let (born, last) ← createAll libc calls after
    some (⟨ctx, m.heap.calls, call⟩ :: born, last)

/-
  `yield`, also at the end of `switch_to_ctx`, when the entry
  function of the running context has returned.
-/
def turn
    (m : Machine) : Turn → Option Machine
| .yield => do
    let outcome ← m.yield
    outcome.running?
| .returns => do
    let m ← m.update? m.currentCtx fun c =>
      { c with etat := .terminated }
    let outcome ← m.yield
    outcome.running?

/- The calls of entry functions that a context has made. -/
def ownCalls
    (m : Machine)
    (ctx : UInt64) : List (UInt64 × UInt64 × UInt64) :=
  m.entered.filter fun entry => entry.1 = ctx

/- The context was switched to at some time of the run. -/
def SwitchedTo
    (m : Machine)
    (turns : List Turn)
    (ctx : UInt64) : Prop :=
  ∃ u, Reached turn m turns u ∧ u.currentCtx = ctx

/-
  The entry function of a context was called once, with an
  argument.
-/
def CalledOnce
    (m : Machine)
    (b : Birth)
    (args : UInt64) : Prop :=
  m.ownCalls b.ctx = [(b.ctx, b.call.f, args)]

------------------------------------------------------------
-- What a Context Keeps
------------------------------------------------------------

/- The argument that the block held before the creation. -/
def found
    (libc : CLib)
    (b : Birth) : UInt64 :=
  (libc.leftover b.block).args

/- The context has run, and its entry function was called. -/
def Started
    (libc : CLib)
    (b : Birth)
    (m : Machine) : Prop :=
  m.view Ctx.etat b.ctx ≠ some .ready ∧
    m.CalledOnce b (found libc b)

/- The context is as `create_ctx` has left it, or has run. -/
structure Faithful
    (libc : CLib)
    (b : Birth)
    (m : Machine) : Prop where
  entry :
    m.view Ctx.entryPoint b.ctx = some b.call.f
  args :
    m.view Ctx.args b.ctx = some (found libc b)
  once :
    (m.view Ctx.etat b.ctx = some .ready ∧
        m.ownCalls b.ctx = []) ∨
      Started libc b m

/- The running context is not a new one. -/
def Awake
    (m : Machine) : Prop :=
  m.view Ctx.etat m.currentCtx ≠ some .ready

variable {libc : CLib} {m base after last : Machine}
variable {b : Birth} {target : UInt64}

theorem stable_entryPoint : Stable Ctx.entryPoint where
  copie _ _ := rfl
  started _ _ := rfl

theorem stable_args : Stable Ctx.args where
  copie _ _ := rfl
  started _ _ := rfl

/- A switch to a context that has not run calls its entry. -/
theorem Faithful.switchToCtx
    (hFaithful : Faithful libc b base)
    (hSwitch : base.switchToCtx target = some after) :
    Faithful libc b after ∧ after.Awake ∧
      (Started libc b base → Started libc b after) := by
  rcases switchToCtx_keeps hSwitch with
    ⟨hKeeps, hCurrent, _⟩
  rcases switchToCtx_starts hSwitch with
    ⟨etat, f, args, hEtat, hEntry, hArgs, hEntered, hNew,
      hOthers⟩
  rcases hFaithful with ⟨hOwnEntry, hOwnArgs, hOnce⟩
  have hAwake : after.Awake := by
    unfold Awake
    rw [hCurrent, hNew]
    split_ifs with hReady <;> simp [hReady]
  have hStays :
      Started libc b base → Started libc b after := by
    rintro ⟨hRan, hCalls⟩
    unfold Started CalledOnce ownCalls at *
    by_cases hSame : b.ctx = target
    · rw [hSame, hEtat] at hRan
      have hNotReady : etat ≠ .ready :=
        fun h => hRan (congrArg some h)
      rw [if_neg hNotReady] at hEntered hNew
      rw [hSame, hNew, hEntered, List.append_nil, ← hSame]
      exact ⟨hRan, hCalls⟩
    · rw [hOthers b.ctx hSame, hEntered,
        List.filter_append, hCalls]
      refine ⟨hRan, ?_⟩
      split_ifs <;> simp [Ne.symm hSame]
  refine ⟨⟨?_, ?_, ?_⟩, hAwake, hStays⟩
  · rw [hKeeps.view stable_entryPoint]
    exact hOwnEntry
  · rw [hKeeps.view stable_args]
    exact hOwnArgs
  · rcases hOnce with ⟨hReady, hNone⟩ | hStarted
    · by_cases hSame : b.ctx = target
      · right
        subst hSame
        cases hEtat.symm.trans hReady
        cases hEntry.symm.trans hOwnEntry
        cases hArgs.symm.trans hOwnArgs
        refine ⟨by rw [hNew]; simp, ?_⟩
        unfold ownCalls at hNone
        unfold CalledOnce ownCalls
        rw [hEntered, List.filter_append, hNone]
        simp
      · left
        unfold ownCalls at *
        rw [hOthers b.ctx hSame, hEntered,
          List.filter_append, hNone]
        refine ⟨hReady, ?_⟩
        split_ifs <;> simp [Ne.symm hSame]
    · exact Or.inr (hStays hStarted)

/- A call of `yield` ends with a switch. -/
theorem Faithful.yield
    (hFaithful : Faithful libc b m)
    {outcome : Outcome}
    (hYield : m.yield = some outcome)
    (hRunning : outcome.running? = some after) :
    Faithful libc b after ∧ after.Awake ∧
      (Started libc b m → Started libc b after) := by
  cases outcome with
  | exited status => cases hRunning
  | running next =>
      cases hRunning
      rcases yield_switches hYield with
        ⟨base, target, hBase, hSwitch⟩
      have hBefore : Faithful libc b base := by
        rw [hBase]
        exact ⟨hFaithful.entry, hFaithful.args,
          hFaithful.once⟩
      rcases hBefore.switchToCtx hSwitch with
        ⟨hAfter, hAwake, hStays⟩
      refine ⟨hAfter, hAwake, fun hStarted => hStays ?_⟩
      rw [hBase]
      exact hStarted

/- A turn keeps what is known of every created context. -/
theorem Faithful.turn
    (hFaithful : Faithful libc b m)
    (hAwake : m.Awake)
    {t : Turn}
    (hTurn : m.turn t = some after) :
    Faithful libc b after ∧ after.Awake ∧
      (Started libc b m → Started libc b after) := by
  cases t with
  | yield =>
      rcases Option.bind_eq_some_iff.mp hTurn with
        ⟨outcome, hYield, hRunning⟩
      exact hFaithful.yield hYield hRunning
  | returns =>
      rcases Option.bind_eq_some_iff.mp hTurn with
        ⟨ended, hUpdate, hRest⟩
      rcases Option.bind_eq_some_iff.mp hRest with
        ⟨outcome, hYield, hRunning⟩
      have hEntries :=
        view_update? (v := Ctx.entryPoint) hUpdate
          fun _ _ => rfl
      have hArgs :=
        view_update? (v := Ctx.args) hUpdate fun _ _ => rfl
      have hCalls := update?_entered hUpdate
      rcases update?_cases hUpdate with ⟨_, _, _, hNew, _⟩
      have hEnded :
          ended.view Ctx.etat m.currentCtx =
            some .terminated :=
        congrArg (Option.map Ctx.etat) hNew
      have hStays :
          Started libc b m → Started libc b ended := by
        rintro ⟨hRan, hOnce⟩
        refine ⟨?_, ?_⟩
        · by_cases hSame : b.ctx = m.currentCtx
          · rw [hSame, hEnded]
            simp
          · rw [view_update?_ne hUpdate hSame]
            exact hRan
        · unfold CalledOnce ownCalls at *
          rw [hCalls]
          exact hOnce
      have hBetween : Faithful libc b ended := by
        refine ⟨?_, ?_, ?_⟩
        · rw [hEntries]
          exact hFaithful.entry
        · rw [hArgs]
          exact hFaithful.args
        · rcases hFaithful.once with
            ⟨hReady, hNone⟩ | hStarted
          · left
            have hApart : b.ctx ≠ m.currentCtx := by
              intro hSame
              rw [hSame] at hReady
              exact hAwake hReady
            unfold ownCalls at *
            rw [view_update?_ne hUpdate hApart, hCalls]
            exact ⟨hReady, hNone⟩
          · exact Or.inr (hStays hStarted)
      rcases hBetween.yield hYield hRunning with
        ⟨hAfter, hAwake', hStays'⟩
      exact ⟨hAfter, hAwake',
        fun hStarted => hStays' (hStays hStarted)⟩

------------------------------------------------------------
-- Creation
------------------------------------------------------------

/- A later creation does not concern an earlier context. -/
theorem Faithful.born
    {call : Call}
    {fresh : UInt64}
    (hFaithful : Faithful libc b m)
    (hBorn : m.Born libc call fresh after) :
    Faithful libc b after := by
  have hApart : b.ctx ≠ fresh := by
    rintro rfl
    have hEntry := hFaithful.entry
    unfold view at hEntry
    rw [hBorn.free] at hEntry
    cases hEntry
  rcases hFaithful with ⟨hEntry, hArgs, hOnce⟩
  have hEtat :
      after.view Ctx.etat b.ctx = m.view Ctx.etat b.ctx :=
    hBorn.others (fun _ _ => rfl) b.ctx hApart
  refine ⟨?_, ?_, ?_⟩
  · rw [hBorn.others (fun _ _ => rfl) b.ctx hApart]
    exact hEntry
  · rw [hBorn.others (fun _ _ => rfl) b.ctx hApart]
    exact hArgs
  · unfold Started CalledOnce ownCalls at *
    rw [hEtat, hBorn.entered]
    exact hOnce

/- What the calls of `create_ctx` leave. -/
theorem createAll_born
    {calls : List Call}
    {born : List Birth}
    (hFresh : m.entered = [])
    (hCreate :
      createAll libc calls m = some (born, last)) :
    last.entered = [] ∧
      last.currentCtx = m.currentCtx ∧
      (∀ b, Faithful libc b m → Faithful libc b last) ∧
      ∀ b ∈ born, Faithful libc b last := by
  induction calls generalizing m born with
  | nil =>
      cases hCreate
      exact ⟨hFresh, rfl, fun _ h => h,
        fun b hb => by cases hb⟩
  | cons call calls ih =>
      rcases Option.bind_eq_some_iff.mp hCreate with
        ⟨⟨res, after⟩, hCall, hRest⟩
      rcases Option.bind_eq_some_iff.mp hRest with
        ⟨ctx, hNewest, hRest⟩
      rcases Option.bind_eq_some_iff.mp hRest with
        ⟨⟨others, last'⟩, hOthers, hResult⟩
      cases hResult
      rcases createCtx_born hCall with ⟨fresh, hBorn⟩
      cases hNewest.symm.trans hBorn.newest
      have hEmpty : after.entered = [] :=
        hBorn.entered.trans hFresh
      rcases ih hEmpty hOthers with
        ⟨hLast, hCurrent, hKept, hLater⟩
      refine ⟨hLast, hCurrent.trans hBorn.current, ?_, ?_⟩
      · exact fun b hb => hKept b (hb.born hBorn)
      · intro b hb
        rcases List.mem_cons.mp hb with rfl | hb
        · refine hKept _ ⟨hBorn.entry, hBorn.args, ?_⟩
          refine Or.inl ⟨hBorn.ready, ?_⟩
          unfold ownCalls
          rw [hEmpty]
          rfl
        · exact hLater b hb

------------------------------------------------------------
-- The Argument of the Call
------------------------------------------------------------

/-
  A context that was switched to has run, with its own entry
  function and what was found in its block.
-/
theorem run_started
    {turns : List Turn}
    (hFaithful : Faithful libc b m)
    (hAwake : m.Awake)
    (hRun : run turn m turns = some last)
    (hSwitched : m.SwitchedTo turns b.ctx) :
    Started libc b last := by
  rcases hSwitched with
    ⟨u, ⟨before, later, rfl, hBefore⟩, hCurrent⟩
  rw [run_append, hBefore, Option.bind_some] at hRun
  have hMid : Faithful libc b u ∧ u.Awake := by
    refine reached_invariant
      (fun u => Faithful libc b u ∧ u.Awake)
      ⟨hFaithful, hAwake⟩ ?_ (reached_of_run hBefore)
    intro v t w _ hv hTurn
    rcases hv.1.turn hv.2 hTurn with ⟨hw, hAwake', _⟩
    exact ⟨hw, hAwake'⟩
  have hStarted : Started libc b u := by
    rcases hMid.1.once with ⟨hReady, _⟩ | hStarted
    · rw [← hCurrent] at hReady
      exact absurd hReady hMid.2
    · exact hStarted
  have hLast :
      (Faithful libc b last ∧ last.Awake) ∧
        Started libc b last := by
    refine reached_invariant
      (fun u => (Faithful libc b u ∧ u.Awake) ∧
        Started libc b u)
      ⟨hMid, hStarted⟩ ?_ (reached_of_run hRun)
    intro v t w _ hv hTurn
    rcases hv.1.1.turn hv.1.2 hTurn with
      ⟨hw, hAwake', hStays⟩
    exact ⟨⟨hw, hAwake'⟩, hStays hv.2⟩
  exact hLast.2

/-
  Every context that is switched to has its entry function
  called once with the argument of its creation, exactly when
  the block of each of them held that argument before.
-/
theorem own_argument_iff
    (libc : CLib)
    (cpu : Regs)
    (calls : List Call)
    (born : List Birth)
    (turns : List Turn)
    (m last : Machine)
    (hCreate :
      createAll libc calls (boot cpu) = some (born, m))
    (hRun : run turn m turns = some last) :
    (∀ b ∈ born, m.SwitchedTo turns b.ctx →
        last.CalledOnce b b.call.args) ↔
      ∀ b ∈ born, m.SwitchedTo turns b.ctx →
        (libc.leftover b.block).args = b.call.args := by
  rcases createAll_born rfl hCreate with
    ⟨_, hCurrent, _, hFaithful⟩
  have hAwake : m.Awake := by
    unfold Awake
    rw [hCurrent]
    change m.view Ctx.etat 0 ≠ _
    rw [view_null]
    simp
  refine forall₃_congr fun b hb hSwitched => ?_
  have hStarted :=
    run_started (hFaithful b hb) hAwake hRun hSwitched
  unfold CalledOnce
  rw [hStarted.2]
  simp [found]

/- The two contexts of `main`, and one turn. -/
theorem own_argument_iff_main :
    ∃ (born : List Birth) (m last : Machine),
      createAll plainLib
          [⟨0x4000, 0x401000, 0⟩, ⟨0x4000, 0x402000, 0⟩]
          (boot ⟨0x9000, 0x9000⟩) = some (born, m) ∧
      run turn m [.yield] = some last ∧
      ((∀ b ∈ born, m.SwitchedTo [.yield] b.ctx →
          last.CalledOnce b b.call.args) ↔
        ∀ b ∈ born, m.SwitchedTo [.yield] b.ctx →
          (plainLib.leftover b.block).args =
            b.call.args) := by
  have hMain :
      ∃ r ∈ createAll plainLib
          [⟨0x4000, 0x401000, 0⟩, ⟨0x4000, 0x402000, 0⟩]
          (boot ⟨0x9000, 0x9000⟩),
        ∃ last ∈ run turn r.2 [.yield],
          last.currentCtx = 16 := by
    decide
  rcases hMain with ⟨⟨born, m⟩, hCreate, last, hRun, _⟩
  exact ⟨born, m, last, hCreate, hRun,
    own_argument_iff _ _ _ _ _ _ _ hCreate hRun⟩

/- A context created with 7 is called with what was found. -/
theorem argument_dropped :
    ¬ ∀ libc cpu calls born turns m last,
      createAll libc calls (boot cpu) = some (born, m) →
      run turn m turns = some last →
      ∀ b ∈ born, m.SwitchedTo turns b.ctx →
        last.CalledOnce b b.call.args := by
  have hSample :
      ∃ r ∈ createAll plainLib [⟨0x4000, 0x401000, 7⟩]
          (boot ⟨0x9000, 0x9000⟩),
        r.1 = [⟨16, 0, ⟨0x4000, 0x401000, 7⟩⟩] ∧
          ∃ last ∈ run turn r.2 [.yield],
            last.currentCtx = 16 ∧
              last.entered = [(16, 0x401000, 0)] := by
    decide
  rcases hSample with
    ⟨⟨born, m⟩, hCreate, hBorn, last, hRun, hCurrent,
      hEntered⟩
  dsimp only at hBorn hRun
  subst hBorn
  intro hAll
  have hOnce :=
    hAll _ _ _ _ _ m last hCreate hRun _
      List.mem_cons_self
      ⟨last, reached_of_run hRun, hCurrent⟩
  unfold CalledOnce ownCalls at hOnce
  rw [hEntered] at hOnce
  exact absurd hOnce (by decide)

end Machine

end Scheduler

end AsaKernel
