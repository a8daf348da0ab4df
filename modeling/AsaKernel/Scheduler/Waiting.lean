import AsaKernel.Scheduler.RingRuns
import AsaKernel.Scheduler.Tokens

/-
  Who waits, and for how long (TP3.c).

  A semaphore that is below zero stays there, so that from
  then on every `sem_down` chains its caller and every
  `sem_up` wakes a context.  New contexts are chained in front
  and woken from the front: the last one that waits is woken
  first, and the first one may wait forever.

  When all contexts wait, the next `yield` ends the program.

  Main declarations:
    * `Sheltered`, `SemRun.last_waiter_woken_first`
    * `Machine.Stuck`, `Machine.exits_iff_stuck`
-/

------------------------------------------------------------
-- Sheltered Waiters
------------------------------------------------------------

namespace AsaKernel

open Transition

namespace Scheduler

/- The number of calls of one operation. -/
def callsOf
    (op : SemOp)
    (calls : List SemCall) : Nat :=
  calls.countP fun call => call.op = op

/-
  A context with `ahead` others before it is not reached: at
  no time there were more calls of `sem_up` than calls of
  `sem_down` and contexts before it.
-/
def Sheltered
    (ahead : Nat)
    (calls : List SemCall) : Prop :=
  ∀ first rest, calls = first ++ rest →
    callsOf .up first ≤ callsOf .down first + ahead

variable {ahead : Nat} {call : SemCall}
variable {calls : List SemCall}

theorem sheltered_nil :
    Sheltered ahead [] := by
  intro first rest hCalls
  rw [(List.append_eq_nil_iff.mp hCalls.symm).1]
  exact Nat.zero_le _

theorem sheltered_cons :
    Sheltered ahead (call :: calls) ↔
      ∀ first rest, calls = first ++ rest →
        callsOf .up (call :: first) ≤
          callsOf .down (call :: first) + ahead := by
  constructor
  · intro hAll first rest hCalls
    refine hAll (call :: first) rest ?_
    rw [hCalls, List.cons_append]
  · intro hAll first rest hCalls
    cases first with
    | nil => exact Nat.zero_le _
    | cons x first =>
        rw [List.cons_append, List.cons.injEq] at hCalls
        rcases hCalls with ⟨rfl, hCalls⟩
        exact hAll first rest hCalls

theorem callsOf_cons
    (op : SemOp) :
    callsOf op (call :: calls) =
      callsOf op calls + if call.op = op then 1 else 0 := by
  simp [callsOf, List.countP_cons]

/- One more context is before it. -/
theorem sheltered_down
    (hOp : call.op = .down) :
    Sheltered ahead (call :: calls) ↔
      Sheltered (ahead + 1) calls := by
  rw [sheltered_cons]
  simp only [callsOf_cons, hOp]
  unfold Sheltered
  refine forall₃_congr fun first rest _ => ?_
  simp
  omega

/- Or one context less. -/
theorem sheltered_up
    (hOp : call.op = .up) :
    Sheltered (ahead + 1) (call :: calls) ↔
      Sheltered ahead calls := by
  rw [sheltered_cons]
  simp only [callsOf_cons, hOp]
  unfold Sheltered
  refine forall₃_congr fun first rest _ => ?_
  simp
  omega

theorem sheltered_yield
    (hOp : call.op = .yield) :
    Sheltered ahead (call :: calls) ↔
      Sheltered ahead calls := by
  rw [sheltered_cons]
  simp only [callsOf_cons, hOp]
  rfl

/- The first of the chain is woken next. -/
theorem not_sheltered_up
    (hOp : call.op = .up) :
    ¬ Sheltered 0 (call :: calls) := by
  intro hAll
  have hFirst := hAll [call] calls rfl
  simp [callsOf, hOp] at hFirst

------------------------------------------------------------
-- The Order of Wake-ups
------------------------------------------------------------

namespace SemRun

variable {t u : SemRun} {a : Account}
variable {c : UInt64} {front back : List UInt64}

/- The contexts that are chained are the blocked ones. -/
theorem Abstracts.mem_blocked
    (hAccount : t.Abstracts a) :
    c ∈ t.blocked ↔ c ∈ a.queue := by
  rw [hAccount.blocked, List.mem_toFinset]

theorem Abstracts.blocked_of_queue
    (hAccount : t.Abstracts a)
    (hQueue : a.queue = front ++ c :: back) :
    c ∈ t.blocked := by
  rw [hAccount.mem_blocked, hQueue]
  exact List.mem_append_right _ List.mem_cons_self

/-
  Below zero a context of the queue stays blocked exactly as
  long as it is sheltered.
-/
theorem Abstracts.blocked_iff_sheltered
    (hAccount : t.Abstracts a)
    (hBelow : a.val < 0)
    (hQueue : a.queue = front ++ c :: back)
    (hRun : run SemRun.step t calls = some u) :
    Throughout SemRun.step t calls (fun s => c ∈ s.blocked) ↔
      Sheltered front.length calls := by
  induction calls generalizing t a front with
  | nil =>
      refine iff_of_true ?_ sheltered_nil
      intro s hReached
      rw [reached_nil.mp hReached]
      exact hAccount.blocked_of_queue hQueue
  | cons call calls ih =>
      rw [run_cons] at hRun
      rcases Option.bind_eq_some_iff.mp hRun with
        ⟨s, hStep, hRun⟩
      rcases hAccount.step hStep with ⟨_, b, hMove, hAfter⟩
      rw [throughout_cons hStep,
        and_iff_right (hAccount.blocked_of_queue hQueue)]
      cases hOp : call.op with
      | down =>
          rw [hOp] at hMove
          rw [sheltered_down hOp]
          cases hMove with
          | take hToken => omega
          | block hEmpty =>
              have hLonger :
                  call.caller :: a.queue =
                    (call.caller :: front) ++ c :: back := by
                rw [hQueue, List.cons_append]
              have hStill : a.val - 1 < 0 := by omega
              exact ih hAfter hStill hLonger hRun
      | up =>
          rw [hOp] at hMove
          cases hMove with
          | give hFree => omega
          | @wake q rest hNegative hFirst =>
              rw [hFirst] at hQueue
              cases front with
              | nil =>
                  -- The context itself is woken.
                  cases hQueue
                  refine iff_of_false ?_
                    (not_sheltered_up hOp)
                  have hNodup := hAccount.nodup
                  rw [hFirst, List.nodup_cons] at hNodup
                  intro hAll
                  exact hNodup.1 (hAfter.mem_blocked.mp
                    (hAll s reached_self))
              | cons x front =>
                  cases hQueue
                  rw [List.length_cons, sheltered_up hOp]
                  exact ih hAfter hBelow rfl hRun
      | yield =>
          rw [hOp] at hMove
          rw [sheltered_yield hOp]
          cases hMove with
          | pass => exact ih hAfter hBelow hQueue hRun

variable {m : Machine} {n : UInt32}

/-
  In every run a context that is chained behind `front` waits
  until the calls of `sem_up` since then outnumber the calls
  of `sem_down` by more than `front`, and no longer.  So the
  last one that waits is woken first.
-/
theorem last_waiter_woken_first
    (m : Machine)
    (hn : n.toNat < 2147483648)
    {before calls : List SemCall}
    (hBefore : run step (start m n) before = some t)
    (hRun : run step t calls = some u)
    (hChain :
      Path (t.machine.view Ctx.nextBlocked)
        t.sem.firstBlocked (front ++ c :: back) 0) :
    Throughout step t calls (fun s => c ∈ s.blocked) ↔
      Sheltered front.length calls := by
  rcases reached_account hn (Account.Tally n.toNat)
      Account.tally_start
      (fun _ _ _ _ _ _ _ hTally hMove => hTally.step hMove)
      (reached_of_run hBefore) with ⟨a, hAccount, hTally⟩
  have hQueue : a.queue = front ++ c :: back :=
    hAccount.chain.unique hChain
      (hAccount.chain.end_notMem Machine.view_null)
      (hChain.end_notMem Machine.view_null)
  refine hAccount.blocked_iff_sheltered ?_ hQueue hRun
  cases hTally with
  | free _ hNone _ =>
      rw [hNone] at hQueue
      exact absurd hQueue.symm (by simp)
  | below hVal _ => exact hVal

/- Three contexts, the first one running. -/
def threeContexts : Option Machine := do
  let m := Machine.boot ⟨0x9000, 0x9000⟩
  let (_, m) ← m.createCtx plainLib 0x4000 0x401000 0
  let (_, m) ← m.createCtx plainLib 0x4000 0x402000 0
  let (_, m) ← m.createCtx plainLib 0x4000 0x403000 0
  let outcome ← m.yield
  outcome.running?

/- Two of them wait, and the third one wakes the second. -/
theorem last_waiter_woken_first_three :
    ∃ m ∈ threeContexts,
      ∃ t ∈ run step (start m 0)
          [⟨16, .down⟩, ⟨32, .down⟩],
        Throughout step t [⟨48, .up⟩]
            (fun s => 16 ∈ s.blocked) ∧
          ¬ Throughout step t [⟨48, .up⟩]
            (fun s => 32 ∈ s.blocked) := by
  have hState :
      ∃ m ∈ threeContexts,
        ∃ t ∈ run step (start m 0)
            [⟨16, .down⟩, ⟨32, .down⟩],
          t.sem.firstBlocked = 32 ∧
            t.machine.view Ctx.nextBlocked 32 = some 16 ∧
            t.machine.view Ctx.nextBlocked 16 = some 0 ∧
            (run step t [⟨48, .up⟩]).isSome := by
    decide
  rcases hState with
    ⟨m, hMachine, t, hBefore, hFirst, hNext, hLast, hSome⟩
  rcases Option.isSome_iff_exists.mp hSome with ⟨u, hRun⟩
  have hChain :
      Path (t.machine.view Ctx.nextBlocked)
        t.sem.firstBlocked [32, 16] 0 := by
    rw [hFirst]
    exact Path.cons hNext (Path.cons hLast (Path.nil 0))
  have hFirstWaiter :=
    last_waiter_woken_first m (by decide) hBefore hRun
      (show Path _ _ ([32] ++ 16 :: []) 0 from hChain)
  have hLastWaiter :=
    last_waiter_woken_first m (by decide) hBefore hRun
      (show Path _ _ ([] ++ 32 :: [16]) 0 from hChain)
  refine ⟨m, hMachine, t, hBefore, ?_, ?_⟩
  · exact hFirstWaiter.mpr
      ((sheltered_up rfl).mpr sheltered_nil)
  · exact fun hAll =>
      not_sheltered_up rfl (hLastWaiter.mp hAll)

end SemRun

------------------------------------------------------------
-- The End of the Program
------------------------------------------------------------

namespace Machine

/-
  No context can run: the current one waits or is terminated,
  and all others wait.
-/
def Stuck
    (m : Machine) : Prop :=
  m.currentCtx ≠ 0 ∧
    ∀ p c, m.ctx? p = some c →
      c.etat = .waiting ∨
        (p = m.currentCtx ∧ c.etat = .terminated)

variable {m : Machine} {p target : UInt64} {c : Ctx}
variable {ps rest : List UInt64} {status : Int32}

/- Before the first context there is no ring. -/
theorem intact_boot
    (cpu : Regs) :
    (boot cpu).Intact := by
  refine Intact.empty rfl rfl fun p => ?_
  unfold link view ctx?
  by_cases hp : p = 0
  · rw [if_pos hp]
    rfl
  · rw [if_neg hp]
    rfl

/- A switch does not end the program. -/
theorem yieldTo_ne_exited :
    m.yieldTo target ≠ some (.exited status) := by
  intro hExits
  rcases Option.bind_eq_some_iff.mp hExits with
    ⟨after, _, hResult⟩
  cases hResult

/- The others are all the contexts except the current one. -/
theorem Circle.mem_others
    (hCircle : m.Circle ps)
    (hCurrent : m.currentCtx ≠ 0)
    (hLive : m.ctx? m.currentCtx = some c)
    (hPath : Path m.link c.next rest m.currentCtx)
    (hFirst : m.currentCtx ∉ rest)
    (hSome : (m.ctx? p).isSome) :
    p = m.currentCtx ∨ p ∈ rest := by
  rcases hCircle.ring.rotate
      (hCircle.current.resolve_left hCurrent) with
    ⟨qs, hRing, hPerm⟩
  rcases hRing.exists_next with
    ⟨r, rest', rfl, hNext, hPath', hFirst', _⟩
  cases hNext.symm.trans (link_eq hLive)
  rw [hPath.unique hPath' hFirst hFirst']
  exact List.mem_cons.mp
    (hPerm.mem_iff.mpr (hCircle.isSome_iff.mp hSome))

/- On a ring `yield` ends the program if no context can run. -/
theorem Circle.exits_iff
    (hCircle : m.Circle ps)
    (hCurrent : m.currentCtx ≠ 0) :
    m.yield = some (.exited 1) ↔ m.Stuck := by
  rcases hCircle.others_spec hCurrent with
    ⟨rest, c, _, hLive, hPath, hFirst, hFuel, hRest⟩
  rw [yield_eq hCurrent hLive hPath hFirst hFuel]
  cases hAwake : m.firstAwake rest with
  | some p =>
      -- Another context does not wait.
      dsimp only
      have hMem := List.mem_of_find?_eq_some hAwake
      have hNotWaiting := List.find?_some hAwake
      rw [decide_eq_true_eq] at hNotWaiting
      rcases Option.isSome_iff_exists.mp (hRest p hMem) with
        ⟨other, hOther⟩
      refine iff_of_false ?_ ?_
      · split_ifs
        · intro hNone
          cases hNone
        · exact yieldTo_ne_exited
      · rintro ⟨_, hAll⟩
        rcases hAll p other hOther with hWaits | ⟨hSame, _⟩
        · exact hNotWaiting ((waits_iff hOther).mpr hWaits)
        · rw [hSame] at hMem
          exact hFirst hMem
  | none =>
      dsimp only
      by_cases hRunnable : c.Runnable
      · rw [if_pos hRunnable]
        refine iff_of_false yieldTo_ne_exited ?_
        rintro ⟨_, hAll⟩
        rcases hAll _ c hLive with hWaits | ⟨_, hEnded⟩
        · exact hRunnable.2 hWaits
        · exact hRunnable.1 hEnded
      · rw [if_neg hRunnable]
        refine iff_of_true rfl ⟨hCurrent, ?_⟩
        intro p other hOther
        rcases hCircle.mem_others hCurrent hLive hPath
            hFirst (Option.isSome_iff_exists.mpr
              ⟨other, hOther⟩) with rfl | hMem
        · cases hLive.symm.trans hOther
          rw [Ctx.Runnable, not_and_or, not_not, not_not]
            at hRunnable
          exact hRunnable.symm.imp_right fun hEnded =>
            ⟨rfl, hEnded⟩
        · have hWaits := List.find?_eq_none.mp hAwake p hMem
          rw [decide_eq_true_eq, not_not] at hWaits
          exact Or.inl ((waits_iff hOther).mp hWaits)

/-
  In every state of every run, `yield` ends the program with
  status 1 exactly when no context can run.
-/
theorem exits_iff_stuck
    (libc : CLib)
    (cpu : Regs)
    (ops : List RingOp) :
    Throughout (ringStep libc) (boot cpu) ops fun m =>
      m.yield = some (.exited 1) ↔ m.Stuck := by
  intro m hReached
  have hIntact : m.Intact := by
    refine reached_invariant Intact (intact_boot cpu) ?_
      hReached
    intro t op after _ hBefore hNext
    exact hBefore.step hNext
  by_cases hCurrent : m.currentCtx = 0
  · refine iff_of_false ?_ fun hStuck => hStuck.1 hCurrent
    unfold yield
    rw [if_pos hCurrent]
    exact yieldTo_ne_exited
  · cases hIntact with
    | empty _ hNone _ => exact absurd hNone hCurrent
    | circle ps hCircle => exact hCircle.exits_iff hCurrent

end Machine

end Scheduler

end AsaKernel
