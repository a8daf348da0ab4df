import AsaKernel.Foundations.FixedWidth
import AsaKernel.Scheduler.Contexts
import Mathlib.Data.Finset.Card

/-
  Semaphores (TP3.c), and an account of what they are for.

  The contexts that wait for a token are chained through
  `next_blocked`, the last one first.  Each operation is
  atomic.  A run records next to the state which contexts are
  blocked, which are inside between a `sem_down` and the next
  `sem_up`, and how many calls were made.

  `Account` has the counter and the queue as mathematical
  values, and its transitions say what the operations do.
  Every step of a run is a transition of its account.

  Main declarations:
    * `Sem`, `Machine.semDown`, `Machine.semUp`
    * `SemCall`, `SemRun`, `SemRun.step`
    * `Account`, `Account.Step`
    * `SemRun.Abstracts`, `SemRun.Abstracts.step`
    * `SemRun.reached_account`
-/

------------------------------------------------------------
-- Semaphores
------------------------------------------------------------

namespace AsaKernel

open Transition

namespace Scheduler

/- struct sem_s -/
structure Sem where
  val : Int32
  firstBlocked : UInt64
deriving DecidableEq, Repr

/- sem_init -/
def semInit
    (val : UInt32) : Sem where
  val := val.toInt32
  firstBlocked := 0

namespace Machine

/- sem_down; a caller that finds no token blocks -/
def semDown
    (sem : Sem)
    (m : Machine) : Option (Sem × Outcome) :=
  let m := m.irqDisable
  if 1 ≤ sem.val then do
    let val ← FixedWidth.ofInt? (sem.val.toInt - 1)
    some ({ sem with val := val }, .running m.irqEnable)
  else do
    let m ← m.update? m.currentCtx fun c =>
      { c with
        etat := .waiting
        nextBlocked := sem.firstBlocked }
    let val ← FixedWidth.ofInt? (sem.val.toInt - 1)
    let outcome ← m.irqEnable.yield
    some (⟨val, m.currentCtx⟩, outcome)

/- sem_up; below zero a blocked context is woken instead -/
def semUp
    (sem : Sem)
    (m : Machine) : Option (Sem × Machine) :=
  let m := m.irqDisable
  if 0 ≤ sem.val then do
    let val ← FixedWidth.ofInt? (sem.val.toInt + 1)
    some ({ sem with val := val }, m.irqEnable)
  else do
    let m ← m.update? sem.firstBlocked fun c =>
      { c with etat := .activable }
    let first ← m.ctx? sem.firstBlocked
    some
      ({ sem with firstBlocked := first.nextBlocked },
        m.irqEnable)

------------------------------------------------------------
-- What the Operations Do
------------------------------------------------------------

variable {m after : Machine} {sem sem' : Sem} {β : Type}
variable {v : Ctx → β}

/- A token is taken, or the current context is chained. -/
theorem semDown_cases
    (hDown :
      m.semDown sem = some (sem', .running after)) :
    sem'.val.toInt = sem.val.toInt - 1 ∧
      ((1 ≤ sem.val ∧ m.Keeps after ∧
          sem'.firstBlocked = sem.firstBlocked) ∨
        (¬ 1 ≤ sem.val ∧
          sem'.firstBlocked = m.currentCtx ∧
          after.view Ctx.nextBlocked m.currentCtx =
            some sem.firstBlocked ∧
          after.Waits m.currentCtx ∧
          ∀ q, q ≠ m.currentCtx →
            after.view Ctx.nextBlocked q =
                m.view Ctx.nextBlocked q ∧
              after.view Ctx.waits q =
                m.view Ctx.waits q)) := by
  unfold semDown at hDown
  by_cases hToken : 1 ≤ sem.val
  · rw [if_pos hToken] at hDown
    rcases Option.bind_eq_some_iff.mp hDown with
      ⟨val, hValue, hResult⟩
    cases hResult
    exact ⟨FixedWidth.toInt_of_ofInt? hValue,
      Or.inl ⟨hToken, ⟨rfl, fun _ => rfl⟩, rfl⟩⟩
  · rw [if_neg hToken] at hDown
    rcases Option.bind_eq_some_iff.mp hDown with
      ⟨chained, hUpdate, hDown⟩
    rcases Option.bind_eq_some_iff.mp hDown with
      ⟨val, hValue, hDown⟩
    rcases Option.bind_eq_some_iff.mp hDown with
      ⟨outcome, hYield, hResult⟩
    cases hResult
    rcases update?_cases hUpdate with ⟨c, hLive, _⟩
    have hCurrent := (update?_globals hUpdate).2
    have hKeeps := (yield_keeps hYield).1
    refine ⟨FixedWidth.toInt_of_ofInt? hValue,
      Or.inr ⟨hToken, hCurrent, ?_, ?_, ?_⟩⟩
    · rw [hKeeps.view Ctx.stable_nextBlocked]
      refine (view_update?_self hUpdate).trans ?_
      unfold view
      rw [hLive]
      rfl
    · unfold Waits
      rw [hKeeps.view Ctx.stable_waits]
      refine (view_update?_self hUpdate).trans ?_
      unfold view
      rw [hLive]
      rfl
    · intro q hNe
      rw [hKeeps.view Ctx.stable_nextBlocked,
        hKeeps.view Ctx.stable_waits]
      have hNext :=
        view_update?_ne (v := Ctx.nextBlocked) hUpdate hNe
      have hWaits :=
        view_update?_ne (v := Ctx.waits) hUpdate hNe
      exact ⟨hNext, hWaits⟩

/- The two ways through `sem_up`. -/
theorem semUp_parts
    (hUp : m.semUp sem = some (sem', after)) :
    (0 ≤ sem.val ∧
      (∃ val,
        FixedWidth.ofInt? (sem.val.toInt + 1) = some val ∧
        sem' = { sem with val := val }) ∧
      after = m.irqDisable.irqEnable) ∨
    (¬ 0 ≤ sem.val ∧
      ∃ woken first,
        m.irqDisable.update? sem.firstBlocked
            (fun c => { c with etat := .activable }) =
          some woken ∧
        woken.ctx? sem.firstBlocked = some first ∧
        sem' =
          { sem with firstBlocked := first.nextBlocked } ∧
        after = woken.irqEnable) := by
  unfold semUp at hUp
  by_cases hToken : 0 ≤ sem.val
  · rw [if_pos hToken] at hUp
    rcases Option.bind_eq_some_iff.mp hUp with
      ⟨val, hValue, hResult⟩
    cases hResult
    exact Or.inl ⟨hToken, ⟨val, hValue, rfl⟩, rfl⟩
  · rw [if_neg hToken] at hUp
    rcases Option.bind_eq_some_iff.mp hUp with
      ⟨woken, hUpdate, hUp⟩
    rcases Option.bind_eq_some_iff.mp hUp with
      ⟨first, hFirst, hResult⟩
    cases hResult
    exact Or.inr
      ⟨hToken, woken, first, hUpdate, hFirst, rfl, rfl⟩

/- A token is given back, or the first context is woken. -/
theorem semUp_cases
    (hUp : m.semUp sem = some (sem', after)) :
    (0 ≤ sem.val ∧ sem'.val.toInt = sem.val.toInt + 1 ∧
        sem'.firstBlocked = sem.firstBlocked ∧
        m.Keeps after) ∨
      (¬ 0 ≤ sem.val ∧ sem'.val = sem.val ∧
        m.view Ctx.nextBlocked sem.firstBlocked =
          some sem'.firstBlocked ∧
        after.view Ctx.nextBlocked =
          m.view Ctx.nextBlocked ∧
        ¬ after.Waits sem.firstBlocked ∧
        ∀ q, q ≠ sem.firstBlocked →
          after.view Ctx.waits q = m.view Ctx.waits q) := by
  rcases semUp_parts hUp with
    ⟨hToken, ⟨val, hValue, rfl⟩, rfl⟩ |
      ⟨hToken, woken, first, hUpdate, hFirst, rfl, rfl⟩
  · exact Or.inl ⟨hToken, FixedWidth.toInt_of_ofInt? hValue,
      rfl, ⟨rfl, fun _ => rfl⟩⟩
  · have hLinks :=
      view_update? (v := Ctx.nextBlocked) hUpdate
        fun _ _ => rfl
    refine Or.inr ⟨hToken, rfl, ?_, hLinks, ?_, ?_⟩
    · refine (congrFun hLinks sem.firstBlocked).symm.trans ?_
      unfold view
      rw [hFirst]
      rfl
    · intro hWaits
      have hAwake :
          woken.view Ctx.waits sem.firstBlocked =
            some false := by
        rw [view_update?_self hUpdate]
        rcases update?_cases hUpdate with ⟨c, hLive, _⟩
        unfold view
        rw [hLive]
        rfl
      have hBoth := hAwake.symm.trans hWaits
      cases hBoth
    · intro q hNe
      have hWaits :=
        view_update?_ne (v := Ctx.waits) hUpdate hNe
      exact hWaits

/- The first blocked context is woken if it exists. -/
theorem semUp_defined
    (hBelow : ¬ 0 ≤ sem.val)
    (hFirst : (m.view v sem.firstBlocked).isSome) :
    ∃ result, m.semUp sem = some result := by
  unfold view at hFirst
  rw [Option.isSome_map] at hFirst
  rcases Option.isSome_iff_exists.mp hFirst with
    ⟨c, hLive⟩
  rcases update?_spec (m := m.irqDisable) hLive
      (fun c => { c with etat := .activable }) with
    ⟨woken, hUpdate, _, hNew, _⟩
  unfold semUp
  rw [if_neg hBelow, hUpdate, Option.bind_eq_bind,
    Option.bind_some, hNew]
  exact ⟨_, rfl⟩

end Machine

------------------------------------------------------------
-- Runs
------------------------------------------------------------

inductive SemOp where
  | down
  | up
  | yield
deriving DecidableEq, Repr

/- An operation on the semaphore and the context that calls. -/
structure SemCall where
  caller : UInt64
  op : SemOp
deriving DecidableEq, Repr

/-
  The state, and what happened so far: which contexts are
  blocked, which are inside, how many calls of `sem_down` were
  completed and how many of `sem_up` were made.
-/
structure SemRun where
  machine : Machine
  sem : Sem
  blocked : Finset UInt64
  inside : Finset UInt64
  completed : Nat
  ups : Nat

namespace SemRun

/- After `sem_init`. -/
def start
    (m : Machine)
    (n : UInt32) : SemRun where
  machine := m
  sem := semInit n
  blocked := ∅
  inside := ∅
  completed := 0
  ups := 0

/- The context can execute a call. -/
def CanRun
    (t : SemRun)
    (p : UInt64) : Prop :=
  ∃ c ∈ t.machine.ctx? p, c.Runnable

instance (t : SemRun) (p : UInt64) :
    Decidable (t.CanRun p) :=
  inferInstanceAs (Decidable (∃ c ∈ _, _))

/- The machine while this context executes. -/
def current
    (t : SemRun)
    (p : UInt64) : Machine :=
  { t.machine with currentCtx := p }

/- The call is completed at once if there is a token. -/
def down
    (caller : UInt64)
    (t : SemRun) : Option SemRun := do
  let (sem, outcome) ← (t.current caller).semDown t.sem
  let machine ← outcome.running?
  if 1 ≤ t.sem.val then
    some
      { t with
        machine := machine
        sem := sem
        inside := insert caller t.inside
        completed := t.completed + 1 }
  else
    some
      { t with
        machine := machine
        sem := sem
        blocked := insert caller t.blocked }

/- The calls of the contexts that are woken are completed. -/
def up
    (caller : UInt64)
    (t : SemRun) : Option SemRun := do
  let (sem, machine) ← (t.current caller).semUp t.sem
  let woken := t.blocked.filter fun p => ¬ machine.Waits p
  some
    { machine := machine
      sem := sem
      blocked := t.blocked \ woken
      inside := t.inside.erase caller ∪ woken
      completed := t.completed + woken.card
      ups := t.ups + 1 }

/- A call of `yield`, also by the timer interrupt. -/
def pass
    (caller : UInt64)
    (t : SemRun) : Option SemRun := do
  let outcome ← (t.current caller).yield
  let machine ← outcome.running?
  some { t with machine := machine }

/-
  Any context that can run may execute the next call.  The run
  ends when the program exits.
-/
def step
    (t : SemRun)
    (call : SemCall) : Option SemRun :=
  if t.CanRun call.caller then
    match call.op with
    | .down => t.down call.caller
    | .up => t.up call.caller
    | .yield => t.pass call.caller
  else none

end SemRun

------------------------------------------------------------
-- Accounts
------------------------------------------------------------

/- A counter, the queue of the blocked contexts, the record. -/
structure Account where
  val : Int
  queue : List UInt64
  inside : Finset UInt64
  completed : Nat
  ups : Nat

namespace Account

/- With `n` tokens. -/
def start
    (n : Nat) : Account where
  val := n
  queue := []
  inside := ∅
  completed := 0
  ups := 0

/- What a call does, given that its caller is not blocked. -/
inductive Step
    (a : Account)
    (p : UInt64) :
    SemOp → Account → Prop where
| take
    (hToken : 1 ≤ a.val) :
    Step a p .down
      { a with
        val := a.val - 1
        inside := insert p a.inside
        completed := a.completed + 1 }
| block
    (hEmpty : ¬ 1 ≤ a.val) :
    Step a p .down
      { a with
        val := a.val - 1
        queue := p :: a.queue }
| give
    (hFree : 0 ≤ a.val) :
    Step a p .up
      { a with
        val := a.val + 1
        inside := a.inside.erase p
        ups := a.ups + 1 }
| wake
    {q : UInt64}
    {rest : List UInt64}
    (hBelow : ¬ 0 ≤ a.val)
    (hQueue : a.queue = q :: rest) :
    Step a p .up
      { a with
        queue := rest
        inside := insert q (a.inside.erase p)
        completed := a.completed + 1
        ups := a.ups + 1 }
| pass :
    Step a p .yield a

end Account

namespace SemRun

variable {t u : SemRun} {a b : Account} {call : SemCall}
variable {p : UInt64} {machine : Machine}

/- The account of a run. -/
structure Abstracts
    (t : SemRun)
    (a : Account) : Prop where
  val : t.sem.val.toInt = a.val
  chain :
    Path (t.machine.view Ctx.nextBlocked)
      t.sem.firstBlocked a.queue 0
  waits : ∀ p ∈ a.queue, t.machine.Waits p
  blocked : t.blocked = a.queue.toFinset
  inside : t.inside = a.inside
  completed : t.completed = a.completed
  ups : t.ups = a.ups

theorem Abstracts.nodup
    (hAccount : t.Abstracts a) :
    a.queue.Nodup :=
  hAccount.chain.nodup Machine.view_null

/- A context that can run is not in the queue. -/
theorem Abstracts.notMem_queue
    (hAccount : t.Abstracts a)
    (hRun : t.CanRun p) :
    p ∉ a.queue := by
  intro hMem
  rcases hRun with ⟨c, hLive, hRunnable⟩
  have hWaits := hAccount.waits p hMem
  unfold Machine.Waits Machine.view at hWaits
  rw [Option.mem_def.mp hLive, Option.map_some,
    Option.some.injEq, Ctx.waits, beq_iff_eq] at hWaits
  exact hRunnable.2 hWaits

theorem abstracts_start
    (m : Machine)
    {n : UInt32}
    (hn : n.toNat < 2147483648) :
    (start m n).Abstracts (Account.start n.toNat) where
  val := FixedWidth.toInt_toInt32_of_lt hn
  chain := Path.nil 0
  waits _ hMem := absurd hMem List.not_mem_nil
  blocked := rfl
  inside := rfl
  completed := rfl
  ups := rfl

theorem Abstracts.one_le_iff
    (hAccount : t.Abstracts a) :
    1 ≤ t.sem.val ↔ 1 ≤ a.val := by
  rw [← hAccount.val]
  exact Int32.le_iff_toInt_le

theorem Abstracts.nonneg_iff
    (hAccount : t.Abstracts a) :
    0 ≤ t.sem.val ↔ 0 ≤ a.val := by
  rw [← hAccount.val]
  exact Int32.le_iff_toInt_le

/- If the chain has a first context, so has the queue. -/
theorem Abstracts.queue_eq
    (hAccount : t.Abstracts a)
    {r : UInt64}
    (hNext :
      t.machine.view Ctx.nextBlocked t.sem.firstBlocked =
        some r) :
    ∃ rest,
      a.queue = t.sem.firstBlocked :: rest ∧
      t.sem.firstBlocked ∉ rest ∧
      Path (t.machine.view Ctx.nextBlocked) r rest 0 := by
  have hChain := hAccount.chain
  have hNodup := hAccount.nodup
  cases hQueue : a.queue with
  | nil =>
      rw [hQueue] at hChain
      rw [hChain.eq_of_nil, Machine.view_null] at hNext
      cases hNext
  | cons q rest =>
      rw [hQueue] at hChain hNodup
      rcases hChain.exists_next with
        ⟨rfl, r', hNext', hRest⟩
      cases hNext.symm.trans hNext'
      rw [List.nodup_cons] at hNodup
      exact ⟨rest, rfl, hNodup.1, hRest⟩

/- As long as the whole queue waits, none is awake. -/
theorem Abstracts.awake_none
    (hAccount : t.Abstracts a)
    (hWaits : ∀ p ∈ a.queue, machine.Waits p) :
    (t.blocked.filter fun p => ¬ machine.Waits p) = ∅ := by
  rw [Finset.filter_eq_empty_iff, hAccount.blocked]
  intro q hMem
  exact not_not.mpr (hWaits q (List.mem_toFinset.mp hMem))

/- If all but the first of the queue wait, one is awake. -/
theorem Abstracts.awake_first
    (hAccount : t.Abstracts a)
    {q : UInt64}
    {rest : List UInt64}
    (hQueue : a.queue = q :: rest)
    (hAwake : ¬ machine.Waits q)
    (hWaits : ∀ p ∈ rest, machine.Waits p) :
    (t.blocked.filter fun p => ¬ machine.Waits p) =
      {q} := by
  rw [hAccount.blocked, hQueue]
  ext p
  rw [Finset.mem_filter, List.mem_toFinset, List.mem_cons,
    Finset.mem_singleton]
  constructor
  · rintro ⟨rfl | hMem, hNot⟩
    · rfl
    · exact absurd (hWaits p hMem) hNot
  · rintro rfl
    exact ⟨Or.inl rfl, hAwake⟩

/- The contexts of the queue only wait. -/
theorem Abstracts.keeps
    (hAccount : t.Abstracts a)
    (hKeeps : (t.current p).Keeps machine) :
    Path (machine.view Ctx.nextBlocked)
        t.sem.firstBlocked a.queue 0 ∧
      ∀ p ∈ a.queue, machine.Waits p := by
  constructor
  · rw [hKeeps.view Ctx.stable_nextBlocked]
    exact hAccount.chain
  · intro q hMem
    unfold Machine.Waits
    rw [hKeeps.view Ctx.stable_waits]
    exact hAccount.waits q hMem

theorem Abstracts.down
    (hAccount : t.Abstracts a)
    (hRun : t.CanRun p)
    (hDown : t.down p = some u) :
    ∃ b, a.Step p .down b ∧ u.Abstracts b := by
  rcases Option.bind_eq_some_iff.mp hDown with
    ⟨⟨sem, outcome⟩, hSem, hRest⟩
  rcases Option.bind_eq_some_iff.mp hRest with
    ⟨machine, hRunning, hResult⟩
  cases outcome with
  | exited status => cases hRunning
  | running after =>
      cases hRunning
      rcases Machine.semDown_cases hSem with
        ⟨hValue, hTaken | hChained⟩
      · rcases hTaken with ⟨hToken, hKeeps, hFirst⟩
        rw [if_pos hToken] at hResult
        cases hResult
        have hOne : 1 ≤ a.val :=
          hAccount.one_le_iff.mp hToken
        rcases hAccount.keeps hKeeps with ⟨hChain, hWaits⟩
        refine ⟨_, Account.Step.take hOne, ?_, ?_, hWaits,
          hAccount.blocked, ?_, ?_, hAccount.ups⟩
        · rw [hValue, hAccount.val]
        · rw [hFirst]
          exact hChain
        · rw [hAccount.inside]
        · rw [hAccount.completed]
      · rcases hChained with
          ⟨hToken, hFirst, hNext, hWaits, hOthers⟩
        rw [if_neg hToken] at hResult
        cases hResult
        have hOne : ¬ 1 ≤ a.val :=
          fun hLe => hToken (hAccount.one_le_iff.mpr hLe)
        have hNew := hAccount.notMem_queue hRun
        have hApart :
            ∀ q ∈ a.queue, q ≠ (t.current p).currentCtx := by
          intro q hMem hEq
          have hSelf : q = p := hEq
          exact hNew (hSelf ▸ hMem)
        refine ⟨_, Account.Step.block hOne, ?_, ?_, ?_, ?_,
          hAccount.inside, hAccount.completed,
          hAccount.ups⟩
        · rw [hValue, hAccount.val]
        · rw [hFirst]
          refine Path.cons hNext (hAccount.chain.congr ?_)
          exact fun q hMem => (hOthers q (hApart q hMem)).1
        · intro q hMem
          rcases List.mem_cons.mp hMem with rfl | hTail
          · exact hWaits
          · unfold Machine.Waits
            rw [(hOthers q (hApart q hTail)).2]
            exact hAccount.waits q hTail
        · rw [hAccount.blocked, List.toFinset_cons]

theorem Abstracts.up
    (hAccount : t.Abstracts a)
    (hUp : t.up p = some u) :
    ∃ b, a.Step p .up b ∧ u.Abstracts b := by
  rcases Option.bind_eq_some_iff.mp hUp with
    ⟨⟨sem, machine⟩, hSem, hAfter⟩
  cases hAfter
  rcases Machine.semUp_cases hSem with hGiven | hWoken
  · rcases hGiven with ⟨hFree, hValue, hFirst, hKeeps⟩
    rcases hAccount.keeps hKeeps with ⟨hChain, hWaits⟩
    rw [hAccount.awake_none hWaits]
    refine
      ⟨_, Account.Step.give (hAccount.nonneg_iff.mp hFree),
        ?_, ?_, hWaits, ?_, ?_, ?_, ?_⟩
    · rw [hValue, hAccount.val]
    · rw [hFirst]
      exact hChain
    · rw [Finset.sdiff_empty]
      exact hAccount.blocked
    · rw [Finset.union_empty, hAccount.inside]
    · exact hAccount.completed
    · rw [hAccount.ups]
  · rcases hWoken with
      ⟨hFree, hValue, hNext, hLinks, hAwake, hOthers⟩
    rcases hAccount.queue_eq hNext with
      ⟨rest, hQueue, hFirst, hRest⟩
    have hWaits : ∀ q ∈ rest, machine.Waits q := by
      intro q hMem
      have hNe : q ≠ t.sem.firstBlocked := by
        rintro rfl
        exact hFirst hMem
      unfold Machine.Waits
      rw [hOthers q hNe]
      refine hAccount.waits q ?_
      rw [hQueue]
      exact List.mem_cons_of_mem _ hMem
    rw [hAccount.awake_first hQueue hAwake hWaits]
    have hBelow : ¬ 0 ≤ a.val :=
      fun hLe => hFree (hAccount.nonneg_iff.mpr hLe)
    refine ⟨_, Account.Step.wake hBelow hQueue, ?_, ?_,
      hWaits, ?_, ?_, ?_, ?_⟩
    · rw [hValue, hAccount.val]
    · rw [hLinks]
      exact hRest
    · rw [hAccount.blocked, hQueue, List.toFinset_cons,
        Finset.sdiff_singleton_eq_erase,
        Finset.erase_insert]
      rw [List.mem_toFinset]
      exact hFirst
    · rw [hAccount.inside, Finset.union_comm,
        Finset.insert_eq]
    · rw [Finset.card_singleton, hAccount.completed]
    · rw [hAccount.ups]

/- Every step is a transition of the account. -/
theorem Abstracts.step
    (hAccount : t.Abstracts a)
    (hStep : t.step call = some u) :
    t.CanRun call.caller ∧
      ∃ b, a.Step call.caller call.op b ∧
        u.Abstracts b := by
  unfold SemRun.step at hStep
  rw [Option.ite_none_right_eq_some] at hStep
  rcases hStep with ⟨hRun, hStep⟩
  refine ⟨hRun, ?_⟩
  cases hOp : call.op with
  | down =>
      rw [hOp] at hStep
      exact hAccount.down hRun hStep
  | up =>
      rw [hOp] at hStep
      exact hAccount.up hStep
  | yield =>
      rw [hOp] at hStep
      rcases Option.bind_eq_some_iff.mp hStep with
        ⟨outcome, hYield, hStep⟩
      rcases Option.bind_eq_some_iff.mp hStep with
        ⟨machine, hRunning, hAfter⟩
      cases hAfter
      cases outcome with
      | exited status => cases hRunning
      | running after =>
          cases hRunning
          rcases hAccount.keeps
              (Machine.yield_keeps hYield).1 with
            ⟨hChain, hWaits⟩
          exact ⟨a, Account.Step.pass,
            { hAccount with
              chain := hChain
              waits := hWaits }⟩

/-
  What holds of the initial account and is kept by every
  transition holds of the account of every state of a run.
-/
theorem reached_account
    {m : Machine}
    {n : UInt32}
    (hn : n.toNat < 2147483648)
    {calls : List SemCall}
    (Inv : Account → Prop)
    (hInit : Inv (Account.start n.toNat))
    (hStep :
      ∀ t a b call,
        Performs step (start m n) calls t call →
        t.Abstracts a → t.CanRun call.caller → Inv a →
        a.Step call.caller call.op b → Inv b)
    (hReached : Reached step (start m n) calls t) :
    ∃ a, t.Abstracts a ∧ Inv a := by
  refine reached_invariant
    (fun t => ∃ a, t.Abstracts a ∧ Inv a)
    ⟨_, abstracts_start m hn, hInit⟩ ?_ hReached
  rintro s call u hPerforms ⟨a, hAccount, hInv⟩ hNext
  rcases hAccount.step hNext with ⟨hRun, b, hMove, hAfter⟩
  exact ⟨b, hAfter,
    hStep s a b call hPerforms hAccount hRun hInv hMove⟩

end SemRun

end Scheduler

end AsaKernel
