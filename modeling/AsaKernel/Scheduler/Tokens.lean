import AsaKernel.Scheduler.Semaphore

/-
  The tokens of a semaphore over whole runs (TP3.c).

  `sem_up` wakes a context without counting the token that it
  gives back, so that the counter of a semaphore that was once
  below zero stays there.  The chain then is shorter than the
  counter says, and empty at last.  No token is given twice
  all the same, which is what a lock needs.

  Main declarations:
    * `Account.Balanced`, `Account.Tally`, `Account.Held`
    * `SemRun.ChainOk`, `SemRun.chain_counts_iff`
    * `SemRun.Locks`, `SemRun.tokens_bounded`
-/

------------------------------------------------------------
-- Laws of the Account
------------------------------------------------------------

namespace AsaKernel

open Transition

namespace Scheduler

namespace Account

variable {a b : Account} {p : UInt64} {op : SemOp} {n : Nat}

/- The counter below zero is the length of the queue. -/
def Balanced
    (a : Account) : Prop :=
  (a.queue.length : Int) = max 0 (-a.val)

/-
  As long as no call had to wait, tokens and completed calls
  add up.  From then on all tokens are with completed calls.
-/
inductive Tally
    (n : Nat)
    (a : Account) : Prop where
| free
    (hVal : 0 ≤ a.val)
    (hQueue : a.queue = [])
    (hTokens : (a.completed : Int) + a.val = n + a.ups)
| below
    (hVal : a.val < 0)
    (hTokens : a.completed = n + a.ups)

/-
  Under the discipline of a lock, the contexts inside have one
  token each, and the ones in the queue have none.
-/
structure Held
    (a : Account) : Prop where
  tokens : a.inside.card + a.ups = a.completed
  outside : ∀ q ∈ a.queue, q ∉ a.inside

/- The discipline of a lock. -/
def Orderly
    (a : Account)
    (p : UInt64) : SemOp → Prop
| .down => p ∉ a.inside
| .up => p ∈ a.inside
| .yield => True

theorem balanced_start :
    (start n).Balanced := by
  simp [Balanced, start]

/- A step that wakes no context keeps the balance. -/
theorem Balanced.step
    (hBalanced : a.Balanced)
    (hStep : a.Step p op b)
    (hWakesNone : op = .up → 0 ≤ a.val) :
    b.Balanced := by
  unfold Balanced at hBalanced ⊢
  cases hStep with
  | take hToken =>
      dsimp only
      omega
  | block hEmpty =>
      dsimp only
      rw [List.length_cons]
      push_cast
      omega
  | give hFree =>
      dsimp only
      omega
  | wake hBelow hQueue =>
      exact absurd (hWakesNone rfl) hBelow
  | pass => exact hBalanced

/- A step that wakes a context loses it. -/
theorem Balanced.not_of_wake
    (hBalanced : a.Balanced)
    (hBelow : ¬ 0 ≤ a.val)
    (hStep : a.Step p .up b) :
    ¬ b.Balanced := by
  unfold Balanced at hBalanced ⊢
  cases hStep with
  | give hFree => exact absurd hFree hBelow
  | wake _ hQueue =>
      rw [hQueue, List.length_cons] at hBalanced
      dsimp only
      omega

theorem tally_start :
    (start n).Tally n := by
  refine Tally.free (Int.natCast_nonneg n) rfl ?_
  simp [start]

/- Each step keeps the tally. -/
theorem Tally.step
    (hTally : a.Tally n)
    (hStep : a.Step p op b) :
    b.Tally n := by
  cases hStep with
  | take hToken =>
      cases hTally with
      | free hVal hQueue hTokens =>
          refine Tally.free ?_ hQueue ?_
          · dsimp only
            omega
          · dsimp only
            push_cast
            omega
      | below hVal hTokens => omega
  | block hEmpty =>
      cases hTally with
      | free hVal hQueue hTokens =>
          refine Tally.below ?_ ?_
          · dsimp only
            omega
          · dsimp only
            omega
      | below hVal hTokens =>
          refine Tally.below ?_ hTokens
          dsimp only
          omega
  | give hFree =>
      cases hTally with
      | free hVal hQueue hTokens =>
          refine Tally.free ?_ hQueue ?_
          · dsimp only
            omega
          · dsimp only
            push_cast
            omega
      | below hVal hTokens => omega
  | wake hBelow hQueue =>
      cases hTally with
      | free hVal hQueue' hTokens =>
          exact absurd hVal hBelow
      | below hVal hTokens =>
          refine Tally.below hVal ?_
          dsimp only
          omega
  | pass => exact hTally

/- What the tally says about the completed calls. -/
theorem Tally.completed_le
    (hTally : a.Tally n) :
    a.completed ≤ n + a.ups ∧
      (a.completed = n + a.ups ↔ a.val ≤ 0) := by
  cases hTally with
  | free hVal hQueue hTokens => omega
  | below hVal hTokens => omega

theorem held_start :
    (start n).Held where
  tokens := rfl
  outside _ hMem := absurd hMem List.not_mem_nil

/- Orderly steps keep the tokens with the contexts inside. -/
theorem Held.step
    (hHeld : a.Held)
    (hStep : a.Step p op b)
    (hNodup : a.queue.Nodup)
    (hCaller : p ∉ a.queue)
    (hOrderly : a.Orderly p op) :
    b.Held := by
  have hTokens := hHeld.tokens
  cases hStep with
  | take hToken =>
      refine ⟨?_, fun q hMem => ?_⟩
      · rw [Finset.card_insert_of_notMem hOrderly]
        dsimp only
        omega
      · rw [Finset.mem_insert, not_or]
        refine ⟨?_, hHeld.outside q hMem⟩
        rintro rfl
        exact hCaller hMem
  | block hEmpty =>
      refine ⟨hTokens, fun q hMem => ?_⟩
      rcases List.mem_cons.mp hMem with rfl | hTail
      · exact hOrderly
      · exact hHeld.outside q hTail
  | give hFree =>
      refine ⟨?_, fun q hMem => ?_⟩
      · have hCard := Finset.card_erase_add_one hOrderly
        dsimp only
        omega
      · exact fun hInside =>
          hHeld.outside q hMem
            (Finset.mem_of_mem_erase hInside)
  | @wake q rest hBelow hQueue =>
      rw [hQueue, List.nodup_cons] at hNodup
      have hMem : q ∈ a.queue := by
        rw [hQueue]
        exact List.mem_cons_self
      have hOutside : q ∉ a.inside.erase p :=
        fun hInside =>
          hHeld.outside q hMem
            (Finset.mem_of_mem_erase hInside)
      have hCard := Finset.card_erase_add_one hOrderly
      refine ⟨?_, fun r hRest => ?_⟩
      · rw [Finset.card_insert_of_notMem hOutside]
        dsimp only
        omega
      · rw [Finset.mem_insert, not_or]
        refine ⟨?_, fun hInside => ?_⟩
        · rintro rfl
          exact hNodup.1 hRest
        · refine hHeld.outside r ?_
            (Finset.mem_of_mem_erase hInside)
          rw [hQueue]
          exact List.mem_cons_of_mem q hRest
  | pass => exact hHeld

end Account

------------------------------------------------------------
-- The Chain and the Counter
------------------------------------------------------------

namespace SemRun

variable {t u : SemRun} {a : Account} {call : SemCall}

/-
  The chain has exactly the blocked contexts, as many as the
  counter is below zero.
-/
def ChainOk
    (t : SemRun) : Prop :=
  ∃ addrs,
    Path (t.machine.view Ctx.nextBlocked)
        t.sem.firstBlocked addrs 0 ∧
      addrs.toFinset = t.blocked ∧
      (addrs.length : Int) = max 0 (-t.sem.val.toInt)

/- A `sem_up` that wakes a context finds one. -/
def WakesOk
    (t : SemRun)
    (call : SemCall) : Prop :=
  call.op = .up → t.CanRun call.caller → t.sem.val < 0 →
    t.sem.firstBlocked ≠ 0

/- The call is no `sem_up` that wakes a context. -/
def WakesNone
    (t : SemRun)
    (call : SemCall) : Prop :=
  call.op = .up → t.CanRun call.caller → 0 ≤ t.sem.val

instance (t : SemRun) (call : SemCall) :
    Decidable (t.WakesNone call) :=
  inferInstanceAs (Decidable (_ → _ → _))

/- The chain is the queue of the account. -/
theorem Abstracts.chainOk_iff
    (hAccount : t.Abstracts a) :
    t.ChainOk ↔ a.Balanced := by
  constructor
  · rintro ⟨addrs, hPath, _, hLength⟩
    have hSame :=
      hPath.unique hAccount.chain
        (hPath.end_notMem Machine.view_null)
        (hAccount.chain.end_notMem Machine.view_null)
    rw [hSame, hAccount.val] at hLength
    exact hLength
  · intro hBalanced
    refine ⟨a.queue, hAccount.chain,
      hAccount.blocked.symm, ?_⟩
    rw [hAccount.val]
    exact hBalanced

/- A balanced semaphore below zero can wake a context. -/
theorem Abstracts.up_defined
    (hAccount : t.Abstracts a)
    (hBalanced : a.Balanced)
    (hBelow : ¬ 0 ≤ a.val)
    (hOp : call.op = .up)
    (hRun : t.CanRun call.caller) :
    ∃ u, t.step call = some u := by
  have hFirst :
      (t.machine.view Ctx.nextBlocked
        t.sem.firstBlocked).isSome := by
    cases hQueue : a.queue with
    | nil =>
        unfold Account.Balanced at hBalanced
        rw [hQueue, List.length_nil] at hBalanced
        omega
    | cons q rest =>
        have hChain := hAccount.chain
        refine hChain.isSome_of_mem ?_
        rw [hQueue] at hChain ⊢
        rw [hChain.exists_next.1]
        exact List.mem_cons_self
  have hNegative : ¬ 0 ≤ t.sem.val :=
    fun hLe => hBelow (hAccount.nonneg_iff.mp hLe)
  rcases Machine.semUp_defined
      (m := t.current call.caller) hNegative hFirst with
    ⟨result, hUp⟩
  unfold SemRun.step
  rw [if_pos hRun, hOp]
  dsimp only
  unfold SemRun.up
  rw [hUp]
  exact ⟨_, rfl⟩

variable {m : Machine} {n : UInt32}

/-
  In every run the chain has the blocked contexts, as many as
  the counter says, and no `sem_up` misses one, exactly when
  no `sem_up` comes while the counter is below zero.
-/
theorem chain_counts_iff
    (m : Machine)
    (hn : n.toNat < 2147483648)
    (calls : List SemCall) :
    (Throughout step (start m n) calls ChainOk ∧
        Always step (start m n) calls WakesOk) ↔
      Always step (start m n) calls WakesNone := by
  constructor
  · rintro ⟨hAll, _⟩ t call hPerforms hOp hRun
    rcases reached_account hn (fun _ => True) trivial
        (fun _ _ _ _ _ _ _ _ _ => trivial)
        hPerforms.reached with ⟨a, hAccount, _⟩
    have hBalanced :=
      hAccount.chainOk_iff.mp (hAll t hPerforms.reached)
    by_contra hNegative
    have hBelow : ¬ 0 ≤ a.val :=
      fun hLe => hNegative (hAccount.nonneg_iff.mpr hLe)
    rcases hAccount.up_defined hBalanced hBelow hOp hRun
      with ⟨u, hNext⟩
    rcases hAccount.step hNext with ⟨_, b, hMove, hAfter⟩
    rw [hOp] at hMove
    exact hBalanced.not_of_wake hBelow hMove
      (hAfter.chainOk_iff.mp
        (hAll u (hPerforms.reached_step hNext)))
  · intro hAll
    constructor
    · intro t hReached
      rcases reached_account hn Account.Balanced
          Account.balanced_start
          (fun s a b call hPerforms hAccount hRun hBalanced
              hMove =>
            hBalanced.step hMove fun hOp =>
              hAccount.nonneg_iff.mp
                (hAll s call hPerforms hOp hRun))
          hReached with ⟨a, hAccount, hBalanced⟩
      exact hAccount.chainOk_iff.mpr hBalanced
    · intro t call hPerforms hOp hRun hBelow
      have hNonneg := hAll t call hPerforms hOp hRun
      exact absurd hBelow (Int32.not_lt.mpr hNonneg)

/-
  With one token, a context takes it, gives it back and takes
  it again; then the other one has to wait.
-/
def takeAndWait : List SemCall :=
  [⟨16, .down⟩, ⟨16, .up⟩, ⟨16, .down⟩, ⟨32, .down⟩]

/- All four calls are executed, and the chain has a context. -/
theorem chain_counts_sample :
    ∃ m ∈ pingPong,
      (∃ t ∈ run step (start m 1) takeAndWait,
        t.sem = ⟨-1, 32⟩ ∧ t.blocked = {32}) ∧
      Throughout step (start m 1) takeAndWait ChainOk ∧
        Always step (start m 1) takeAndWait WakesOk := by
  have hState :
      ∃ m ∈ pingPong,
        (∃ t ∈ run step (start m 1) takeAndWait,
          t.sem = ⟨-1, 32⟩ ∧ t.blocked = {32}) ∧
        Always step (start m 1) takeAndWait WakesNone := by
    decide
  rcases hState with ⟨m, hMachine, hRun, hWakesNone⟩
  exact ⟨m, hMachine, hRun,
    (chain_counts_iff m (by decide) takeAndWait).mpr
      hWakesNone⟩

/-
  Without a token, one context waits and another wakes it.
  Then the chain is empty, the counter still -1, and the next
  `sem_up` reads the null pointer.
-/
def wakeTwice : List SemCall :=
  [⟨16, .down⟩, ⟨32, .up⟩, ⟨32, .up⟩]

theorem second_up_misses :
    ∃ m ∈ pingPong,
      ¬ Throughout step (start m 0) wakeTwice ChainOk ∧
        ¬ Always step (start m 0) wakeTwice WakesOk := by
  have hState :
      ∃ m ∈ pingPong,
        ∃ t ∈ run step (start m 0) (wakeTwice.take 2),
          t.sem = ⟨-1, 0⟩ ∧ t.CanRun 32 := by
    decide
  rcases hState with ⟨m, hMachine, t, hRun, hSem, hCan⟩
  refine ⟨m, hMachine, fun hAll => ?_, fun hAll => ?_⟩
  · rcases hAll t ⟨wakeTwice.take 2, [⟨32, .up⟩], rfl, hRun⟩
      with ⟨addrs, hPath, _, hLength⟩
    rw [hSem] at hPath hLength
    have hNone : addrs = [] :=
      hPath.unique (Path.nil 0)
        (hPath.end_notMem Machine.view_null)
        List.not_mem_nil
    rw [hNone] at hLength
    exact absurd hLength (by decide)
  · have hFirst :=
      hAll t ⟨32, .up⟩ ⟨wakeTwice.take 2, [], rfl, hRun⟩
        rfl hCan
    rw [hSem] at hFirst
    exact hFirst (by decide) rfl

------------------------------------------------------------
-- The Tokens
------------------------------------------------------------

/-
  A context takes the lock when it is outside, and gives it
  back when it is inside.
-/
def Locks
    (t : SemRun)
    (call : SemCall) : Prop :=
  match call.op with
  | .down => call.caller ∉ t.inside
  | .up => call.caller ∈ t.inside
  | .yield => True

instance (t : SemRun) (call : SemCall) :
    Decidable (t.Locks call) :=
  match call with
  | ⟨_, .down⟩ => inferInstanceAs (Decidable (_ ∉ _))
  | ⟨_, .up⟩ => inferInstanceAs (Decidable (_ ∈ _))
  | ⟨_, .yield⟩ => isTrue trivial

theorem Abstracts.orderly
    (hAccount : t.Abstracts a)
    (hLocks : t.Locks call) :
    a.Orderly call.caller call.op := by
  unfold Locks at hLocks
  unfold Account.Orderly
  rw [hAccount.inside] at hLocks
  exact hLocks

/-
  In every run the completed calls of `sem_down` are at most
  the tokens at the start and those given back, and as many
  exactly when the counter is not positive.  If the semaphore
  is used as a lock, there are never more contexts inside than
  tokens at the start; with one token, at most one.
-/
theorem tokens_bounded
    (m : Machine)
    (hn : n.toNat < 2147483648)
    (calls : List SemCall) :
    Throughout step (start m n) calls
        (fun t =>
          t.completed ≤ n.toNat + t.ups ∧
            (t.completed = n.toNat + t.ups ↔
              t.sem.val ≤ 0)) ∧
      (Always step (start m n) calls Locks →
        Throughout step (start m n) calls
          fun t => t.inside.card ≤ n.toNat) := by
  constructor
  · intro t hReached
    rcases reached_account hn (Account.Tally n.toNat)
        Account.tally_start
        (fun _ _ _ _ _ _ _ hTally hMove =>
          hTally.step hMove)
        hReached with ⟨a, hAccount, hTally⟩
    rw [hAccount.completed, hAccount.ups,
      Int32.le_iff_toInt_le, hAccount.val]
    exact hTally.completed_le
  · intro hLocks t hReached
    rcases reached_account hn
        (fun a => a.Tally n.toNat ∧ a.Held)
        ⟨Account.tally_start, Account.held_start⟩
        (fun s a b call hPerforms hAccount hRun hBoth
            hMove =>
          ⟨hBoth.1.step hMove,
            hBoth.2.step hMove hAccount.nodup
              (hAccount.notMem_queue hRun)
              (hAccount.orderly
                (hLocks s call hPerforms))⟩)
        hReached with ⟨a, hAccount, hTally, hHeld⟩
    have hLe := hTally.completed_le.1
    have hTokens := hHeld.tokens
    rw [hAccount.inside]
    omega

/- Two contexts want a lock; the second one has to wait. -/
def takeTurns : List SemCall :=
  [⟨16, .down⟩, ⟨16, .yield⟩, ⟨32, .down⟩, ⟨16, .up⟩]

/-
  All four calls are executed.  First 16 is inside and 32
  waits, and then 32 is inside.
-/
theorem tokens_bounded_sample :
    ∃ m ∈ pingPong,
      (∃ t ∈ run step (start m 1) (takeTurns.take 3),
        t.inside = {16} ∧ t.blocked = {32}) ∧
      (∃ t ∈ run step (start m 1) takeTurns,
        t.inside = {32} ∧ t.blocked = ∅) ∧
      Throughout step (start m 1) takeTurns
        fun t => t.inside.card ≤ 1 := by
  have hState :
      ∃ m ∈ pingPong,
        (∃ t ∈ run step (start m 1) (takeTurns.take 3),
          t.inside = {16} ∧ t.blocked = {32}) ∧
        (∃ t ∈ run step (start m 1) takeTurns,
          t.inside = {32} ∧ t.blocked = ∅) ∧
        Always step (start m 1) takeTurns Locks := by
    decide
  rcases hState with
    ⟨m, hMachine, hWaits, hEnters, hLocks⟩
  exact ⟨m, hMachine, hWaits, hEnters,
    (tokens_bounded m (by decide) takeTurns).2 hLocks⟩

end SemRun

end Scheduler

end AsaKernel
