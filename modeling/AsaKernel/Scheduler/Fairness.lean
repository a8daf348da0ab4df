import AsaKernel.Scheduler.Creation

/-
  Round-robin fairness of `yield` (TP3.c).

  While no context is terminated, a call of `yield` switches
  to the first context behind the current one that can run.
  As many calls as there are contexts that can run visit each
  of them once, in the order of the ring.

  Main declarations:
    * `Machine.CanRun`, `Machine.yields`
    * `Machine.yield_around`
    * `Machine.yields_visit`
    * `Machine.round_robin_fair`
-/

------------------------------------------------------------
-- Contexts That Can Run
------------------------------------------------------------

namespace AsaKernel

open Transition

namespace Scheduler

/- The test of `yield` lets the context run. -/
def Ctx.runs
    (c : Ctx) : Bool :=
  decide c.Runnable

theorem Ctx.stable_runs : Stable Ctx.runs where
  copie _ _ := rfl
  started c hReady := by
    simp [runs, Runnable, hReady]

theorem Ctx.stable_ended : Stable Ctx.ended where
  copie _ _ := rfl
  started c hReady := by
    simp [ended, hReady]

namespace Machine

/- The context at this address can run. -/
def CanRun
    (m : Machine)
    (p : UInt64) : Prop :=
  m.view Ctx.runs p = some true

instance (m : Machine) :
    DecidablePred m.CanRun :=
  fun p => inferInstanceAs
    (Decidable (m.view Ctx.runs p = some true))

/-
  Calls of `yield`, one after the other: the contexts that
  they switch to, and the machine that they leave.
-/
def yields :
    Nat → Machine → Option (List UInt64 × Machine)
| 0, m => some ([], m)
| n + 1, m => do
    let outcome ← m.yield
    let after ← outcome.running?
    let (visited, last) ← yields n after
    some (after.currentCtx :: visited, last)

variable {m after : Machine} {p target : UInt64} {c : Ctx}
variable {ps rest : List UInt64}

theorem canRun_iff
    (hLive : m.ctx? p = some c) :
    m.CanRun p ↔ c.Runnable := by
  unfold CanRun view
  rw [hLive, Option.map_some, Option.some.injEq]
  exact decide_eq_true_iff

/- A live context that is not terminated runs or waits. -/
theorem canRun_iff_awake
    (hLive : m.ctx? p = some c)
    (hEnded : ¬ m.Ended p) :
    m.CanRun p ↔ ¬ m.Waits p := by
  rw [ended_iff hLive] at hEnded
  rw [canRun_iff hLive, waits_iff hLive]
  exact ⟨And.right, fun hAwake => ⟨hEnded, hAwake⟩⟩

/- The order of the ring, from behind the current context. -/
def around
    (m : Machine)
    (rest : List UInt64) : List UInt64 :=
  rest ++ [m.currentCtx]

/- The first context of a list that can run. -/
theorem firstAwake_eq
    (hLive : ∀ q ∈ ps, (m.ctx? q).isSome)
    (hEnded : ∀ q, ¬ m.Ended q) :
    m.firstAwake ps = ps.find? m.CanRun := by
  unfold firstAwake
  induction ps with
  | nil => rfl
  | cons q ps ih =>
      rcases Option.isSome_iff_exists.mp
          (hLive q List.mem_cons_self) with ⟨c, hq⟩
      have hSame := canRun_iff_awake hq (hEnded q)
      rw [List.find?_cons, List.find?_cons,
        ih fun r hr => hLive r (List.mem_cons_of_mem _ hr)]
      simp only [hSame]

/- A call of `yield` on a ring without terminated contexts. -/
theorem yield_around
    (hCircle : m.Circle ps)
    (hCurrent : m.currentCtx ≠ 0)
    (hRing : Ring m.link m.currentCtx (m.currentCtx :: rest))
    (hEnded : ∀ q, ¬ m.Ended q) :
    m.yield =
      match (m.around rest).find? m.CanRun with
      | some p => m.irqDisable.irqEnable.yieldTo p
      | none => some (.exited 1) := by
  rcases hCircle.others_spec hCurrent with
    ⟨others, c, _, hLive, hPath, hFirst, hFuel, hOthers⟩
  rcases hRing.exists_next with
    ⟨r, rest', hEq, hNext, hPath', hFirst', _⟩
  cases hEq
  cases hNext.symm.trans (link_eq hLive)
  have hSame : others = rest :=
    hPath.unique hPath' hFirst hFirst'
  subst hSame
  rw [yield_eq hCurrent hLive hPath hFirst hFuel,
    firstAwake_eq hOthers hEnded]
  unfold around
  rw [List.find?_append]
  cases hFind : others.find? m.CanRun with
  | some p =>
      simp only [Option.some_or]
      rw [if_neg (hEnded p)]
  | none =>
      rw [Option.none_or, List.find?_singleton]
      simp only [canRun_iff hLive]
      by_cases hRunnable : c.Runnable
      · simp [hRunnable]
      · simp [hRunnable]

------------------------------------------------------------
-- Consecutive Calls
------------------------------------------------------------

/-
  Scheduling is all that happens: there is a ring of contexts,
  one of them is current, and none is terminated.
-/
structure Turning
    (m : Machine)
    (rest : List UInt64) : Prop where
  circle : ∃ ps, m.Circle ps
  current : m.currentCtx ≠ 0
  ring : Ring m.link m.currentCtx (m.currentCtx :: rest)
  ended : ∀ q, ¬ m.Ended q

/- The order of the ring, seen from a context in it. -/
theorem Turning.cut
    {pre post : List UInt64}
    (hTurning : m.Turning rest)
    (hSplit : m.around rest = pre ++ target :: post) :
    Ring m.link target (target :: (post ++ pre)) := by
  unfold around at hSplit
  rcases List.eq_nil_or_concat post with
    rfl | ⟨post', last, rfl⟩
  · rcases List.append_inj' hSplit rfl with ⟨rfl, hLast⟩
    cases hLast
    simpa using hTurning.ring
  · have hSplit' :
        rest ++ [m.currentCtx] =
          (pre ++ target :: post') ++ [last] := by
      rw [hSplit]
      simp
    rcases List.append_inj' hSplit' rfl with
      ⟨hRest, hLast⟩
    cases hLast
    have hRing :
        Ring m.link m.currentCtx
          ((m.currentCtx :: pre) ++ target :: post') := by
      rw [List.cons_append, ← hRest]
      exact hTurning.ring
    simpa using hRing.cut

/- A context that can run is switched to. -/
theorem Turning.yield
    (hTurning : m.Turning rest)
    {pre post : List UInt64}
    (hSplit : m.around rest = pre ++ target :: post)
    (hSkipped : ∀ q ∈ pre, ¬ m.CanRun q)
    (hTarget : m.CanRun target) :
    ∃ after,
      m.yield = some (.running after) ∧
      after.currentCtx = target ∧
      after.CanRun = m.CanRun ∧
      after.Turning (post ++ pre) := by
  rcases hTurning.circle with ⟨ps, hCircle⟩
  have hFind :
      (m.around rest).find? m.CanRun = some target := by
    rw [hSplit, List.find?_append, List.find?_cons_of_pos]
    · rw [List.find?_eq_none.mpr]
      · rfl
      · simpa using hSkipped
    · simpa using hTarget
  have hYield :=
    yield_around hCircle hTurning.current hTurning.ring
      hTurning.ended
  rw [hFind] at hYield
  have hCut := hTurning.cut hSplit
  have hLive : (m.ctx? target).isSome := by
    rw [← isSome_link]
    exact hCut.path.isSome_of_mem List.mem_cons_self
  rcases switchToCtx_defined
      (m := m.irqDisable.irqEnable) hLive
      (hCircle.current.imp_right hCircle.isSome_iff.mpr) with
    ⟨after, hSwitch⟩
  rcases switchToCtx_keeps hSwitch with
    ⟨hKeeps, hSame, _⟩
  have hLink : after.link = m.link :=
    hKeeps.view Ctx.stable_next
  have hRuns : after.view Ctx.runs = m.view Ctx.runs :=
    hKeeps.view Ctx.stable_runs
  have hEnds : after.view Ctx.ended = m.view Ctx.ended :=
    hKeeps.view Ctx.stable_ended
  refine ⟨after, ?_, hSame, ?_, ?_⟩
  · exact hYield.trans
      (Option.bind_eq_some_iff.mpr ⟨after, hSwitch, rfl⟩)
  · unfold CanRun
    rw [hRuns]
  · have hMem := hCircle.isSome_iff.mp hLive
    refine ⟨⟨ps, hCircle.of_link hLink hKeeps.ring ?_⟩,
      ?_, ?_, ?_⟩
    · exact Or.inr (hSame ▸ hMem)
    · rw [hSame]
      rcases Option.isSome_iff_exists.mp hLive with ⟨c, hc⟩
      exact (ctx?_eq_load hc).1
    · rw [hSame, hLink]
      exact hCut
    · intro q
      unfold Ended
      rw [hEnds]
      exact hTurning.ended q

/-
  Consecutive calls visit the contexts that can run in the
  order of the ring.  The induction is on the contexts still
  to visit; those already visited stand behind them, because
  the ring is read from the context that runs now.
-/
theorem Turning.yields_visit
    {visited later : List UInt64}
    (hTurning : m.Turning rest)
    (hRuns :
      (m.around rest).filter m.CanRun = visited ++ later) :
    ∃ last, m.yields visited.length = some (visited, last) := by
  induction visited generalizing m rest later with
  | nil => exact ⟨m, rfl⟩
  | cons target visited ih =>
      rw [List.cons_append, List.filter_eq_cons_iff] at hRuns
      rcases hRuns with
        ⟨pre, post, hSplit, hSkipped, hTarget, hOthers⟩
      have hSkipped' : ∀ q ∈ pre, ¬ m.CanRun q := by
        simpa using hSkipped
      rcases hTurning.yield hSplit hSkipped'
          (by simpa using hTarget) with
        ⟨after, hYield, hCurrent, hSame, hAfter⟩
      have hNext :
          (after.around (post ++ pre)).filter after.CanRun =
            visited ++ (later ++ [target]) := by
        unfold around
        simp only [hCurrent, hSame]
        rw [List.filter_append, List.filter_append, hOthers,
          List.filter_eq_nil_iff.mpr hSkipped]
        simp [of_decide_eq_true hTarget]
      rcases ih hAfter hNext with ⟨last, hRest⟩
      refine ⟨last, ?_⟩
      rw [List.length_cons]
      unfold yields
      rw [hYield, Option.bind_eq_bind, Option.bind_some]
      simp only [Outcome.running?, Option.bind_eq_bind,
        Option.bind_some, hRest, hCurrent]

------------------------------------------------------------
-- Fairness
------------------------------------------------------------

/- The ring of the created contexts, around the current one. -/
theorem turning_of_creations
    {libc : CLib}
    {cpu : Regs}
    {calls : List Call}
    {s : Machine}
    (hSome : calls ≠ [])
    (hRun :
      run (ringStep libc) (boot cpu) (creations calls) =
        some m)
    (hLink : s.link = m.link)
    (hRing : s.ctxRing = m.ctxRing)
    (hCurrent : (s.ctx? s.currentCtx).isSome)
    (hStates :
      ∀ p c, s.ctx? p = some c → c.etat ≠ .terminated) :
    ∃ rest,
      s.Turning rest ∧ rest.length + 1 = calls.length ∧
        ∀ p, (s.ctx? p).isSome → p ∈ s.around rest := by
  rcases creations_circle hSome hRun with
    ⟨ps, hCreated, hLength⟩
  have hMem : s.currentCtx ∈ ps := by
    apply hCreated.live
    rw [← hLink, isSome_link]
    exact hCurrent
  have hCircle : s.Circle ps :=
    hCreated.of_link hLink hRing (Or.inr hMem)
  rcases hCircle.ring.rotate hMem with ⟨qs, hTurned, hPerm⟩
  rcases hTurned.exists_next with ⟨r, rest, rfl, _⟩
  refine ⟨rest, ⟨⟨ps, hCircle⟩, ?_, hTurned, ?_⟩, ?_, ?_⟩
  · rcases Option.isSome_iff_exists.mp hCurrent with
      ⟨c, hc⟩
    exact (ctx?_eq_load hc).1
  · intro q hEnded
    rcases Option.map_eq_some_iff.mp hEnded with
      ⟨c, hc, _⟩
    exact hStates q c hc ((ended_iff hc).mp hEnded)
  · rw [← hLength, ← hPerm.length_eq, List.length_cons]
  · intro p hLive
    have hp := hPerm.mem_iff.mpr (hCircle.isSome_iff.mp hLive)
    unfold around
    rw [List.mem_append, List.mem_singleton]
    exact (List.mem_cons.mp hp).symm

/-
  Any number of contexts is created, and later one of them is
  current and each is new, able to run or waiting.  Then
  `yield` switches to the first context behind the current one
  that can run, as many calls as contexts can run visit each
  of these once and no other, and `yield` ends the program if
  there is none.
-/
theorem round_robin_fair
    (libc : CLib)
    (cpu : Regs)
    (calls : List Call)
    (m s : Machine)
    (hSome : calls ≠ [])
    (hRun :
      run (ringStep libc) (boot cpu) (creations calls) =
        some m)
    (hLink : s.link = m.link)
    (hRing : s.ctxRing = m.ctxRing)
    (hCurrent : (s.ctx? s.currentCtx).isSome)
    (hStates :
      ∀ p c, s.ctx? p = some c → c.etat ≠ .terminated) :
    ∃ rest visited,
      Ring s.link s.currentCtx (s.currentCtx :: rest) ∧
      rest.length + 1 = calls.length ∧
      visited = (s.around rest).filter s.CanRun ∧
      visited.Nodup ∧
      (∀ p, p ∈ visited ↔ s.CanRun p) ∧
      (∀ first ∈ visited.head?, ∃ after,
        s.yield = some (.running after) ∧
          after.currentCtx = first) ∧
      (∃ last,
        s.yields visited.length = some (visited, last)) ∧
      (visited = [] → s.yield = some (.exited 1)) := by
  rcases turning_of_creations hSome hRun hLink hRing hCurrent
      hStates with ⟨rest, hTurning, hLength, hAll⟩
  refine ⟨rest, _, hTurning.ring, hLength, rfl, ?_, ?_, ?_,
    ?_, ?_⟩
  · have hPerm :
        (s.around rest).Perm (s.currentCtx :: rest) :=
      List.perm_append_singleton s.currentCtx rest
    exact (hPerm.nodup_iff.mpr hTurning.ring.nodup).filter _
  · intro p
    rw [List.mem_filter, decide_eq_true_iff]
    refine ⟨And.right, fun hRuns => ⟨hAll p ?_, hRuns⟩⟩
    rcases Option.map_eq_some_iff.mp hRuns with ⟨c, hc, _⟩
    exact Option.isSome_iff_exists.mpr ⟨c, hc⟩
  · intro first hFirst
    have hFind :
        (s.around rest).find? s.CanRun = some first := by
      rw [← List.head?_filter]
      exact hFirst
    rcases List.find?_eq_some_iff_append.mp hFind with
      ⟨hTarget, pre, post, hSplit, hSkipped⟩
    rcases hTurning.yield hSplit (by simpa using hSkipped)
        (by simpa using hTarget) with
      ⟨after, hYield, hSame, _⟩
    exact ⟨after, hYield, hSame⟩
  · exact hTurning.yields_visit (List.append_nil _).symm
  · intro hNone
    rcases hTurning.circle with ⟨ps, hCircle⟩
    have hYield :=
      yield_around hCircle hTurning.current hTurning.ring
        hTurning.ended
    have hFind :
        (s.around rest).find? s.CanRun = none := by
      rw [List.find?_eq_none]
      exact List.filter_eq_nil_iff.mp hNone
    rwa [hFind] at hYield

/- Three contexts are created, at 16, 32 and 48. -/
def threeCalls : List Call :=
  [⟨0x4000, 0x401000, 0⟩, ⟨0x4000, 0x402000, 0⟩,
    ⟨0x4000, 0x403000, 0⟩]

/- 16 is the current context, and 48 waits. -/
def waiting
    (m : Machine) : Option Machine := do
  let m ← m.update? 48 fun c => { c with etat := .waiting }
  some { m with currentCtx := 16 }

theorem waiting_link
    (hWaiting : m.waiting = some after) :
    after.link = m.link ∧ after.ctxRing = m.ctxRing := by
  rcases Option.bind_eq_some_iff.mp hWaiting with
    ⟨changed, hUpdate, hResult⟩
  cases hResult
  have hLinks : changed.link = m.link :=
    view_update? hUpdate fun _ _ => rfl
  exact ⟨hLinks, (update?_globals hUpdate).1⟩

/- The contexts are looked up at the blocks in use. -/
theorem not_terminated_of_keys
    (hKeys :
      m.heap.cells.keys.all fun q =>
        (m.ctx? q).all fun c => c.etat ≠ .terminated)
    (hLive : m.ctx? p = some c) :
    c.etat ≠ .terminated := by
  have hMem : p ∈ m.heap.cells.keys := by
    rw [← AList.mem_keys, Heap.mem_cells_iff,
      (ctx?_eq_load hLive).2]
    exact Option.some_ne_none c
  have hCtx := List.all_eq_true.mp hKeys p hMem
  rw [hLive] at hCtx
  exact of_decide_eq_true hCtx

/- Two calls of `yield` pass over the context that waits. -/
theorem round_robin_fair_waiting :
    ∃ m ∈ run (ringStep plainLib) (boot ⟨0x9000, 0x9000⟩)
        (creations threeCalls),
      ∃ s ∈ m.waiting,
        s.currentCtx = 16 ∧ Ring s.link 16 [16, 48, 32] ∧
        s.Waits 48 ∧
        ∃ last, s.yields 2 = some ([32, 16], last) := by
  have hMain :
      ∃ m ∈ run (ringStep plainLib) (boot ⟨0x9000, 0x9000⟩)
          (creations threeCalls),
        ∃ s ∈ m.waiting,
          (s.link 16 = some 48 ∧ s.link 48 = some 32 ∧
            s.link 32 = some 16) ∧
          s.currentCtx = 16 ∧ s.Waits 48 ∧
          ([48, 32] ++ [s.currentCtx]).filter s.CanRun =
            [32, 16] ∧
          s.heap.cells.keys.all fun p =>
            (s.ctx? p).all fun c =>
              c.etat ≠ .terminated := by
    decide
  rcases hMain with
    ⟨m, hRun, s, hWaiting, ⟨hFirst, hSecond, hThird⟩,
      hCurrent, hWaits, hRuns, hKeys⟩
  have hPath : Path s.link 16 [16, 48, 32] 16 :=
    Path.cons hFirst (Path.cons hSecond
      (Path.cons hThird (Path.nil 16)))
  have hLive : (s.ctx? s.currentCtx).isSome := by
    rw [hCurrent, ← isSome_link]
    exact hPath.isSome_of_mem List.mem_cons_self
  rcases round_robin_fair plainLib ⟨0x9000, 0x9000⟩
      threeCalls m s (by decide) hRun
      (waiting_link hWaiting).1 (waiting_link hWaiting).2
      hLive fun _ _ hCtx =>
        not_terminated_of_keys hKeys hCtx with
    ⟨rest, visited, hRing, _, hVisited, _, _, _, hVisit, _⟩
  rw [hCurrent] at hRing
  have hRest : rest = [48, 32] := by
    rcases hPath.exists_next with ⟨_, r, hNext, hBack⟩
    rcases hRing.exists_next with
      ⟨r', rest', hEq, hNext', hBack', hStart, _⟩
    cases hEq
    cases hNext.symm.trans hNext'
    exact hBack'.unique hBack hStart (by decide)
  subst hRest
  have hBoth : visited = [32, 16] := by
    unfold around at hVisited
    exact hVisited.trans hRuns
  subst hBoth
  exact ⟨m, hRun, s, hWaiting, hCurrent, hRing, hWaits,
    hVisit⟩

end Machine

end Scheduler

end AsaKernel
