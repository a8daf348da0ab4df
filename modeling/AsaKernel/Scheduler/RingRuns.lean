import AsaKernel.Scheduler.Contexts

/-
  The circular list of contexts over whole runs (TP3.c).

  Contexts are created, become terminated, waiting or able to
  run again, and `yield` is called.  The list stays a ring of
  all live contexts, since the only removal, in `yield`, is
  followed by a read of what was given back.

  Main declarations:
    * `RingOp`, `Machine.ringStep`
    * `Machine.RingOk`, `Machine.YieldOk`, `Machine.Clear`
    * `Machine.Circle`, `Machine.Intact`
    * `Machine.yieldLoop_path`
    * `Machine.ring_intact_iff`
-/

------------------------------------------------------------
-- Runs
------------------------------------------------------------

namespace AsaKernel

open Transition

namespace Scheduler

/-
  What happens to the ring: a context is created, a context
  changes its state, the running context yields.
-/
inductive RingOp where
  | createCtx (stackSize : Int32) (f args : UInt64)
  | become (p : UInt64) (etat : Etat)
  | yield
deriving DecidableEq, Repr

namespace Machine

/-
  A context waits, is woken or ends.  An ended context stays
  ended, and none becomes new again.
-/
def become
    (p : UInt64)
    (etat : Etat)
    (m : Machine) : Option Machine := do
  let ctx ← m.ctx? p
  if ctx.etat = .terminated ∨ etat = .ready then none
  else m.update? p fun c => { c with etat := etat }

/- One step; the run ends when the program exits. -/
def ringStep
    (libc : CLib)
    (m : Machine) : RingOp → Option Machine
| .createCtx stackSize f args => do
    let (_, m) ← m.createCtx libc stackSize f args
    some m
| .become p etat => m.become p etat
| .yield => do
    let outcome ← m.yield
    outcome.running?

/- The field `next` of a context. -/
def link
    (m : Machine) : UInt64 → Option UInt64 :=
  m.view Ctx.next

/-
  From the current context `next` leads through a ring of live
  contexts.  It contains `ctx_ring` and every context that is
  not terminated.
-/
def RingOk
    (m : Machine) : Prop :=
  ∃ ps,
    Ring m.link m.currentCtx ps ∧
    m.ctxRing ∈ ps ∧
    (∀ p ∈ ps, (m.ctx? p).isSome) ∧
    ∀ p c, m.ctx? p = some c → c.etat ≠ .terminated →
      p ∈ ps

/-
  A call of `yield` uses no context that was given back, and
  unless it exits it leaves a ring.
-/
def YieldOk
    (m : Machine) : RingOp → Prop
| .yield =>
    ∃ outcome,
      m.yield = some outcome ∧
      ∀ after, outcome = .running after → after.RingOk
| _ => True

/- The contexts that follow the current one in the list. -/
def others
    (m : Machine) : Option (List UInt64) := do
  let first ← m.link m.currentCtx
  walk m.link m.currentCtx (m.heap.size + 1) first

/- The first context of the list that does not wait. -/
def firstAwake
    (m : Machine)
    (ps : List UInt64) : Option UInt64 :=
  ps.find? fun p => ¬ m.Waits p

/-
  There is a context, and the first of the others that does
  not wait is not terminated.
-/
def Clear
    (m : Machine) : Prop :=
  if m.currentCtx = 0 then m.ctxRing ≠ 0
  else
    ∃ ps ∈ m.others, ∀ p ∈ m.firstAwake ps, ¬ m.Ended p

/- A call of `yield` comes in such a state. -/
def YieldClear
    (m : Machine) : RingOp → Prop
| .yield => m.Clear
| _ => True

instance (m : Machine) :
    Decidable m.Clear :=
  inferInstanceAs
    (Decidable
      (if m.currentCtx = 0 then m.ctxRing ≠ 0
        else
          ∃ ps ∈ m.others,
            ∀ p ∈ m.firstAwake ps, ¬ m.Ended p))

instance (m : Machine) (op : RingOp) :
    Decidable (m.YieldClear op) :=
  match op with
  | .yield => inferInstanceAs (Decidable m.Clear)
  | .createCtx _ _ _ | .become _ _ => isTrue trivial

------------------------------------------------------------
-- The Ring of all Contexts
------------------------------------------------------------

/- The live contexts, in a ring from `ctx_ring` on. -/
structure Circle
    (m : Machine)
    (ps : List UInt64) : Prop where
  ring : Ring m.link m.ctxRing ps
  live : ∀ p, (m.link p).isSome → p ∈ ps
  current : m.currentCtx = 0 ∨ m.currentCtx ∈ ps

/- There is no context yet, or there is a ring of them. -/
inductive Intact
    (m : Machine) : Prop where
| empty
    (hRing : m.ctxRing = 0)
    (hCurrent : m.currentCtx = 0)
    (hDead : ∀ p, m.link p = none)
| circle
    (ps : List UInt64)
    (hCircle : m.Circle ps)

variable {m after : Machine} {p q target : UInt64}
variable {c : Ctx} {ps rest : List UInt64} {libc : CLib}

theorem link_eq
    (hLive : m.ctx? p = some c) :
    m.link p = some c.next := by
  unfold link view
  rw [hLive, Option.map_some]

theorem isSome_link :
    (m.link p).isSome = (m.ctx? p).isSome :=
  Option.isSome_map

theorem Circle.isSome_iff
    (hCircle : m.Circle ps) :
    (m.ctx? p).isSome ↔ p ∈ ps := by
  rw [← isSome_link]
  exact ⟨hCircle.live p,
    fun hMem => hCircle.ring.path.isSome_of_mem hMem⟩

theorem Circle.ctxRing_ne_zero
    (hCircle : m.Circle ps) :
    m.ctxRing ≠ 0 := by
  intro hNull
  have hLive :=
    hCircle.ring.path.isSome_of_mem hCircle.ring.mem_start
  rw [hNull] at hLive
  unfold link at hLive
  rw [view_null] at hLive
  cases hLive

/- The links stay, and the current context is one of them. -/
theorem Circle.of_link
    (hCircle : m.Circle ps)
    (hLink : after.link = m.link)
    (hRing : after.ctxRing = m.ctxRing)
    (hCurrent :
      after.currentCtx = 0 ∨ after.currentCtx ∈ ps) :
    after.Circle ps where
  ring := by
    rw [hLink, hRing]
    exact hCircle.ring
  live p hLive := by
    rw [hLink] at hLive
    exact hCircle.live p hLive
  current := hCurrent

/- The ring can be followed from the current context. -/
theorem Circle.ringOk
    (hCircle : m.Circle ps)
    (hCurrent : m.currentCtx ≠ 0) :
    m.RingOk := by
  rcases hCircle.ring.rotate
      (hCircle.current.resolve_left hCurrent) with
    ⟨qs, hRing, hPerm⟩
  refine ⟨qs, hRing, ?_, ?_, ?_⟩
  · exact hPerm.mem_iff.mpr hCircle.ring.mem_start
  · intro p hMem
    exact hCircle.isSome_iff.mpr (hPerm.mem_iff.mp hMem)
  · intro p c hLive _
    refine hPerm.mem_iff.mpr (hCircle.isSome_iff.mp ?_)
    exact Option.isSome_iff_exists.mpr ⟨c, hLive⟩

------------------------------------------------------------
-- Creation
------------------------------------------------------------

variable {fresh : UInt64}

/- The two ways to link a new context. -/
theorem insertCtx_parts
    (hInsert : m.insertCtx fresh = some after) :
    (m.ctxRing = 0 ∧
      ∃ linked,
        m.update? fresh (fun c => { c with next := fresh }) =
          some linked ∧
        after = { linked with ctxRing := fresh }) ∨
    (m.ctxRing ≠ 0 ∧
      ∃ ring linked,
        m.ctx? m.ctxRing = some ring ∧
        m.update? fresh
            (fun c => { c with next := ring.next }) =
          some linked ∧
        linked.update? m.ctxRing
            (fun c => { c with next := fresh }) =
          some after) := by
  unfold insertCtx at hInsert
  by_cases hRing : m.ctxRing = 0
  · rw [if_pos hRing] at hInsert
    rcases Option.bind_eq_some_iff.mp hInsert with
      ⟨linked, hUpdate, hAfter⟩
    cases hAfter
    exact Or.inl ⟨hRing, linked, hUpdate, rfl⟩
  · rw [if_neg hRing] at hInsert
    rcases Option.bind_eq_some_iff.mp hInsert with
      ⟨ring, hLive, hRest⟩
    rcases Option.bind_eq_some_iff.mp hRest with
      ⟨linked, hFirst, hSecond⟩
    rw [(update?_globals hFirst).1] at hSecond
    exact Or.inr
      ⟨hRing, ring, linked, hLive, hFirst, hSecond⟩

/- The first context follows itself. -/
theorem insertCtx_first
    (hRing : m.ctxRing = 0)
    (hInsert : m.insertCtx fresh = some after) :
    after.ctxRing = fresh ∧
      after.currentCtx = m.currentCtx ∧
      after.link fresh = some fresh ∧
      ∀ q, q ≠ fresh → after.link q = m.link q := by
  rcases (insertCtx_parts hInsert).resolve_right
      (fun hOther => hOther.1 hRing) with
    ⟨_, linked, hUpdate, rfl⟩
  rcases update?_cases hUpdate with ⟨c, _, _, hNew, _⟩
  have hSame := (update?_globals hUpdate).2
  have hSelf := link_eq hNew
  refine ⟨rfl, hSame, hSelf, fun q hNe => ?_⟩
  have hOther := view_update?_ne (v := Ctx.next) hUpdate hNe
  exact hOther

/- A further context is inserted behind `ctx_ring`. -/
theorem insertCtx_next
    (hRing : m.ctxRing ≠ 0)
    (hApart : fresh ≠ m.ctxRing)
    (hInsert : m.insertCtx fresh = some after) :
    after.ctxRing = m.ctxRing ∧
      after.currentCtx = m.currentCtx ∧
      after.link m.ctxRing = some fresh ∧
      after.link fresh = m.link m.ctxRing ∧
      ∀ q, q ≠ fresh → q ≠ m.ctxRing →
        after.link q = m.link q := by
  rcases (insertCtx_parts hInsert).resolve_left
      (fun hOther => hRing hOther.1) with
    ⟨_, ring, linked, hLive, hFirst, hSecond⟩
  rcases update?_globals hFirst with ⟨hRing₁, hCurrent₁⟩
  rcases update?_globals hSecond with
    ⟨hRing₂, hCurrent₂⟩
  rcases update?_cases hFirst with ⟨_, _, _, hNew, _⟩
  rcases update?_cases hSecond with ⟨_, _, _, hNew', _⟩
  refine ⟨hRing₂.trans hRing₁, hCurrent₂.trans hCurrent₁,
    link_eq hNew', ?_, ?_⟩
  · have hNext := link_eq hNew
    unfold link at hNext ⊢
    rw [view_update?_ne hSecond hApart, hNext]
    exact (link_eq hLive).symm
  · intro q hNe hNeRing
    unfold link
    rw [view_update?_ne hSecond hNeRing,
      view_update?_ne hFirst hNe]

/- A new context is placed, linked and filled in. -/
theorem createCtx_cases
    {stackSize res : Int32}
    {f args : UInt64}
    (hCreate :
      m.createCtx libc stackSize f args =
        some (res, after)) :
    ∃ (fresh : UInt64) (placed linked : Machine),
      m.link fresh = none ∧
      placed.ctxRing = m.ctxRing ∧
      placed.currentCtx = m.currentCtx ∧
      (∀ q, q ≠ fresh → placed.link q = m.link q) ∧
      placed.insertCtx fresh = some linked ∧
      after.ctxRing = linked.ctxRing ∧
      after.currentCtx = linked.currentCtx ∧
      after.link = linked.link := by
  rcases Option.bind_eq_some_iff.mp hCreate with
    ⟨⟨fresh, heap⟩, hAlloc, hRest⟩
  rcases Option.bind_eq_some_iff.mp hRest with
    ⟨linked, hInsert, hRest⟩
  rcases Option.bind_eq_some_iff.mp hRest with
    ⟨filled, hUpdate, hAfter⟩
  cases hAfter
  let placed : Machine := { m.irqDisable with heap := heap }
  rcases Heap.alloc_spec hAlloc with
    ⟨hNonnull, hFresh, _, hOthers, _⟩
  have hDead : m.heap.load fresh = none := hFresh
  rcases update?_globals hUpdate with ⟨hRing, hCurrent⟩
  have hLink :=
    view_update? (v := Ctx.next) hUpdate fun _ _ => rfl
  refine ⟨fresh, placed, linked, ?_, rfl, rfl, ?_, hInsert,
    hRing, hCurrent, hLink⟩
  · unfold link view ctx?
    rw [if_neg hNonnull, hDead]
    rfl
  · intro q hNe
    unfold link view ctx?
    by_cases hq : q = 0
    · rw [if_pos hq, if_pos hq]
    · rw [if_neg hq, if_neg hq]
      exact congrArg (Option.map Ctx.next) (hOthers q hNe)

/- A ring of one context. -/
theorem circle_first
    (hSelf : m.link m.ctxRing = some m.ctxRing)
    (hOnly : ∀ q, q ≠ m.ctxRing → m.link q = none)
    (hCurrent : m.currentCtx = 0) :
    m.Circle [m.ctxRing] := by
  refine ⟨Ring.singleton hSelf, fun p hLive => ?_,
    Or.inl hCurrent⟩
  by_contra hNotMem
  rw [List.mem_singleton] at hNotMem
  rw [hOnly p hNotMem] at hLive
  cases hLive

/- A ring with one more context behind its start. -/
theorem Circle.grow
    (hCircle : m.Circle (m.ctxRing :: rest))
    (hNew : fresh ∉ m.ctxRing :: rest)
    (hRing : after.ctxRing = m.ctxRing)
    (hCurrent : after.currentCtx = m.currentCtx)
    (hStart : after.link m.ctxRing = some fresh)
    (hLink : after.link fresh = m.link m.ctxRing)
    (hOthers :
      ∀ q, q ≠ fresh → q ≠ m.ctxRing →
        after.link q = m.link q) :
    after.Circle (m.ctxRing :: fresh :: rest) := by
  have hNodup := hCircle.ring.nodup
  rw [List.nodup_cons] at hNodup
  refine ⟨?_, fun p hLive => ?_, ?_⟩
  · rw [hRing]
    refine hCircle.ring.insert hNew hStart hLink
      fun x hMem => hOthers x ?_ ?_
    · rintro rfl
      exact hNew (List.mem_cons_of_mem _ hMem)
    · rintro rfl
      exact hNodup.1 hMem
  · by_cases hp : p = fresh
    · subst hp
      exact List.mem_cons_of_mem _ List.mem_cons_self
    by_cases hpRing : p = m.ctxRing
    · subst hpRing
      exact List.mem_cons_self
    rw [hOthers p hp hpRing] at hLive
    have hTail :=
      List.mem_of_ne_of_mem hpRing (hCircle.live p hLive)
    exact List.mem_cons_of_mem _
      (List.mem_cons_of_mem _ hTail)
  · rw [hCurrent]
    refine hCircle.current.imp_right fun hMem => ?_
    rcases List.mem_cons.mp hMem with hEq | hTail
    · rw [hEq]
      exact List.mem_cons_self
    · exact List.mem_cons_of_mem _
        (List.mem_cons_of_mem _ hTail)

/- The first context makes a ring of its own. -/
theorem createCtx_first
    (hNoRing : m.ctxRing = 0)
    (hNoCurrent : m.currentCtx = 0)
    (hDead : ∀ p, m.link p = none)
    {stackSize res : Int32}
    {f args : UInt64}
    (hCreate :
      m.createCtx libc stackSize f args =
        some (res, after)) :
    ∃ fresh, after.Circle [fresh] := by
  rcases createCtx_cases hCreate with
    ⟨fresh, placed, linked, hFresh, hRing, hCurrent,
      hPlaced, hInsert, hRing', hCurrent', hLink⟩
  rcases insertCtx_first (hRing.trans hNoRing) hInsert with
    ⟨hFirst, hSame, hSelf, hOthers⟩
  subst hFirst
  have hCircle : linked.Circle [linked.ctxRing] := by
    refine circle_first hSelf (fun q hNe => ?_) ?_
    · rw [hOthers q hNe, hPlaced q hNe, hDead q]
    · rw [hSame, hCurrent, hNoCurrent]
  refine ⟨_, hCircle.of_link hLink hRing' ?_⟩
  rw [hCurrent']
  exact hCircle.current

/- The ring grows by the new context. -/
theorem Circle.createCtx
    (hCircle : m.Circle ps)
    {stackSize res : Int32}
    {f args : UInt64}
    (hCreate :
      m.createCtx libc stackSize f args =
        some (res, after)) :
    ∃ qs, after.Circle qs ∧ qs.length = ps.length + 1 := by
  rcases createCtx_cases hCreate with
    ⟨fresh, placed, linked, hFresh, hRing, hCurrent,
      hPlaced, hInsert, hRing', hCurrent', hLink⟩
  have hNew : fresh ∉ ps := by
    intro hMem
    have hLive := hCircle.ring.path.isSome_of_mem hMem
    rw [hFresh] at hLive
    cases hLive
  have hApart : fresh ≠ m.ctxRing := by
    rintro rfl
    exact hNew hCircle.ring.mem_start
  have hNonnull := hCircle.ctxRing_ne_zero
  rw [← hRing] at hNonnull hApart
  rcases insertCtx_next hNonnull hApart hInsert with
    ⟨hKept, hSame, hStart, hNext, hOthers⟩
  rw [hRing] at hKept hStart hNext hOthers hApart
  rcases hCircle.ring.exists_next with
    ⟨r, rest, rfl, _⟩
  have hGrown :
      linked.Circle (m.ctxRing :: fresh :: rest) := by
    refine hCircle.grow hNew hKept
      (hSame.trans hCurrent) hStart ?_ ?_
    · exact hNext.trans (hPlaced _ hApart.symm)
    · intro q hNe hNeRing
      rw [hOthers q hNe hNeRing, hPlaced q hNe]
  refine ⟨_, hGrown.of_link hLink hRing' ?_, rfl⟩
  rw [hCurrent']
  exact hGrown.current

theorem Intact.createCtx
    (hIntact : m.Intact)
    {stackSize res : Int32}
    {f args : UInt64}
    (hCreate :
      m.createCtx libc stackSize f args =
        some (res, after)) :
    after.Intact := by
  cases hIntact with
  | empty hNoRing hNoCurrent hDead =>
      rcases createCtx_first hNoRing hNoCurrent hDead
        hCreate with ⟨fresh, hCircle⟩
      exact Intact.circle _ hCircle
  | circle ps hCircle =>
      rcases hCircle.createCtx hCreate with
        ⟨qs, hGrown, _⟩
      exact Intact.circle _ hGrown

------------------------------------------------------------
-- Steps
------------------------------------------------------------

/- Links stay, and the current context is a live one. -/
theorem Intact.of_link
    (hIntact : m.Intact)
    (hLink : after.link = m.link)
    (hRing : after.ctxRing = m.ctxRing)
    (hCurrent :
      after.currentCtx = m.currentCtx ∨
        (m.ctx? after.currentCtx).isSome) :
    after.Intact := by
  cases hIntact with
  | empty hNoRing hNoCurrent hDead =>
      refine Intact.empty (hRing.trans hNoRing) ?_ ?_
      · rcases hCurrent with hSame | hLive
        · exact hSame.trans hNoCurrent
        · rw [← isSome_link, hDead] at hLive
          cases hLive
      · intro p
        rw [hLink]
        exact hDead p
  | circle ps hCircle =>
      refine Intact.circle ps
        (hCircle.of_link hLink hRing ?_)
      rcases hCurrent with hSame | hLive
      · rw [hSame]
        exact hCircle.current
      · exact Or.inr (hCircle.isSome_iff.mp hLive)

/- Every step keeps the ring, if it has a result. -/
theorem Intact.step
    (hIntact : m.Intact)
    {op : RingOp}
    (hStep : m.ringStep libc op = some after) :
    after.Intact := by
  cases op with
  | createCtx stackSize f args =>
      rcases Option.bind_eq_some_iff.mp hStep with
        ⟨⟨res, created⟩, hCreate, hAfter⟩
      cases hAfter
      exact hIntact.createCtx hCreate
  | become p etat =>
      rcases Option.bind_eq_some_iff.mp hStep with
        ⟨c, _, hRest⟩
      rw [Option.ite_none_left_eq_some] at hRest
      rcases update?_globals hRest.2 with
        ⟨hRing, hCurrent⟩
      exact hIntact.of_link
        (view_update? hRest.2 fun _ _ => rfl) hRing
        (Or.inl hCurrent)
  | yield =>
      rcases Option.bind_eq_some_iff.mp hStep with
        ⟨outcome, hYield, hRunning⟩
      cases outcome with
      | exited status => cases hRunning
      | running next =>
          cases hRunning
          rcases yield_keeps hYield with ⟨hKeeps, hLive⟩
          exact hIntact.of_link
            (hKeeps.view Ctx.stable_next) hKeeps.ring
            (Or.inr hLive)

------------------------------------------------------------
-- The Loop on a Ring
------------------------------------------------------------

/-
  The walk from a context to the current one meets the
  contexts of a path.  The first that does not wait decides.
-/
theorem yieldLoop_path
    {fuel : Nat}
    {precedent : UInt64}
    (hPath : Path m.link target ps m.currentCtx)
    (hFirst : m.currentCtx ∉ ps)
    (hCurrent : m.ctx? m.currentCtx = some c)
    (hFuel : ps.length < fuel) :
    yieldLoop fuel precedent target m =
      match m.firstAwake ps with
      | some p =>
          if m.Ended p then none else some (.switches p m)
      | none =>
          if c.Runnable then
            some (.switches m.currentCtx m)
          else some .exits := by
  induction ps generalizing target precedent fuel with
  | nil =>
      have hBack := hPath.eq_of_nil
      subst hBack
      cases fuel with
      | zero => omega
      | succ fuel =>
          unfold firstAwake
          rw [List.find?_nil]
          by_cases hRunnable : c.Runnable
          · rw [if_pos hRunnable]
            exact yieldLoop_runnable hCurrent hRunnable
          · rw [if_neg hRunnable]
            exact yieldLoop_back hCurrent hRunnable rfl
  | cons x ps ih =>
      rcases hPath.exists_next with ⟨rfl, r, hNext, hRest⟩
      rw [List.mem_cons, not_or] at hFirst
      have hAway : x ≠ m.currentCtx := Ne.symm hFirst.1
      have hLive : (m.ctx? x).isSome := by
        rw [← isSome_link, hNext]
        rfl
      rcases Option.isSome_iff_exists.mp hLive with
        ⟨c', hLive⟩
      cases hNext.symm.trans (link_eq hLive)
      cases fuel with
      | zero => omega
      | succ fuel =>
          by_cases hWaiting : c'.etat = .waiting
          · have hSkip :
                m.firstAwake (x :: ps) =
                  m.firstAwake ps := by
              unfold firstAwake
              rw [List.find?_cons_of_neg]
              simpa using (waits_iff hLive).mpr hWaiting
            rw [hSkip,
              yieldLoop_waiting hLive hWaiting hAway]
            exact ih hRest hFirst.2
              (Nat.lt_of_succ_lt_succ hFuel)
          · have hStop :
                m.firstAwake (x :: ps) = some x := by
              unfold firstAwake
              rw [List.find?_cons_of_pos]
              simpa using fun hWaits =>
                hWaiting ((waits_iff hLive).mp hWaits)
            rw [hStop]
            dsimp only
            by_cases hEnded : c'.etat = .terminated
            · rw [if_pos ((ended_iff hLive).mpr hEnded)]
              exact yieldLoop_ended hLive hEnded hAway
            · rw [if_neg fun h =>
                hEnded ((ended_iff hLive).mp h)]
              exact yieldLoop_runnable hLive
                ⟨hEnded, hWaiting⟩

------------------------------------------------------------
-- Calls of `yield`
------------------------------------------------------------

/- On a ring the other contexts can be listed. -/
theorem Circle.others_spec
    (hCircle : m.Circle ps)
    (hCurrent : m.currentCtx ≠ 0) :
    ∃ rest c,
      m.others = some rest ∧
      m.ctx? m.currentCtx = some c ∧
      Path m.link c.next rest m.currentCtx ∧
      m.currentCtx ∉ rest ∧
      rest.length < m.heap.size + 1 ∧
      ∀ p ∈ rest, (m.ctx? p).isSome := by
  have hMem := hCircle.current.resolve_left hCurrent
  rcases hCircle.ring.rotate hMem with ⟨qs, hRing, hPerm⟩
  rcases hRing.exists_next with
    ⟨r, rest, rfl, hNext, hPath, hFirst, hNodup⟩
  have hLive :
      ∀ p ∈ m.currentCtx :: rest, (m.ctx? p).isSome :=
    fun p hp => hCircle.isSome_iff.mpr (hPerm.mem_iff.mp hp)
  rcases Option.isSome_iff_exists.mp
      (hLive _ List.mem_cons_self) with ⟨c, hc⟩
  cases hNext.symm.trans (link_eq hc)
  have hRest :
      ∀ p ∈ rest, (m.ctx? p).isSome :=
    fun p hp => hLive p (List.mem_cons_of_mem _ hp)
  have hLength : rest.length < m.heap.size + 1 := by
    refine Nat.lt_succ_of_le
      (Heap.length_le_size hNodup fun p hp => ?_)
    rcases Option.isSome_iff_exists.mp (hRest p hp) with
      ⟨c', hc'⟩
    rw [(ctx?_eq_load hc').2]
    exact Option.some_ne_none c'
  refine ⟨rest, c, ?_, hc, hPath, hFirst, hLength, hRest⟩
  unfold others
  rw [hNext, Option.bind_eq_bind, Option.bind_some]
  exact walk_of_path hPath hFirst hLength

/- Every live context can be switched to. -/
theorem Circle.yieldTo_defined
    (hCircle : m.Circle ps)
    (hTarget : (m.ctx? target).isSome) :
    ∃ outcome,
      m.irqDisable.irqEnable.yieldTo target =
        some outcome := by
  rcases switchToCtx_defined
      (m := m.irqDisable.irqEnable) hTarget
      (hCircle.current.imp_right fun hMem =>
        hCircle.isSome_iff.mpr hMem) with ⟨after, hSwitch⟩
  exact ⟨_, Option.bind_eq_some_iff.mpr
    ⟨after, hSwitch, rfl⟩⟩

/- What `yield` does when the others are in the list. -/
theorem yield_eq
    (hCurrent : m.currentCtx ≠ 0)
    (hLive : m.ctx? m.currentCtx = some c)
    (hPath : Path m.link c.next rest m.currentCtx)
    (hFirst : m.currentCtx ∉ rest)
    (hFuel : rest.length < m.heap.size + 1) :
    m.yield =
      match m.firstAwake rest with
      | some p =>
          if m.Ended p then none
          else m.irqDisable.irqEnable.yieldTo p
      | none =>
          if c.Runnable then
            m.irqDisable.irqEnable.yieldTo m.currentCtx
          else some (.exited 1) := by
  have hLoop :
      yieldLoop (m.heap.size + 1) m.currentCtx c.next
          m.irqDisable =
        match m.firstAwake rest with
        | some p =>
            if m.Ended p then none
            else some (.switches p m.irqDisable)
        | none =>
            if c.Runnable then
              some (.switches m.currentCtx m.irqDisable)
            else some .exits :=
    yieldLoop_path (m := m.irqDisable) hPath hFirst hLive
      hFuel
  unfold yield
  rw [if_neg hCurrent]
  refine (congrArg (fun o => Option.bind o _) hLive).trans ?_
  refine (congrArg (fun o => Option.bind o _) hLoop).trans ?_
  cases m.firstAwake rest with
  | none =>
      by_cases hRunnable : c.Runnable
      · simp only [if_pos hRunnable, Option.bind_some]
      · simp only [if_neg hRunnable, Option.bind_some]
  | some p =>
      by_cases hEnded : m.Ended p
      · simp only [if_pos hEnded, Option.bind_none]
      · simp only [if_neg hEnded, Option.bind_some]

/- A call has a result exactly in a clear state. -/
theorem Circle.yield_defined_iff
    (hCircle : m.Circle ps) :
    (∃ outcome, m.yield = some outcome) ↔ m.Clear := by
  unfold Clear
  by_cases hCurrent : m.currentCtx = 0
  · rw [if_pos hCurrent, yield, if_pos hCurrent]
    refine iff_of_true ?_ hCircle.ctxRing_ne_zero
    exact hCircle.yieldTo_defined
      (hCircle.isSome_iff.mpr hCircle.ring.mem_start)
  · rw [if_neg hCurrent]
    rcases hCircle.others_spec hCurrent with
      ⟨rest, c, hOthers, hLive, hPath, hFirst, hFuel,
        hRest⟩
    rw [yield_eq hCurrent hLive hPath hFirst hFuel, hOthers]
    cases hAwake : m.firstAwake rest with
    | none =>
        refine iff_of_true ?_ ⟨rest, rfl, ?_⟩
        · by_cases hRunnable : c.Runnable
          · simp only [if_pos hRunnable]
            exact hCircle.yieldTo_defined
              (Option.isSome_iff_exists.mpr ⟨c, hLive⟩)
          · simp only [if_neg hRunnable]
            exact ⟨_, rfl⟩
        · rw [hAwake]
          intro p hp
          cases hp
    | some p =>
        by_cases hEnded : m.Ended p
        · simp only [if_pos hEnded]
          refine iff_of_false ?_ ?_
          · rintro ⟨outcome, hResult⟩
            cases hResult
          · rintro ⟨qs, hList, hNot⟩
            cases hList
            exact hNot p hAwake hEnded
        · simp only [if_neg hEnded]
          have hMem := List.mem_of_find?_eq_some hAwake
          refine iff_of_true
            (hCircle.yieldTo_defined (hRest p hMem))
            ⟨rest, rfl, fun q hq => ?_⟩
          cases hAwake.symm.trans hq
          exact hEnded

/- In such a state it keeps the ring. -/
theorem Intact.yieldOk_iff
    (hIntact : m.Intact)
    (op : RingOp) :
    m.YieldOk op ↔ m.YieldClear op := by
  cases op with
  | createCtx _ _ _ | become _ _ => exact Iff.rfl
  | yield =>
      cases hIntact with
      | empty hRing hCurrent hDead =>
          refine iff_of_false ?_ ?_
          · rintro ⟨outcome, hYield, _⟩
            unfold yield at hYield
            rw [if_pos hCurrent] at hYield
            rcases Option.bind_eq_some_iff.mp hYield with
              ⟨after, hSwitch, _⟩
            have hLive := (switchToCtx_keeps hSwitch).2.2
            rw [← isSome_link, hDead] at hLive
            cases hLive
          · unfold YieldClear Clear
            rw [if_pos hCurrent]
            exact not_not.mpr hRing
      | circle ps hCircle =>
          refine Iff.trans ?_ hCircle.yield_defined_iff
          constructor
          · rintro ⟨outcome, hYield, _⟩
            exact ⟨outcome, hYield⟩
          · rintro ⟨outcome, hYield⟩
            refine ⟨outcome, hYield, ?_⟩
            rintro after rfl
            rcases yield_keeps hYield with ⟨hKeeps, hLive⟩
            have hMem := hCircle.isSome_iff.mp hLive
            have hAfter : after.Circle ps :=
              hCircle.of_link
                (hKeeps.view Ctx.stable_next) hKeeps.ring
                (Or.inr hMem)
            refine hAfter.ringOk ?_
            rcases Option.isSome_iff_exists.mp hLive with
              ⟨c, hc⟩
            exact (ctx?_eq_load hc).1

/-
  In every run from the start, each call of `yield` uses live
  contexts only and leaves a ring, exactly when each comes
  while there is a context and the first of the others that
  does not wait is not terminated.
-/
theorem ring_intact_iff
    (libc : CLib)
    (cpu : Regs)
    (ops : List RingOp) :
    Always (ringStep libc) (boot cpu) ops YieldOk ↔
      Always (ringStep libc) (boot cpu) ops YieldClear := by
  refine always_iff_of_invariant Intact ?_ ?_ ?_
  · refine Intact.empty rfl rfl fun p => ?_
    unfold link view ctx?
    by_cases hp : p = 0
    · rw [if_pos hp]
      rfl
    · rw [if_neg hp]
      rfl
  · intro m op after hIntact hStep
    exact hIntact.step hStep
  · intro m op hIntact
    exact hIntact.yieldOk_iff op

/-
  The first of two contexts ends, and the second one yields:
  the first is given back, and its link is read.
-/
def endAndYield : List RingOp :=
  [.createCtx 0x4000 0x401000 0, .createCtx 0x4000 0x402000 0,
    .yield, .become 16 .terminated, .yield, .yield]

theorem yield_reads_released :
    ¬ Always (ringStep plainLib) (boot ⟨0x9000, 0x9000⟩)
        endAndYield YieldOk := by
  have hState :
      ∃ t ∈ run (ringStep plainLib) (boot ⟨0x9000, 0x9000⟩)
          (endAndYield.take 5),
        t.currentCtx = 32 ∧ t.yield.isNone := by
    decide
  rcases hState with ⟨t, hRun, _, hNone⟩
  intro hAll
  rcases hAll t .yield
      ⟨endAndYield.take 5, [], rfl, hRun⟩ with
    ⟨outcome, hYield, _⟩
  rw [hYield] at hNone
  cases hNone

end Machine

end Scheduler

end AsaKernel
