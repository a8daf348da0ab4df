import AsaKernel.Kernel.Context

/-
  The timer interrupts after the start of the kernel (main.c).

  `main` links two contexts in a ring, but assigns neither
  `courant` nor `listeContextes`, and so does `init_ctx`.  The
  first interrupt finds both null.  Once a context of the ring
  is current, every interrupt passes on to the next one.

  Main declarations:
    * `Kernel.setUp`, `Kernel.tick`
    * `Kernel.YieldsNext`
    * `Kernel.Linked.round_robin`
    * `Kernel.boot_round_robin_iff`
-/

------------------------------------------------------------
-- Start and Interrupts
------------------------------------------------------------

namespace AsaKernel

open Transition

namespace Kernel

/-
  The two calls of `init_ctx` in `main`, with the addresses of
  its two contexts and of their entry functions.
-/
def setUp
    (context1 context2 keyboardIrq loading : UInt32)
    (k : Kernel) : Option Kernel := do
  let (_, k) ← k.initCtx context2 keyboardIrq context1
  let (_, k) ← k.initCtx context1 loading context2
  some k

/-
  A timer interrupt reaches `yield`; the interrupted code has
  left these stack pointers in the CPU.
-/
def tick
    (k : Kernel)
    (cpu : StackPointers) : Option Kernel :=
  { k with cpu := cpu }.yield

/-
  `yield` passes a context of the ring, and the other one when
  a context of the ring is current.
-/
def YieldsNext
    (context1 context2 : UInt32)
    (k : Kernel) : Prop :=
  ∃ target,
    k.yieldTarget = some target ∧ target ≠ 0 ∧
    (target = context1 ∨ target = context2) ∧
    (k.courant = context1 → target = context2) ∧
    (k.courant = context2 → target = context1)

------------------------------------------------------------
-- A Current Context
------------------------------------------------------------

/- Each of the two contexts links to the other one. -/
structure Linked
    (context1 context2 : UInt32)
    (k : Kernel) : Prop where
  nonnull1 : context1 ≠ 0
  nonnull2 : context2 ≠ 0
  next1 : (k.mem context1).next = context2
  next2 : (k.mem context2).next = context1

variable {context1 context2 keyboardIrq loading : UInt32}
variable {k after : Kernel}

theorem initCtx_next
    {ctx f next : UInt32}
    {res : Int32}
    (hInit : k.initCtx ctx f next = some (res, after)) :
    (after.mem ctx).next = next ∧
      after.listeContextes = k.listeContextes := by
  by_cases hNull : ctx = 0
  · simp [initCtx, ctx?, hNull] at hInit
  · simp only [initCtx, ctx?, setCtx?, if_neg hNull,
      Option.bind_eq_bind, Option.bind_some,
      Option.some.injEq, Prod.mk.injEq] at hInit
    rcases hInit with ⟨_, rfl⟩
    exact ⟨by simp, rfl⟩

/- `main` links the contexts and assigns no global. -/
theorem setUp_spec
    (hDistinct : context1 ≠ context2)
    (hSetUp :
      k.setUp context1 context2 keyboardIrq loading =
        some after) :
    after.Linked context1 context2 ∧
      after.courant = k.courant ∧
      after.listeContextes = k.listeContextes := by
  rcases Option.bind_eq_some_iff.mp hSetUp with
    ⟨⟨res2, first⟩, hInit2, hRest⟩
  rcases Option.bind_eq_some_iff.mp hRest with
    ⟨⟨res1, second⟩, hInit1, hAfter⟩
  cases hAfter
  rcases initCtx_spec hInit2 with
    ⟨hNonnull2, _, _, _, hCourant2⟩
  rcases initCtx_spec hInit1 with
    ⟨hNonnull1, _, hOthers, _, hCourant1⟩
  rcases initCtx_next hInit2 with ⟨hNext2, hListe2⟩
  rcases initCtx_next hInit1 with ⟨hNext1, hListe1⟩
  refine ⟨⟨hNonnull1, hNonnull2, hNext1, ?_⟩,
    hCourant1.trans hCourant2, hListe1.trans hListe2⟩
  rw [hOthers context2 hDistinct.symm]
  exact hNext2

/- A switch keeps the links. -/
theorem Linked.switchToCtx
    (hLinked : k.Linked context1 context2)
    {target : UInt32}
    (hTarget : target ≠ 0)
    (hSwitch : k.switchToCtx target = some after) :
    after.Linked context1 context2 ∧
      after.courant = target := by
  rcases switchToCtx_spec (k := k) hTarget with
    ⟨after', hSwitch', hCourant, _, _, _, _, hNext, _⟩
  cases hSwitch.symm.trans hSwitch'
  exact
    ⟨⟨hLinked.nonnull1, hLinked.nonnull2,
      (hNext context1).trans hLinked.next1,
      (hNext context2).trans hLinked.next2⟩, hCourant⟩

/- A context of the ring yields to the other one. -/
theorem Linked.yieldsNext
    (hLinked : k.Linked context1 context2)
    (hDistinct : context1 ≠ context2)
    (hCourant :
      k.courant = context1 ∨ k.courant = context2) :
    k.YieldsNext context1 context2 := by
  rcases hCourant with hFirst | hSecond
  · refine ⟨context2, ?_, hLinked.nonnull2, Or.inr rfl,
      fun _ => rfl, fun hSecond => ?_⟩
    · unfold yieldTarget
      rw [hFirst, if_neg hLinked.nonnull1,
        ctx?_of_ne hLinked.nonnull1, Option.map_some,
        hLinked.next1]
    · exact absurd (hFirst.symm.trans hSecond) hDistinct
  · refine ⟨context1, ?_, hLinked.nonnull1, Or.inl rfl,
      fun hFirst => ?_, fun _ => rfl⟩
    · unfold yieldTarget
      rw [hSecond, if_neg hLinked.nonnull2,
        ctx?_of_ne hLinked.nonnull2, Option.map_some,
        hLinked.next2]
    · exact absurd (hFirst.symm.trans hSecond) hDistinct

/-
  From a current context of the ring on, every interrupt
  passes to the next context, without a skip.
-/
theorem Linked.round_robin
    (hLinked : k.Linked context1 context2)
    (hDistinct : context1 ≠ context2)
    (hCourant :
      k.courant = context1 ∨ k.courant = context2)
    (ticks : List StackPointers) :
    Always tick k ticks
      fun t _ => t.YieldsNext context1 context2 := by
  intro t cpu hPerforms
  have hInRing :
      t.Linked context1 context2 ∧
        (t.courant = context1 ∨ t.courant = context2) := by
    refine reached_invariant
      (fun u =>
        u.Linked context1 context2 ∧
          (u.courant = context1 ∨ u.courant = context2))
      ⟨hLinked, hCourant⟩ ?_ hPerforms.reached
    intro u cpu' u' _ hRing hTick
    rcases hRing with ⟨hLinked, hCourant⟩
    have hFramed :
        Linked context1 context2 { u with cpu := cpu' } :=
      ⟨hLinked.nonnull1, hLinked.nonnull2, hLinked.next1,
        hLinked.next2⟩
    rcases hFramed.yieldsNext hDistinct hCourant with
      ⟨target, hYield, hNonnull, hMember, _⟩
    unfold tick yield at hTick
    rw [hYield] at hTick
    rcases hFramed.switchToCtx hNonnull hTick with
      ⟨hLinked', hCurrent⟩
    refine ⟨hLinked', ?_⟩
    rw [hCurrent]
    exact hMember
  exact hInRing.1.yieldsNext hDistinct hInRing.2

------------------------------------------------------------
-- From the Start
------------------------------------------------------------

/-
  After `main` has set the ring up, with both globals null as
  they are from the start, the interrupts follow the ring
  exactly when none comes.
-/
theorem boot_round_robin_iff
    {start : Kernel}
    (hCourant : start.courant = 0)
    (hListe : start.listeContextes = 0)
    (hDistinct : context1 ≠ context2)
    (hSetUp :
      start.setUp context1 context2 keyboardIrq loading =
        some k)
    (ticks : List StackPointers) :
    Always tick k ticks
        (fun t _ => t.YieldsNext context1 context2) ↔
      ticks = [] := by
  rcases setUp_spec hDistinct hSetUp with
    ⟨hLinked, hSame, hSameListe⟩
  constructor
  · intro hAll
    cases ticks with
    | nil => rfl
    | cons cpu ticks =>
        rcases hAll k cpu ⟨[], ticks, rfl, rfl⟩ with
          ⟨target, hYield, hNonnull, _⟩
        -- The first interrupt passes `listeContextes`.
        unfold yieldTarget at hYield
        rw [hSame, hCourant, if_pos rfl, hSameListe, hListe,
          Option.some.injEq] at hYield
        exact absurd hYield.symm hNonnull
  · rintro rfl t cpu hPerforms
    exact absurd hPerforms performs_nil

/- No interrupt is fine, and any two are not. -/
theorem boot_round_robin_sample :
    ∃ k,
      Tracked.idleKernel.setUp 0x4000 0x8000 1 2 = some k ∧
      (Always tick k []
        fun t _ => t.YieldsNext 0x4000 0x8000) ∧
      ∀ first second : StackPointers,
        ¬ Always tick k [first, second]
          fun t _ => t.YieldsNext 0x4000 0x8000 := by
  have hDefined :
      (Tracked.idleKernel.setUp 0x4000 0x8000 1
        2).isSome := by
    decide
  rcases Option.isSome_iff_exists.mp hDefined with
    ⟨k, hSetUp⟩
  have hOnly :=
    boot_round_robin_iff rfl rfl (by decide) hSetUp
  refine ⟨k, hSetUp, (hOnly []).mpr rfl, ?_⟩
  intro first second hAll
  cases (hOnly [first, second]).mp hAll

/- The first interrupt passes a null pointer. -/
theorem first_tick_yields_null :
    ∃ k,
      Tracked.idleKernel.setUp 0x4000 0x8000 1 2 = some k ∧
      k.yieldTarget = some 0 ∧
      ¬ Always tick k [⟨0x9000, 0x9000⟩]
        fun t _ => t.YieldsNext 0x4000 0x8000 := by
  have hState :
      ∃ k ∈ Tracked.idleKernel.setUp 0x4000 0x8000 1 2,
        k.yieldTarget = some 0 := by
    decide
  rcases hState with ⟨k, hSetUp, hNull⟩
  refine ⟨k, hSetUp, hNull, fun hAll => ?_⟩
  rcases hAll k _ ⟨[], [], rfl, rfl⟩ with
    ⟨target, hYield, hNonnull, _⟩
  rw [hNull, Option.some.injEq] at hYield
  exact hNonnull hYield.symm

end Kernel

end AsaKernel
