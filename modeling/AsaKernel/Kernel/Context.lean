import AsaKernel.Foundations.Transition
import Mathlib.Logic.Function.Basic

/-
  The contexts of the kernel (my-kernel-asa: context.h,
  context.c) and their switch.

  A context is a structure that the caller provides; contexts
  at different addresses do not overlap.  Access through a
  null pointer has no defined result.

  `switch_to_ctx` saves the stack pointers of the CPU into the
  context that it leaves.  The second block of assembly, which
  should load them from the context that it enters, moves in
  the same direction as the first.

  Main declarations:
    * `Ctx`, `Kernel`
    * `Kernel.initCtx`, `Kernel.switchToCtx`, `Kernel.yield`
    * `Kernel.switchToCtx_eq`
    * `Tracked`, `Tracked.SwitchOk`
    * `Tracked.switches_preserve_iff`
-/

------------------------------------------------------------
-- Contexts
------------------------------------------------------------

namespace AsaKernel

open Transition

/- enum ctx_state_e -/
inductive CtxState where
  | ready
  | activable
  | terminated
deriving DecidableEq, Repr

/- The stack registers of the CPU, or their saved values. -/
structure StackPointers where
  esp : UInt32
  ebp : UInt32
deriving DecidableEq, Repr

/-
  ctx_t, without the bytes of its stack.  An entry function is
  given by its address.
-/
structure Ctx where
  magic : UInt32
  saved : StackPointers
  entry : UInt32
  state : CtxState
  args : UInt32
  next : UInt32
deriving DecidableEq, Repr

namespace Ctx

/- MAGIC -/
def magicNumber : UInt32 := 0xDEADBEEF

/- The offset of the field `stack` in a `ctx_t`. -/
def stackOffset : UInt32 := 16

/- sizeof(ctx->stack) -/
def stackSize : UInt32 := 8192

/- Where the stack of the context at this address starts. -/
def stackTop
    (ctx : UInt32) : StackPointers where
  esp := ctx + stackOffset + stackSize - 4
  ebp := ctx + stackOffset + stackSize - 4

end Ctx

/-
  The globals of context.c, the memory that holds contexts,
  the CPU, and the calls of entry functions made so far, each
  with its argument.
-/
structure Kernel where
  mem : UInt32 → Ctx
  listeContextes : UInt32
  courant : UInt32
  cpu : StackPointers
  entered : List (UInt32 × UInt32)

namespace Kernel

/- The context that a pointer designates. -/
def ctx?
    (k : Kernel)
    (p : UInt32) : Option Ctx :=
  if p = 0 then none else some (k.mem p)

/- Assign the context that a pointer designates. -/
def setCtx?
    (k : Kernel)
    (p : UInt32)
    (ctx : Ctx) : Option Kernel :=
  if p = 0 then none
  else some { k with mem := Function.update k.mem p ctx }

/- init_ctx; the field `args` is not assigned -/
def initCtx
    (ctx f next : UInt32)
    (k : Kernel) : Option (Int32 × Kernel) := do
  let old ← k.ctx? ctx
  let k ← k.setCtx? ctx
    { old with
      magic := Ctx.magicNumber
      entry := f
      state := .ready
      saved := Ctx.stackTop ctx
      next := next }
  some (0, k)

/-
  The assembly of `switch_to_ctx`, in either block: `%0` and
  `%1` are outputs, so the registers are moved to the fields.
-/
def storeStackPointers
    (k : Kernel) : Option Kernel := do
  let ctx ← k.ctx? k.courant
  k.setCtx? k.courant { ctx with saved := k.cpu }

/- The start of `switch_to_ctx`: save the current context. -/
def saveCourant
    (k : Kernel) : Option Kernel :=
  if k.courant ≠ 0 then k.storeStackPointers else some k

/-
  The end of `switch_to_ctx`: a context that was never run is
  started with a call of its entry function.
-/
def startIfReady
    (k : Kernel) : Option Kernel := do
  let ctx ← k.ctx? k.courant
  if ctx.state = .ready then
    let k ←
      k.setCtx? k.courant { ctx with state := .activable }
    some { k with
      entered := k.entered ++ [(ctx.entry, ctx.args)] }
  else some k

/- switch_to_ctx, up to the call of an entry function -/
def switchToCtx
    (target : UInt32)
    (k : Kernel) : Option Kernel := do
  let k ← k.saveCourant
  let k := { k with courant := target }
  let k ← k.storeStackPointers
  k.startIfReady

/- The context that `yield` passes to `switch_to_ctx`. -/
def yieldTarget
    (k : Kernel) : Option UInt32 :=
  if k.courant = 0 then some k.listeContextes
  else (k.ctx? k.courant).map Ctx.next

/- yield -/
def yield
    (k : Kernel) : Option Kernel := do
  let oldCourant ← k.yieldTarget
  k.switchToCtx oldCourant

------------------------------------------------------------
-- What a Switch Does
------------------------------------------------------------

variable {k after : Kernel} {target : UInt32}

theorem ctx?_of_ne
    {p : UInt32}
    (hNonnull : p ≠ 0) :
    k.ctx? p = some (k.mem p) :=
  if_neg hNonnull

/- Another kernel with the same contexts, except at `p`. -/
structure DiffersAt
    (k after : Kernel)
    (p : UInt32) : Prop where
  others : ∀ q, q ≠ p → after.mem q = k.mem q
  next : ∀ q, (after.mem q).next = (k.mem q).next
  courant : after.courant = k.courant
  liste : after.listeContextes = k.listeContextes
  cpu : after.cpu = k.cpu

theorem DiffersAt.refl
    (p : UInt32) :
    k.DiffersAt k p where
  others _ _ := rfl
  next _ := rfl
  courant := rfl
  liste := rfl
  cpu := rfl

/- An assignment that keeps the link. -/
theorem setCtx?_spec
    {p : UInt32}
    (hNonnull : p ≠ 0)
    (ctx : Ctx)
    (hNext : ctx.next = (k.mem p).next) :
    ∃ after,
      k.setCtx? p ctx = some after ∧
      k.DiffersAt after p ∧ after.mem p = ctx := by
  refine ⟨_, if_neg hNonnull, ?_, ?_⟩
  · refine ⟨fun q hNe => ?_, fun q => ?_, rfl, rfl, rfl⟩
    · exact Function.update_of_ne hNe _ _
    · by_cases hq : q = p
      · subst hq
        simpa using hNext
      · simp [Function.update_of_ne hq]
  · exact Function.update_self _ _ _

/- The registers are stored in the current context. -/
theorem storeStackPointers_spec
    (hCourant : k.courant ≠ 0) :
    ∃ after,
      k.storeStackPointers = some after ∧
      k.DiffersAt after k.courant ∧
      (after.mem k.courant).saved = k.cpu := by
  unfold storeStackPointers
  rw [ctx?_of_ne hCourant, Option.bind_eq_bind,
    Option.bind_some]
  rcases setCtx?_spec hCourant
      { k.mem k.courant with saved := k.cpu } rfl with
    ⟨after, hSet, hDiffers, hCtx⟩
  exact ⟨after, hSet, hDiffers, by rw [hCtx]⟩

/- Nothing is stored when no context is current. -/
theorem saveCourant_spec :
    ∃ after,
      k.saveCourant = some after ∧
      k.DiffersAt after k.courant ∧
      (k.courant ≠ 0 →
        (after.mem k.courant).saved = k.cpu) := by
  unfold saveCourant
  by_cases hCourant : k.courant ≠ 0
  · rw [if_pos hCourant]
    rcases storeStackPointers_spec hCourant with
      ⟨after, hStore, hDiffers, hSaved⟩
    exact ⟨after, hStore, hDiffers, fun _ => hSaved⟩
  · rw [if_neg hCourant]
    exact
      ⟨k, rfl, DiffersAt.refl _,
        fun hNe => absurd hNe hCourant⟩

/- The start of a context does not touch what is saved. -/
theorem startIfReady_spec
    (hCourant : k.courant ≠ 0) :
    ∃ after,
      k.startIfReady = some after ∧
      k.DiffersAt after k.courant ∧
      (after.mem k.courant).saved =
        (k.mem k.courant).saved := by
  unfold startIfReady
  rw [ctx?_of_ne hCourant, Option.bind_eq_bind,
    Option.bind_some]
  by_cases hReady : (k.mem k.courant).state = .ready
  · rw [if_pos hReady]
    rcases setCtx?_spec hCourant
        { k.mem k.courant with state := .activable } rfl
      with ⟨started, hSet, hDiffers, hCtx⟩
    rw [hSet]
    refine
      ⟨{ started with
          entered :=
            started.entered ++
              [((k.mem k.courant).entry,
                (k.mem k.courant).args)] },
        rfl,
        ⟨hDiffers.others, hDiffers.next, hDiffers.courant,
          hDiffers.liste, hDiffers.cpu⟩, ?_⟩
    have hSaved :
        (started.mem k.courant).saved =
          (k.mem k.courant).saved := by
      rw [hCtx]
    exact hSaved
  · rw [if_neg hReady]
    exact ⟨k, rfl, DiffersAt.refl _, rfl⟩

/-
  A switch leaves the registers as they are and overwrites
  what the entered context had saved with them.
-/
theorem switchToCtx_spec
    (hTarget : target ≠ 0) :
    ∃ after,
      k.switchToCtx target = some after ∧
      after.courant = target ∧ after.cpu = k.cpu ∧
      (after.mem target).saved = k.cpu ∧
      (k.courant ≠ 0 →
        (after.mem k.courant).saved = k.cpu) ∧
      (∀ p, p ≠ target → p ≠ k.courant →
        after.mem p = k.mem p) ∧
      (∀ p, (after.mem p).next = (k.mem p).next) ∧
      after.listeContextes = k.listeContextes := by
  rcases saveCourant_spec (k := k) with
    ⟨left, hLeft, hFirst, hSaved⟩
  rcases storeStackPointers_spec
      (k := { left with courant := target }) hTarget with
    ⟨stored, hStore, hSecond, hOverwritten⟩
  have hCurrent : stored.courant = target :=
    hSecond.courant
  rcases startIfReady_spec (k := stored)
      (by rw [hCurrent]; exact hTarget) with
    ⟨after, hStart, hThird, hKept⟩
  rw [hCurrent] at hThird hKept
  have hCpu : stored.cpu = k.cpu :=
    hSecond.cpu.trans hFirst.cpu
  have hTop : (after.mem target).saved = k.cpu :=
    hKept.trans (hOverwritten.trans hFirst.cpu)
  have hSame :
      ∀ p, p ≠ target → after.mem p = left.mem p :=
    fun p hNe =>
      (hThird.others p hNe).trans (hSecond.others p hNe)
  refine ⟨after, ?_, hThird.courant.trans hCurrent,
    hThird.cpu.trans hCpu, hTop, ?_, ?_, ?_, ?_⟩
  · unfold switchToCtx
    simp only [hLeft, Option.bind_eq_bind,
      Option.bind_some, hStore, hStart]
  · intro hCourant
    by_cases hSelf : k.courant = target
    · rw [hSelf]
      exact hTop
    · rw [hSame _ hSelf]
      exact hSaved hCourant
  · intro p hNe hNeCourant
    rw [hSame p hNe, hFirst.others p hNeCourant]
  · intro p
    rw [hThird.next, hSecond.next, hFirst.next]
  · exact hThird.liste.trans
      (hSecond.liste.trans hFirst.liste)

/- A context that is set up will run on its own stack. -/
theorem initCtx_spec
    {ctx f next : UInt32}
    {res : Int32}
    (hInit : k.initCtx ctx f next = some (res, after)) :
    ctx ≠ 0 ∧
      (after.mem ctx).saved = Ctx.stackTop ctx ∧
      (∀ p, p ≠ ctx → after.mem p = k.mem p) ∧
      after.cpu = k.cpu ∧ after.courant = k.courant := by
  by_cases hNull : ctx = 0
  · simp [initCtx, ctx?, hNull] at hInit
  · simp only [initCtx, ctx?, setCtx?, if_neg hNull,
      Option.bind_eq_bind, Option.bind_some,
      Option.some.injEq, Prod.mk.injEq] at hInit
    rcases hInit with ⟨_, rfl⟩
    refine ⟨hNull, ?_, ?_, rfl, rfl⟩
    · simp
    · intro p hNe
      simp [Function.update_of_ne hNe]

end Kernel

------------------------------------------------------------
-- Sequences of Switches
------------------------------------------------------------

/-
  What happens around switches: a context is set up, the
  running context moves its stack pointers, a context is
  switched to.
-/
inductive KernelStep where
  | init (ctx f next : UInt32)
  | run (cpu : StackPointers)
  | switch (target : UInt32)
deriving DecidableEq, Repr

/-
  The kernel, and where each context that was set up should
  resume: at the top of its stack, or with the stack pointers
  that the CPU had when it was last switched out.
-/
structure Tracked where
  kernel : Kernel
  home : UInt32 → Option StackPointers

namespace Tracked

/- One step; a switch leaves the current context. -/
def step
    (t : Tracked) : KernelStep → Option Tracked
| .init ctx f next => do
    let (_, kernel) ← t.kernel.initCtx ctx f next
    some
      { kernel := kernel
        home :=
          Function.update t.home ctx
            (some (Ctx.stackTop ctx)) }
| .run cpu =>
    some { t with kernel := { t.kernel with cpu := cpu } }
| .switch target => do
    let kernel ← t.kernel.switchToCtx target
    some
      { kernel := kernel
        home :=
          if t.kernel.courant = 0 then t.home
          else
            Function.update t.home t.kernel.courant
              (some t.kernel.cpu) }

/- A switch goes to a context that was set up. -/
def SetUp
    (t : Tracked) : KernelStep → Prop
| .switch target => (t.home target).isSome
| _ => True

/-
  A switch stores the CPU's stack pointers in the context that
  it leaves and in no other, and resumes the target where it
  should.
-/
def SwitchOk
    (t : Tracked) : KernelStep → Prop
| .switch target =>
    ∃ after,
      t.kernel.switchToCtx target = some after ∧
      (t.kernel.courant ≠ 0 →
        (after.mem t.kernel.courant).saved =
          t.kernel.cpu) ∧
      (∀ p, p ≠ t.kernel.courant →
        (after.mem p).saved = (t.kernel.mem p).saved) ∧
      some after.cpu =
        if target = t.kernel.courant then
          some t.kernel.cpu
        else t.home target
| _ => True

/-
  The target is the context that runs, or the CPU already has
  the stack pointers that the target saved.
-/
def Coincides
    (t : Tracked) : KernelStep → Prop
| .switch target =>
    target = t.kernel.courant ∨
      (t.kernel.mem target).saved = t.kernel.cpu
| _ => True

instance (t : Tracked) (label : KernelStep) :
    Decidable (t.SetUp label) :=
  match label with
  | .switch _ => inferInstanceAs (Decidable (_ = _))
  | .init _ _ _ | .run _ => isTrue trivial

instance (t : Tracked) (label : KernelStep) :
    Decidable (t.Coincides label) :=
  match label with
  | .switch _ => inferInstanceAs (Decidable (_ ∨ _))
  | .init _ _ _ | .run _ => isTrue trivial

/- No context is set up at the null address. -/
def NullFree
    (t : Tracked) : Prop :=
  t.home 0 = none

/- What contexts saved is where they should resume. -/
def Faithful
    (t : Tracked) : Prop :=
  ∀ p saved, t.home p = some saved →
    (t.kernel.mem p).saved = saved

variable {t u : Tracked}

theorem NullFree.ne_zero
    (hNullFree : t.NullFree)
    {p : UInt32}
    (hHome : (t.home p).isSome) :
    p ≠ 0 := by
  rintro rfl
  rw [hNullFree] at hHome
  exact absurd hHome Bool.false_ne_true

theorem NullFree.step
    (hNullFree : t.NullFree)
    {label : KernelStep}
    (hStep : t.step label = some u) :
    u.NullFree := by
  cases label with
  | init ctx f next =>
      rcases Option.bind_eq_some_iff.mp hStep with
        ⟨⟨res, kernel⟩, hInit, hNext⟩
      cases hNext
      have hNonnull := (Kernel.initCtx_spec hInit).1
      exact (Function.update_of_ne hNonnull.symm _ _).trans
        hNullFree
  | run cpu =>
      cases hStep
      exact hNullFree
  | switch target =>
      rcases Option.bind_eq_some_iff.mp hStep with
        ⟨kernel, _, hNext⟩
      cases hNext
      by_cases hCourant : t.kernel.courant = 0
      · rw [if_pos hCourant]
        exact hNullFree
      · rw [if_neg hCourant]
        exact (Function.update_of_ne (Ne.symm hCourant)
          _ _).trans hNullFree

/- A switch that is in order finds the registers in place. -/
theorem coincides_of_switchOk
    (hNullFree : t.NullFree)
    {target : UInt32}
    (hTarget : (t.home target).isSome)
    (hOk : t.SwitchOk (.switch target)) :
    t.Coincides (.switch target) := by
  rcases hOk with ⟨after, hSwitch, _, hKept, _⟩
  rcases Kernel.switchToCtx_spec (k := t.kernel)
      (hNullFree.ne_zero hTarget) with
    ⟨after', hSwitch', _, _, hOverwritten, _⟩
  cases hSwitch.symm.trans hSwitch'
  by_cases hSelf : target = t.kernel.courant
  · exact Or.inl hSelf
  · right
    rw [← hKept target hSelf]
    exact hOverwritten

/- With the registers in place a switch is in order. -/
theorem Faithful.switchOk
    (hFaithful : t.Faithful)
    (hNullFree : t.NullFree)
    {target : UInt32}
    (hTarget : (t.home target).isSome)
    (hCoincides : t.Coincides (.switch target)) :
    t.SwitchOk (.switch target) := by
  rcases Kernel.switchToCtx_spec (k := t.kernel)
      (hNullFree.ne_zero hTarget) with
    ⟨after, hSwitch, _, hCpu, hOverwritten, hLeft, hOthers,
      _⟩
  refine ⟨after, hSwitch, hLeft, ?_, ?_⟩
  · intro p hNe
    by_cases hp : p = target
    · subst hp
      rw [hOverwritten, hCoincides.resolve_left hNe]
    · rw [hOthers p hp hNe]
  · rw [hCpu]
    by_cases hSelf : target = t.kernel.courant
    · rw [if_pos hSelf]
    · rcases Option.isSome_iff_exists.mp hTarget with
        ⟨saved, hHome⟩
      rw [if_neg hSelf, hHome,
        ← hFaithful target saved hHome,
        hCoincides.resolve_left hSelf]

/- One context saves stack pointers, and they are recorded. -/
theorem Faithful.record
    (hFaithful : t.Faithful)
    {kernel : Kernel}
    {ctx : UInt32}
    {saved : StackPointers}
    (hSaved : (kernel.mem ctx).saved = saved)
    (hOthers :
      ∀ p, p ≠ ctx →
        (kernel.mem p).saved = (t.kernel.mem p).saved) :
    Faithful
      { kernel := kernel
        home := Function.update t.home ctx (some saved) } := by
  intro p saved' hHome
  by_cases hp : p = ctx
  · have hRecorded : some saved = some saved' := by
      rw [← hHome, hp]
      exact (Function.update_self ctx (some saved)
        t.home).symm
    cases hRecorded
    rw [hp]
    exact hSaved
  · have hOld : t.home p = some saved' := by
      rw [← hHome]
      exact (Function.update_of_ne hp (some saved)
        t.home).symm
    exact (hOthers p hp).trans (hFaithful p saved' hOld)

/- Steps with the registers in place keep this. -/
theorem Faithful.step
    (hFaithful : t.Faithful)
    (hNullFree : t.NullFree)
    {label : KernelStep}
    (hSetUp : t.SetUp label)
    (hCoincides : t.Coincides label)
    (hStep : t.step label = some u) :
    u.Faithful := by
  cases label with
  | init ctx f next =>
      rcases Option.bind_eq_some_iff.mp hStep with
        ⟨⟨res, kernel⟩, hInit, hNext⟩
      cases hNext
      rcases Kernel.initCtx_spec hInit with
        ⟨_, hTop, hOthers, _⟩
      exact hFaithful.record hTop fun p hNe => by
        rw [hOthers p hNe]
  | run cpu =>
      cases hStep
      exact hFaithful
  | switch target =>
      rcases hFaithful.switchOk hNullFree hSetUp hCoincides
        with ⟨after, hSwitch, hLeft, hKept, _⟩
      rcases Option.bind_eq_some_iff.mp hStep with
        ⟨kernel, hSwitch', hNext⟩
      cases hSwitch.symm.trans hSwitch'
      cases hNext
      by_cases hNull : t.kernel.courant = 0
      · rw [if_pos hNull]
        intro p saved hHome
        have hNe : p ≠ t.kernel.courant := by
          rw [hNull]
          exact hNullFree.ne_zero
            (Option.isSome_iff_exists.mpr ⟨saved, hHome⟩)
        exact (hKept p hNe).trans
          (hFaithful p saved hHome)
      · rw [if_neg hNull]
        exact hFaithful.record (hLeft hNull) hKept

/-
  In every sequence of steps the switches keep the stacks of
  the contexts apart exactly when each of them goes to the
  running context or finds the stack pointers that the target
  saved in the CPU.
-/
theorem switches_preserve_iff
    (k : Kernel)
    (labels : List KernelStep)
    (hSetUp :
      Always step ⟨k, fun _ => none⟩ labels SetUp) :
    Always step ⟨k, fun _ => none⟩ labels SwitchOk ↔
      Always step ⟨k, fun _ => none⟩ labels Coincides := by
  have hNullFree :
      ∀ t label,
        Performs step ⟨k, fun _ => none⟩ labels t label →
          t.NullFree := by
    intro t label hPerforms
    refine reached_invariant NullFree (by rfl) ?_
      hPerforms.reached
    intro s label' u _ hNullFree hStep
    exact hNullFree.step hStep
  constructor
  · intro hAll t label hPerforms
    cases label with
    | init _ _ _ | run _ => trivial
    | switch target =>
        exact coincides_of_switchOk
          (hNullFree t _ hPerforms) (hSetUp t _ hPerforms)
          (hAll t _ hPerforms)
  · intro hAll t label hPerforms
    have hFaithful : t.Faithful := by
      refine reached_invariant Faithful
        (fun _ _ hHome => by cases hHome) ?_
        hPerforms.reached
      intro s label' u hBefore hFaithful hStep
      exact hFaithful.step (hNullFree s label' hBefore)
        (hSetUp s label' hBefore) (hAll s label' hBefore)
        hStep
    cases label with
    | init _ _ _ | run _ => trivial
    | switch target =>
        exact hFaithful.switchOk (hNullFree t _ hPerforms)
          (hSetUp t _ hPerforms) (hAll t _ hPerforms)

/- A kernel before its first context. -/
def idleKernel : Kernel where
  mem _ := ⟨0, ⟨0, 0⟩, 0, .terminated, 0, 0⟩
  listeContextes := 0
  courant := 0
  cpu := ⟨0x9000, 0x9000⟩
  entered := []

/-
  A context is entered when the CPU already stands at the top
  of its stack, and is then switched to again.
-/
def selfSwitches : List KernelStep :=
  [.init 0x4000 1 0x4000,
    .run ⟨0x600C, 0x600C⟩, .switch 0x4000,
    .run ⟨0x5000, 0x5100⟩, .switch 0x4000]

theorem switches_preserve_sample :
    Always step ⟨idleKernel, fun _ => none⟩ selfSwitches
      SwitchOk :=
  (switches_preserve_iff idleKernel selfSwitches
    (by decide)).mpr (by decide)

/- Two contexts take turns, each with registers of its own. -/
def twoContexts : List KernelStep :=
  [.init 0x4000 1 0x8000, .init 0x8000 2 0x4000,
    .switch 0x4000, .run ⟨0x5000, 0x5100⟩, .switch 0x8000]

/-
  The first context is entered on the stack of whoever ran
  before, and the top of its own stack is forgotten.
-/
theorem first_switch_keeps_stack :
    ¬ Always step ⟨idleKernel, fun _ => none⟩ twoContexts
        SwitchOk := by
  have hState :
      ∃ t ∈ run step ⟨idleKernel, fun _ => none⟩
          (twoContexts.take 2),
        t.home 0 = none ∧ (t.home 0x4000).isSome ∧
        ¬ t.Coincides (.switch 0x4000) := by
    decide
  rcases hState with
    ⟨t, hRun, hNullFree, hTarget, hApart⟩
  intro hAll
  have hPerforms :
      Performs step ⟨idleKernel, fun _ => none⟩ twoContexts
        t (.switch 0x4000) :=
    ⟨twoContexts.take 2, twoContexts.drop 3, rfl, hRun⟩
  exact hApart (coincides_of_switchOk hNullFree hTarget
    (hAll t _ hPerforms))

end Tracked

end AsaKernel
