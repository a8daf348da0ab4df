import Mathlib.Data.List.Induction

/-
  Runs of a partial transition function.

  A run feeds a list of labels to `step`; a step that is
  undefined (`none`) ends the run without a result.  Two
  relations name the moments of a run: `Performs` the state
  in which a label is executed, `Reached` the states passed
  through.  Properties of whole runs are stated with them.

  Main declarations:
    * `run`
    * `Performs`, `Reached`
    * `Always`, `Throughout`
    * `reached_invariant`, `always_iff_of_invariant`
    * `run_defined`
-/

------------------------------------------------------------
-- Runs
------------------------------------------------------------

namespace AsaKernel

namespace Transition

variable {σ α : Type*}

/- Execute the labels in order, stopping at an undefined step. -/
def run
    (step : σ → α → Option σ)
    (s : σ)
    (labels : List α) : Option σ :=
  labels.foldlM step s

/- The run executes the label `a` in the state `t`. -/
def Performs
    (step : σ → α → Option σ)
    (s : σ)
    (labels : List α)
    (t : σ)
    (a : α) : Prop :=
  ∃ before after,
    labels = before ++ a :: after ∧
      run step s before = some t

/- The run passes through the state `t`. -/
def Reached
    (step : σ → α → Option σ)
    (s : σ)
    (labels : List α)
    (t : σ) : Prop :=
  ∃ before after,
    labels = before ++ after ∧ run step s before = some t

/- The states of a run with the labels executed in them. -/
def visits
    (step : σ → α → Option σ) :
    σ → List α → List (σ × α)
| _, [] => []
| s, a :: labels =>
    (s, a) ::
      match step s a with
      | none => []
      | some t => visits step t labels

/- The states that a run passes through. -/
def states
    (step : σ → α → Option σ) :
    σ → List α → List σ
| s, [] => [s]
| s, a :: labels =>
    s ::
      match step s a with
      | none => []
      | some t => states step t labels

/- Every executed label is acceptable in its state. -/
def Always
    (step : σ → α → Option σ)
    (s : σ)
    (labels : List α)
    (p : σ → α → Prop) : Prop :=
  ∀ t a, Performs step s labels t a → p t a

/- Every state that the run passes through is acceptable. -/
def Throughout
    (step : σ → α → Option σ)
    (s : σ)
    (labels : List α)
    (p : σ → Prop) : Prop :=
  ∀ t, Reached step s labels t → p t

variable {step : σ → α → Option σ}
variable {s t u : σ} {a : α} {labels : List α}

@[simp] theorem run_nil :
    run step s [] = some s := rfl

theorem run_cons :
    run step s (a :: labels) =
      (step s a).bind fun t => run step t labels := by
  simp [run, List.foldlM_cons]

theorem run_append
    (before after : List α) :
    run step s (before ++ after) =
      (run step s before).bind fun t =>
        run step t after := by
  simp [run, List.foldlM_append]

/- A run extended by one label is the run and one more step. -/
theorem run_concat_eq_some
    (before : List α) :
    run step s (before ++ [a]) = some u ↔
      ∃ t, run step s before = some t ∧
        step t a = some u := by
  rw [run_append, Option.bind_eq_some_iff]
  simp [run]

------------------------------------------------------------
-- Moments of a Run
------------------------------------------------------------

theorem reached_self :
    Reached step s labels s :=
  ⟨[], labels, rfl, rfl⟩

theorem reached_of_run
    (hRun : run step s labels = some t) :
    Reached step s labels t :=
  ⟨labels, [], by simp, hRun⟩

/- A label is executed in a state the run passes through. -/
theorem Performs.reached
    (hPerforms : Performs step s labels t a) :
    Reached step s labels t := by
  rcases hPerforms with ⟨before, after, hLabels, hRun⟩
  exact ⟨before, a :: after, hLabels, hRun⟩

/- The successor of an executed label is passed through too. -/
theorem Performs.reached_step
    (hPerforms : Performs step s labels t a)
    (hStep : step t a = some u) :
    Reached step s labels u := by
  rcases hPerforms with ⟨before, after, hLabels, hRun⟩
  refine ⟨before ++ [a], after, by simp [hLabels], ?_⟩
  exact (run_concat_eq_some before).mpr ⟨t, hRun, hStep⟩

/- An executed label occurs in the list of labels. -/
theorem Performs.mem
    (hPerforms : Performs step s labels t a) :
    a ∈ labels := by
  rcases hPerforms with ⟨before, after, rfl, _⟩
  simp

theorem performs_nil :
    ¬ Performs step s [] t a := by
  rintro ⟨before, after, hLabels, _⟩
  simp at hLabels

/- The first label is executed in the initial state. -/
theorem performs_cons
    {b : α} :
    Performs step s (a :: labels) t b ↔
      (t = s ∧ b = a) ∨
        ∃ u, step s a = some u ∧
          Performs step u labels t b := by
  constructor
  · rintro ⟨before, after, hLabels, hRun⟩
    cases before with
    | nil =>
        rw [List.nil_append, List.cons.injEq] at hLabels
        exact Or.inl ⟨(Option.some.inj hRun).symm,
          hLabels.1.symm⟩
    | cons c before =>
        rw [List.cons_append, List.cons.injEq] at hLabels
        rcases hLabels with ⟨rfl, hLabels⟩
        rw [run_cons, Option.bind_eq_some_iff] at hRun
        rcases hRun with ⟨u, hStep, hRun⟩
        exact Or.inr
          ⟨u, hStep, before, after, hLabels, hRun⟩
  · rintro (⟨rfl, rfl⟩ | ⟨u, hStep, before, after,
      hLabels, hRun⟩)
    · exact ⟨[], labels, rfl, rfl⟩
    · refine ⟨a :: before, after, by simp [hLabels], ?_⟩
      rw [run_cons, hStep, Option.bind_some, hRun]

theorem reached_nil :
    Reached step s [] t ↔ t = s := by
  constructor
  · rintro ⟨before, after, hLabels, hRun⟩
    have hBefore : before = [] :=
      (List.append_eq_nil_iff.mp hLabels.symm).1
    rw [hBefore] at hRun
    exact (Option.some.inj hRun).symm
  · rintro rfl
    exact reached_self

theorem reached_cons :
    Reached step s (a :: labels) t ↔
      t = s ∨
        ∃ u, step s a = some u ∧
          Reached step u labels t := by
  constructor
  · rintro ⟨before, after, hLabels, hRun⟩
    cases before with
    | nil => exact Or.inl (Option.some.inj hRun).symm
    | cons b before =>
        rw [List.cons_append, List.cons.injEq] at hLabels
        rcases hLabels with ⟨rfl, hLabels⟩
        rw [run_cons, Option.bind_eq_some_iff] at hRun
        rcases hRun with ⟨u, hStep, hRun⟩
        exact Or.inr
          ⟨u, hStep, before, after, hLabels, hRun⟩
  · rintro (rfl | ⟨u, hStep, before, after, hLabels,
      hRun⟩)
    · exact reached_self
    · refine ⟨a :: before, after, by simp [hLabels], ?_⟩
      rw [run_cons, hStep, Option.bind_some, hRun]

/- A run passes through its start and what follows. -/
theorem throughout_cons
    {p : σ → Prop}
    (hStep : step s a = some t) :
    Throughout step s (a :: labels) p ↔
      p s ∧ Throughout step t labels p := by
  constructor
  · intro hAll
    refine ⟨hAll s reached_self, fun u hReached => ?_⟩
    exact hAll u (reached_cons.mpr
      (Or.inr ⟨t, hStep, hReached⟩))
  · rintro ⟨hFirst, hRest⟩ u hReached
    rcases reached_cons.mp hReached with
      rfl | ⟨t', hStep', hReached⟩
    · exact hFirst
    · cases hStep.symm.trans hStep'
      exact hRest u hReached

/- The executed labels can be listed. -/
theorem performs_iff_mem_visits :
    Performs step s labels t a ↔
      (t, a) ∈ visits step s labels := by
  induction labels generalizing s with
  | nil => simp [performs_nil, visits]
  | cons b labels ih =>
      rw [performs_cons, visits, List.mem_cons,
        Prod.mk.injEq]
      cases step s b with
      | none => simp
      | some u => simp [ih]

/- The states passed through can be listed. -/
theorem reached_iff_mem_states :
    Reached step s labels t ↔
      t ∈ states step s labels := by
  induction labels generalizing s with
  | nil => simp [reached_nil, states]
  | cons b labels ih =>
      rw [reached_cons, states, List.mem_cons]
      cases step s b with
      | none => simp
      | some u => simp [ih]

/- What holds of every executed label can be checked. -/
instance
    (p : σ → α → Prop)
    [∀ t a, Decidable (p t a)] :
    Decidable (Always step s labels p) :=
  decidable_of_iff
    (∀ visit ∈ visits step s labels, p visit.1 visit.2)
    (by simp only [Always, performs_iff_mem_visits,
      Prod.forall])

/- What holds of every state passed through can be checked. -/
instance
    (p : σ → Prop)
    [DecidablePred p] :
    Decidable (Throughout step s labels p) :=
  decidable_of_iff (∀ t ∈ states step s labels, p t)
    (by simp only [Throughout, reached_iff_mem_states])

/-
  A predicate that holds initially and that every executed
  label preserves holds in every state passed through.
-/
theorem reached_invariant
    (Inv : σ → Prop)
    (hInit : Inv s)
    (hStep :
      ∀ t a u, Performs step s labels t a → Inv t →
        step t a = some u → Inv u)
    (hReached : Reached step s labels t) :
    Inv t := by
  rcases hReached with ⟨before, after, hLabels, hRun⟩
  -- The induction follows the run from its last step back.
  induction before using List.reverseRecOn
      generalizing t after with
  | nil =>
      cases hRun
      exact hInit
  | append_singleton before a ih =>
      rcases (run_concat_eq_some before).mp hRun with
        ⟨mid, hBefore, hLast⟩
      have hSplit : labels = before ++ a :: after := by
        simpa using hLabels
      exact hStep mid a t
        ⟨before, after, hSplit, hBefore⟩
        (ih (a :: after) hSplit hBefore) hLast

/-
  Two conditions that agree wherever an invariant holds agree
  on every run from a state that satisfies it.
-/
theorem always_iff_of_invariant
    (Inv : σ → Prop)
    (hInit : Inv s)
    (hStep : ∀ t a u, Inv t → step t a = some u → Inv u)
    {p q : σ → α → Prop}
    (hIff : ∀ t a, Inv t → (p t a ↔ q t a)) :
    Always step s labels p ↔ Always step s labels q := by
  have hInv :
      ∀ t a, Performs step s labels t a → Inv t := by
    intro t a hPerforms
    refine reached_invariant Inv hInit ?_ hPerforms.reached
    intro u b u' _ hBefore hNext
    exact hStep u b u' hBefore hNext
  constructor
  · intro hAll t a hPerforms
    exact (hIff t a (hInv t a hPerforms)).mp
      (hAll t a hPerforms)
  · intro hAll t a hPerforms
    exact (hIff t a (hInv t a hPerforms)).mpr
      (hAll t a hPerforms)

/-
  If moreover every executed label has a successor, then the
  whole run is defined.
-/
theorem run_defined
    (Inv : σ → Prop)
    (hInit : Inv s)
    (hStep :
      ∀ t a, Performs step s labels t a → Inv t →
        ∃ u, step t a = some u ∧ Inv u) :
    ∃ t, run step s labels = some t ∧ Inv t := by
  induction labels using List.reverseRecOn with
  | nil => exact ⟨s, rfl, hInit⟩
  | append_singleton before a ih =>
      have hBefore :
          ∃ t, run step s before = some t ∧ Inv t := by
        apply ih
        intro t b hPerforms
        rcases hPerforms with
          ⟨front, back, hLabels, hRun⟩
        exact hStep t b
          ⟨front, back ++ [a], by simp [hLabels], hRun⟩
      rcases hBefore with ⟨t, hRun, hInv⟩
      rcases hStep t a ⟨before, [], rfl, hRun⟩ hInv with
        ⟨u, hLast, hNext⟩
      exact
        ⟨u, (run_concat_eq_some before).mpr
          ⟨t, hRun, hLast⟩, hNext⟩

/-
  A predicate that every executed label establishes again in
  some successor holds in every state passed through, because
  a step has one result.
-/
theorem reached_of_defined
    (Inv : σ → Prop)
    (hInit : Inv s)
    (hStep :
      ∀ t a, Performs step s labels t a → Inv t →
        ∃ u, step t a = some u ∧ Inv u)
    (hReached : Reached step s labels t) :
    Inv t := by
  refine reached_invariant Inv hInit ?_ hReached
  intro t a u hPerforms hInv hNext
  rcases hStep t a hPerforms hInv with
    ⟨u', hNext', hInv'⟩
  cases hNext.symm.trans hNext'
  exact hInv'

end Transition

end AsaKernel
