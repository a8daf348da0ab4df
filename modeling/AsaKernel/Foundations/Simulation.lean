import AsaKernel.Foundations.Transition

/-
  Runs of a partial transition function seen on a more
  abstract level.

  The abstract level is a labelled relation, so that it may
  leave open what it does not describe.  An abstraction
  function and an invariant relate the two levels; it is
  enough to check single steps.

  Main declarations:
    * `Follows`, `Follows.trans`
    * `follows_of_run`
    * `run_projected`, `always_projected_iff`
-/

------------------------------------------------------------
-- Runs of a Relation
------------------------------------------------------------

namespace AsaKernel

namespace Transition

variable {σ τ α : Type*}

/- The labels lead from the first state to the second. -/
inductive Follows
    (does : τ → α → τ → Prop) : τ → List α → τ → Prop
| nil (x : τ) : Follows does x [] x
| cons {x y z : τ} {a : α} {labels : List α}
    (first : does x a y)
    (rest : Follows does y labels z) :
    Follows does x (a :: labels) z

variable {does : τ → α → τ → Prop}
variable {x y z : τ} {a : α} {labels : List α}

theorem Follows.trans
    {more : List α}
    (hFirst : Follows does x labels y)
    (hMore : Follows does y more z) :
    Follows does x (labels ++ more) z := by
  induction hFirst with
  | nil x => exact hMore
  | cons hStep _ ih => exact .cons hStep (ih hMore)

theorem Follows.concat
    (hFirst : Follows does x labels y)
    (hLast : does y a z) :
    Follows does x (labels ++ [a]) z :=
  hFirst.trans (.cons hLast (.nil z))

------------------------------------------------------------
-- Simulation
------------------------------------------------------------

variable {step : σ → α → Option σ} {abs : σ → τ}
variable {s t : σ}

/-
  If every executed label keeps an invariant and is a step of
  the abstract level, then so is the run.
-/
theorem follows_of_run
    (Inv : σ → Prop)
    (hInit : Inv s)
    (hStep :
      ∀ t a u, Performs step s labels t a → Inv t →
        step t a = some u →
          Inv u ∧ does (abs t) a (abs u))
    (hRun : run step s labels = some t) :
    Follows does (abs s) labels (abs t) := by
  -- The induction follows the run from its last step back.
  induction labels using List.reverseRecOn
      generalizing t with
  | nil =>
      cases hRun
      exact .nil _
  | append_singleton before a ih =>
      rcases (run_concat_eq_some before).mp hRun with
        ⟨mid, hBefore, hLast⟩
      have hInv : Inv mid := by
        refine reached_invariant Inv hInit ?_
          ⟨before, [a], rfl, hBefore⟩
        intro u b u' hPerforms hu hNext
        exact (hStep u b u' hPerforms hu hNext).1
      have hEarlier :
          Follows does (abs s) before (abs mid) := by
        refine ih ?_ hBefore
        intro u b u' hPerforms
        rcases hPerforms with ⟨front, back, hLabels, hFront⟩
        exact hStep u b u'
          ⟨front, back ++ [a], by simp [hLabels], hFront⟩
      exact hEarlier.concat
        (hStep mid a t ⟨before, [], rfl, hBefore⟩ hInv
          hLast).2

------------------------------------------------------------
-- Projections
------------------------------------------------------------

/-
  Where the states and the labels of one system are those of
  another one with something added, so are its runs.
-/
section Projections

variable {β : Type*}
variable {step : σ → α → Option σ}
variable {step' : τ → β → Option τ}
variable {f : σ → τ} {g : α → β}
variable (hStep : ∀ s a, step' (f s) (g a) = (step s a).map f)
variable (s : σ) (labels : List α)

include hStep

theorem run_projected :
    run step' (f s) (labels.map g) =
      (run step s labels).map f := by
  induction labels generalizing s with
  | nil => rfl
  | cons a labels ih =>
      rw [List.map_cons, run_cons, run_cons, hStep]
      cases step s a with
      | none => rfl
      | some t => exact ih t

theorem performs_projected_iff
    {t' : τ}
    {b : β} :
    Performs step' (f s) (labels.map g) t' b ↔
      ∃ t a, Performs step s labels t a ∧ f t = t' ∧
        g a = b := by
  constructor
  · rintro ⟨before, after, hLabels, hRun⟩
    rcases List.map_eq_append_iff.mp hLabels with
      ⟨front, back, rfl, rfl, hBack⟩
    rcases List.map_eq_cons_iff.mp hBack with
      ⟨a, rest, rfl, hLabel, _⟩
    rw [run_projected hStep, Option.map_eq_some_iff] at hRun
    rcases hRun with ⟨t, hRun, hState⟩
    exact ⟨t, a, ⟨front, rest, rfl, hRun⟩, hState, hLabel⟩
  · rintro ⟨t, a, ⟨before, after, rfl, hRun⟩, rfl, rfl⟩
    refine ⟨before.map g, after.map g, ?_, ?_⟩
    · rw [List.map_append, List.map_cons]
    · rw [run_projected hStep, hRun]
      rfl

theorem always_projected_iff
    (p : τ → β → Prop) :
    Always step' (f s) (labels.map g) p ↔
      Always step s labels fun t a => p (f t) (g a) := by
  constructor
  · intro hAlways t a hPerforms
    exact hAlways _ _
      ((performs_projected_iff hStep s labels).mpr
        ⟨t, a, hPerforms, rfl, rfl⟩)
  · intro hAlways t' b hPerforms
    rcases (performs_projected_iff hStep s labels).mp
        hPerforms with ⟨t, a, hBelow, rfl, rfl⟩
    exact hAlways t a hBelow

end Projections

end Transition

end AsaKernel
