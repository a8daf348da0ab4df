import Mathlib.Data.List.Nodup
import Mathlib.Tactic.Common

/-
  Paths and rings of a partial successor function.

  `f p` is the successor of `p`, if it has one.  A path lists
  what is met from `p` on before `q` is reached; a ring is a
  path that comes back to its start and meets nothing twice.
  Linked structures are paths of the function that reads a
  link, so a change that keeps the links keeps the paths.

  Main declarations:
    * `Path`, `Path.append`, `Path.split`, `Path.congr`
    * `Path.unique`, `Path.nodup`
    * `Ring`, `Ring.cut`, `Ring.rotate`, `Ring.insert`
    * `walk`, `walk_of_path`
-/

------------------------------------------------------------
-- Paths
------------------------------------------------------------

namespace AsaKernel

variable {α : Type*} {f g : α → Option α}

/- The points from `p` on, up to `q` exclusively. -/
inductive Path
    (f : α → Option α) :
    α → List α → α → Prop where
| nil (p : α) : Path f p [] p
| cons
    {p r q : α}
    {ps : List α}
    (hNext : f p = some r)
    (hRest : Path f r ps q) :
    Path f p (p :: ps) q

namespace Path

variable {p q r x : α} {ps qs : List α}

/- The first point of a path is its start. -/
theorem exists_next
    (hPath : Path f p (x :: ps) q) :
    x = p ∧ ∃ r, f p = some r ∧ Path f r ps q := by
  cases hPath with
  | cons hNext hRest => exact ⟨rfl, _, hNext, hRest⟩

theorem eq_of_nil
    (hPath : Path f p [] q) :
    p = q := by
  cases hPath with
  | nil => rfl

theorem append
    (hFirst : Path f p ps q)
    (hSecond : Path f q qs r) :
    Path f p (ps ++ qs) r := by
  induction hFirst with
  | nil => exact hSecond
  | cons hNext _ ih => exact cons hNext (ih hSecond)

/- A path passes through the start of each of its suffixes. -/
theorem split
    (hPath : Path f p (ps ++ qs) r) :
    ∃ q, Path f p ps q ∧ Path f q qs r := by
  induction ps generalizing p with
  | nil => exact ⟨p, nil p, hPath⟩
  | cons x ps ih =>
      rcases hPath.exists_next with
        ⟨rfl, r', hNext, hRest⟩
      rcases ih hRest with ⟨q, hFirst, hSecond⟩
      exact ⟨q, cons hNext hFirst, hSecond⟩

/- It can be cut before each of its points. -/
theorem split_cons
    (hPath : Path f p (ps ++ q :: qs) r) :
    Path f p ps q ∧ Path f q (q :: qs) r := by
  rcases hPath.split with ⟨q', hFirst, hSecond⟩
  have hStart := hSecond.exists_next.1
  subst hStart
  exact ⟨hFirst, hSecond⟩

/- Only the successors of its points matter. -/
theorem congr
    (hPath : Path f p ps q)
    (hSame : ∀ x ∈ ps, g x = f x) :
    Path g p ps q := by
  induction hPath with
  | nil p => exact nil p
  | cons hNext _ ih =>
      refine cons ?_ (ih fun x hx => ?_)
      · rw [hSame _ List.mem_cons_self, hNext]
      · exact hSame x (List.mem_cons_of_mem _ hx)

/- Every point of a path has a successor. -/
theorem isSome_of_mem
    (hPath : Path f p ps q)
    (hMem : x ∈ ps) :
    (f x).isSome := by
  induction hPath with
  | nil => simp at hMem
  | cons hNext _ ih =>
      rcases List.mem_cons.mp hMem with rfl | hTail
      · rw [hNext]
        rfl
      · exact ih hTail

/- There is one path to a point that is met for the first
   time. -/
theorem unique
    (hLeft : Path f p ps q)
    (hRight : Path f p qs q)
    (hLeftEnd : q ∉ ps)
    (hRightEnd : q ∉ qs) :
    ps = qs := by
  induction hLeft generalizing qs with
  | nil p =>
      cases qs with
      | nil => rfl
      | cons x qs =>
          have hStart := hRight.exists_next.1
          subst hStart
          exact absurd List.mem_cons_self hRightEnd
  | @cons p r q ps hNext hRest ih =>
      cases qs with
      | nil =>
          have hEnd := hRight.eq_of_nil
          subst hEnd
          exact absurd List.mem_cons_self hLeftEnd
      | cons x qs =>
          rcases hRight.exists_next with
            ⟨rfl, r', hNext', hRest'⟩
          cases hNext.symm.trans hNext'
          rw [ih hRest'
            (fun hMem =>
              hLeftEnd (List.mem_cons_of_mem _ hMem))
            (fun hMem =>
              hRightEnd (List.mem_cons_of_mem _ hMem))]

/- A point without successor is met only at the end. -/
theorem end_notMem
    (hPath : Path f p ps q)
    (hEnd : f q = none) :
    q ∉ ps := by
  intro hMem
  have hSome := hPath.isSome_of_mem hMem
  rw [hEnd] at hSome
  exact absurd hSome Bool.false_ne_true

/- A path to such a point cannot come back. -/
theorem nodup
    (hPath : Path f p ps q)
    (hEnd : f q = none) :
    ps.Nodup := by
  induction hPath with
  | nil => exact List.nodup_nil
  | @cons p r q ps hNext hRest ih =>
      rw [List.nodup_cons]
      refine ⟨fun hMem => ?_, ih hEnd⟩
      rcases List.mem_iff_append.mp hMem with
        ⟨front, back, rfl⟩
      have hBack := (hRest.split_cons).2
      have hWhole := cons hNext hRest
      have hSame :=
        hWhole.unique hBack (hWhole.end_notMem hEnd)
          (hBack.end_notMem hEnd)
      have hLength := congrArg List.length hSame
      simp only [List.length_cons, List.length_append]
        at hLength
      omega

end Path

------------------------------------------------------------
-- Rings
------------------------------------------------------------

/- The points of a ring, from `p` on. -/
structure Ring
    (f : α → Option α)
    (p : α)
    (ps : List α) : Prop where
  nonempty : ps ≠ []
  nodup : ps.Nodup
  path : Path f p ps p

namespace Ring

variable {p q : α} {ps qs : List α}

/- The ring starts with `p`; its other points lead back. -/
theorem exists_next
    (hRing : Ring f p ps) :
    ∃ r rest,
      ps = p :: rest ∧ f p = some r ∧ Path f r rest p ∧
      p ∉ rest ∧ rest.Nodup := by
  cases ps with
  | nil => exact absurd rfl hRing.nonempty
  | cons x rest =>
      rcases hRing.path.exists_next with
        ⟨rfl, r, hNext, hRest⟩
      have hNodup := hRing.nodup
      rw [List.nodup_cons] at hNodup
      exact ⟨r, rest, rfl, hNext, hRest, hNodup⟩

theorem mem_start
    (hRing : Ring f p ps) :
    p ∈ ps := by
  rcases hRing.exists_next with ⟨r, rest, rfl, _⟩
  exact List.mem_cons_self

/- A ring started at one of its points. -/
theorem cut
    {front back : List α}
    (hRing : Ring f p (front ++ q :: back)) :
    Ring f q (q :: back ++ front) := by
  rcases hRing.path.split_cons with ⟨hFirst, hSecond⟩
  have hPerm :
      (q :: back ++ front).Perm (front ++ q :: back) :=
    List.perm_append_comm
  refine ⟨?_, ?_, ?_⟩
  · simp
  · exact hPerm.nodup_iff.mpr hRing.nodup
  · exact hSecond.append hFirst

/- A ring can be started at each of its points. -/
theorem rotate
    (hRing : Ring f p ps)
    (hMem : q ∈ ps) :
    ∃ qs, Ring f q qs ∧ qs.Perm ps := by
  rcases List.mem_iff_append.mp hMem with
    ⟨front, back, rfl⟩
  exact ⟨q :: back ++ front, hRing.cut,
    List.perm_append_comm⟩

/- One point that follows itself. -/
theorem singleton
    (hNext : f p = some p) :
    Ring f p [p] where
  nonempty := by simp
  nodup := by simp
  path := Path.cons hNext (Path.nil p)

/- A new point `q` is inserted behind the start. -/
theorem insert
    {rest : List α}
    (hRing : Ring f p (p :: rest))
    (hNew : q ∉ p :: rest)
    (hStart : g p = some q)
    (hLink : g q = f p)
    (hOthers : ∀ x ∈ rest, g x = f x) :
    Ring g p (p :: q :: rest) := by
  rcases hRing.exists_next with
    ⟨r, rest', hEq, hNext, hRest, hFirst, hNodup⟩
  cases hEq
  rw [List.mem_cons, not_or] at hNew
  refine ⟨by simp, ?_, ?_⟩
  · rw [List.nodup_cons, List.nodup_cons, List.mem_cons,
      not_or]
    exact
      ⟨⟨Ne.symm hNew.1, hFirst⟩, hNew.2, hNodup⟩
  · exact Path.cons hStart
      (Path.cons (hLink.trans hNext) (hRest.congr hOthers))

end Ring

------------------------------------------------------------
-- Traversal
------------------------------------------------------------

/-
  Follow the successors from a point up to `stop`, through
  fewer than `fuel` points.
-/
def walk
    [DecidableEq α]
    (f : α → Option α)
    (stop : α) :
    Nat → α → Option (List α)
| 0, _ => none
| fuel + 1, p =>
    if p = stop then some []
    else do
      let r ← f p
      let ps ← walk f stop fuel r
      some (p :: ps)

variable [DecidableEq α] {stop p : α} {ps : List α}

/- With enough fuel the path is traversed. -/
theorem walk_of_path
    (hPath : Path f p ps stop)
    (hFirst : stop ∉ ps)
    {fuel : Nat}
    (hFuel : ps.length < fuel) :
    walk f stop fuel p = some ps := by
  induction hPath generalizing fuel with
  | nil p =>
      cases fuel with
      | zero => omega
      | succ fuel => simp [walk]
  | @cons p r q ps hNext hRest ih =>
      cases fuel with
      | zero => omega
      | succ fuel =>
          rw [List.mem_cons, not_or] at hFirst
          have hTail :=
            ih hFirst.2 (Nat.lt_of_succ_lt_succ hFuel)
          unfold walk
          rw [if_neg (Ne.symm hFirst.1), hNext,
            Option.bind_eq_bind, Option.bind_some, hTail]
          rfl

end AsaKernel
