import AsaKernel.Foundations.Heap
import Mathlib.Tactic.Common

/-
  Singly linked chains of heap cells, ended by a null pointer.

  The cells are arbitrary; `next` reads the link of a cell.
  A chain is given with its nodes, each an address and the
  cell that lives there.

  Main declarations:
    * `Chain`
    * `Chain.unique`, `Chain.nodup`, `Chain.next_eq`
    * `Chain.frame`, `Chain.cons_alloc`, `Chain.release_head`
    * `Chain.append`
    * `Heap.walk`, `Chain.walk_eq`
-/

------------------------------------------------------------
-- Chains
------------------------------------------------------------

namespace AsaKernel

variable {α : Type} {next : α → UInt64}

/- The nodes met when links are followed up to a null pointer. -/
inductive Chain
    (next : α → UInt64)
    (heap : Heap α) :
    UInt64 → List (UInt64 × α) → Prop where
| nil : Chain next heap 0 []
| cons
    {p : UInt64}
    {a : α}
    {nodes : List (UInt64 × α)}
    (hNonnull : p ≠ 0)
    (hCell : heap.load p = some a)
    (hRest : Chain next heap (next a) nodes) :
    Chain next heap p ((p, a) :: nodes)

namespace Chain

variable {heap after : Heap α} {p q : UInt64} {a : α}
variable {nodes rest : List (UInt64 × α)}

/- A null pointer heads the empty chain only. -/
theorem eq_nil
    (hChain : Chain next heap 0 nodes) :
    nodes = [] := by
  cases hChain with
  | nil => rfl
  | cons hNonnull _ _ => exact absurd rfl hNonnull

/- Any other pointer designates the first node. -/
theorem exists_cons
    (hChain : Chain next heap p nodes)
    (hNonnull : p ≠ 0) :
    ∃ a rest,
      nodes = (p, a) :: rest ∧ heap.load p = some a ∧
      Chain next heap (next a) rest := by
  cases hChain with
  | nil => exact absurd rfl hNonnull
  | cons _ hCell hRest => exact ⟨_, _, rfl, hCell, hRest⟩

/- Links determine the nodes. -/
theorem unique
    (hLeft : Chain next heap p nodes)
    (hRight : Chain next heap p rest) :
    nodes = rest := by
  induction hLeft generalizing rest with
  | nil => exact hRight.eq_nil.symm
  | cons hNonnull hCell _ ih =>
      rcases hRight.exists_cons hNonnull with
        ⟨b, rest', rfl, hCell', hRest'⟩
      cases hCell.symm.trans hCell'
      rw [ih hRest']

theorem load_of_mem
    (hChain : Chain next heap p nodes)
    (hMem : (q, a) ∈ nodes) :
    heap.load q = some a := by
  induction hChain with
  | nil => simp at hMem
  | cons _ hCell _ ih =>
      rcases List.mem_cons.mp hMem with hHead | hTail
      · cases hHead
        exact hCell
      · exact ih hTail

/- Every node of a chain heads the chain of its suffix. -/
theorem suffix_of_mem
    (hChain : Chain next heap p nodes)
    (hMem : q ∈ nodes.map Prod.fst) :
    ∃ rest,
      Chain next heap q rest ∧
      rest.length ≤ nodes.length := by
  induction hChain with
  | nil => simp at hMem
  | @cons p a nodes hNonnull hCell hRest ih =>
      rw [List.map_cons, List.mem_cons] at hMem
      rcases hMem with rfl | hTail
      · exact
          ⟨_, cons hNonnull hCell hRest, Nat.le_refl _⟩
      · rcases ih hTail with ⟨rest, hSuffix, hLength⟩
        exact ⟨rest, hSuffix, by
          rw [List.length_cons]
          omega⟩

/- No address occurs twice: a chain cannot come back. -/
theorem nodup
    (hChain : Chain next heap p nodes) :
    (nodes.map Prod.fst).Nodup := by
  induction hChain with
  | nil => exact List.nodup_nil
  | @cons p a nodes hNonnull hCell hRest ih =>
      rw [List.map_cons, List.nodup_cons]
      refine ⟨fun hMem => ?_, ih⟩
      rcases hRest.suffix_of_mem hMem with
        ⟨rest, hSuffix, hLength⟩
      have hSame :=
        hSuffix.unique (cons hNonnull hCell hRest)
      rw [hSame, List.length_cons] at hLength
      omega

/- The nodes of a chain are live cells. -/
theorem length_le_size
    (hChain : Chain next heap p nodes) :
    nodes.length ≤ heap.size := by
  have hLive :
      ∀ q ∈ nodes.map Prod.fst, heap.load q ≠ none := by
    intro q hMem
    rcases List.mem_map.mp hMem with ⟨⟨r, b⟩, hNode, rfl⟩
    rw [hChain.load_of_mem hNode]
    exact Option.some_ne_none b
  have hLength := Heap.length_le_size hChain.nodup hLive
  rw [List.length_map] at hLength
  exact hLength

------------------------------------------------------------
-- Changes of the Heap
------------------------------------------------------------

/- A chain survives every change outside its addresses. -/
theorem frame
    (hChain : Chain next heap p nodes)
    (hSame :
      ∀ q ∈ nodes.map Prod.fst,
        after.load q = heap.load q) :
    Chain next after p nodes := by
  induction hChain with
  | nil => exact nil
  | cons hNonnull hCell _ ih =>
      refine cons hNonnull ?_ (ih fun q hMem => ?_)
      · rw [hSame _ (by simp), hCell]
      · exact hSame q (by
          rw [List.map_cons]
          exact List.mem_cons_of_mem _ hMem)

/- A chain is headed by its first node, if there is one. -/
theorem head_eq
    (hChain : Chain next heap p nodes) :
    p = ((nodes[0]?).map Prod.fst).getD 0 := by
  cases hChain <;> rfl

/- A node links to the one behind it, the last one to none. -/
theorem next_eq
    (hChain : Chain next heap p nodes)
    {k : Nat}
    (hNode : nodes[k]? = some (q, a)) :
    next a = ((nodes[k + 1]?).map Prod.fst).getD 0 := by
  induction hChain generalizing k with
  | nil => cases hNode
  | @cons p b nodes _ _ hRest ih =>
      cases k with
      | zero =>
          cases hNode
          exact hRest.head_eq
      | succ k => exact ih hNode

/- More cells do not matter. -/
theorem mono
    (hChain : Chain next heap p nodes)
    (hExtends : after.Extends heap) :
    Chain next after p nodes := by
  apply hChain.frame
  intro q hMem
  rcases List.mem_map.mp hMem with ⟨⟨q, a⟩, hPair, rfl⟩
  have hLive := hChain.load_of_mem hPair
  rw [hLive]
  exact hExtends q a hLive

/- A free address is none of the chain's. -/
theorem ne_of_mem
    (hChain : Chain next heap p nodes)
    (hFree : heap.load q = none)
    {r : UInt64}
    (hMem : r ∈ nodes.map Prod.fst) :
    r ≠ q := by
  rintro rfl
  rcases List.mem_map.mp hMem with ⟨⟨r, b⟩, hNode, rfl⟩
  rw [hChain.load_of_mem hNode] at hFree
  exact absurd hFree (Option.some_ne_none b)

/- A new cell that links to the chain becomes its head. -/
theorem push
    (hChain : Chain next heap p nodes)
    (hNonnull : q ≠ 0)
    (hFree : heap.load q = none)
    (hCell : after.load q = some a)
    (hLink : next a = p)
    (hOthers :
      ∀ r, r ≠ q → after.load r = heap.load r) :
    Chain next after q ((q, a) :: nodes) := by
  refine cons hNonnull hCell ?_
  rw [hLink]
  exact hChain.frame fun r hMem =>
    hOthers r (hChain.ne_of_mem hFree hMem)

/- The head can be given back. -/
theorem release_head
    (hChain : Chain next heap p ((p, a) :: nodes)) :
    Chain next (heap.release p) (next a) nodes := by
  have hNodup := hChain.nodup
  rw [List.map_cons, List.nodup_cons] at hNodup
  cases hChain with
  | cons _ _ hRest =>
      apply hRest.frame
      intro q hMem
      apply Heap.load_release_ne
      rintro rfl
      exact hNodup.1 hMem

/-
  Relinking the last node of a chain to another chain joins
  the two.
-/
theorem relink_last
    {front : List (UInt64 × α)}
    {old : α}
    (hChain : Chain next heap p (front ++ [(q, old)]))
    (hFront :
      ∀ r ∈ front.map Prod.fst,
        after.load r = heap.load r)
    (hCell : after.load q = some a)
    (hRest : Chain next after (next a) rest) :
    Chain next after p (front ++ (q, a) :: rest) := by
  induction front generalizing p with
  | nil =>
      cases hChain with
      | cons hNonnull _ _ => exact cons hNonnull hCell hRest
  | cons node front ih =>
      cases hChain with
      | @cons _ b _ hNonnull hLive hTail =>
          refine cons hNonnull ?_ (ih hTail ?_)
          · rw [hFront p (by simp), hLive]
          · intro r hMem
            exact hFront r (by
              rw [List.map_cons]
              exact List.mem_cons_of_mem _ hMem)

end Chain

------------------------------------------------------------
-- Traversal
------------------------------------------------------------

/-
  Follow the links from `p`, visiting fewer than `fuel` nodes.
  A dangling link and a longer chain have no result.
-/
def Heap.walk
    (next : α → UInt64)
    (heap : Heap α) :
    Nat → UInt64 → Option (List (UInt64 × α))
| 0, _ => none
| fuel + 1, p =>
    if p = 0 then some []
    else do
      let a ← heap.load p
      let nodes ← walk next heap fuel (next a)
      some ((p, a) :: nodes)

namespace Chain

variable {heap : Heap α} {p : UInt64}
variable {nodes : List (UInt64 × α)}

/- With enough fuel a chain is traversed to its end. -/
theorem walk_eq
    (hChain : Chain next heap p nodes)
    {fuel : Nat}
    (hFuel : nodes.length < fuel) :
    heap.walk next fuel p = some nodes := by
  induction hChain generalizing fuel with
  | nil =>
      cases fuel with
      | zero => omega
      | succ fuel => simp [Heap.walk]
  | cons hNonnull hCell _ ih =>
      cases fuel with
      | zero => omega
      | succ fuel =>
          have hRest := ih (Nat.lt_of_succ_lt_succ hFuel)
          simp [Heap.walk, hNonnull, hCell, hRest]

/- What a traversal visits is a chain. -/
theorem of_walk
    {fuel : Nat}
    (hWalk : heap.walk next fuel p = some nodes) :
    Chain next heap p nodes := by
  induction fuel generalizing p nodes with
  | zero => simp [Heap.walk] at hWalk
  | succ fuel ih =>
      by_cases hNull : p = 0
      · subst hNull
        simp only [Heap.walk, if_true,
          Option.some.injEq] at hWalk
        subst hWalk
        exact nil
      · simp only [Heap.walk, if_neg hNull,
          Option.bind_eq_bind,
          Option.bind_eq_some_iff] at hWalk
        rcases hWalk with ⟨a, hCell, rest, hRest, hNodes⟩
        cases hNodes
        exact cons hNull hCell (ih hRest)

/- A traversal with more fuel than cells finds every chain. -/
theorem walk_eq_some_iff :
    heap.walk next (heap.size + 1) p = some nodes ↔
      Chain next heap p nodes :=
  ⟨of_walk, fun hChain =>
    hChain.walk_eq (Nat.lt_succ_of_le hChain.length_le_size)⟩

end Chain

end AsaKernel
