import Mathlib.Data.List.Induction
import Mathlib.Logic.Function.Basic

/-
  A memory after a list of stores.

  A memory is a function of the addresses, and a store gives
  one address a value.  What an address holds in the end is
  decided by the stores to this address alone.

  Main declarations:
    * `Stores.play`
    * `Stores.play_of_agree`
-/

------------------------------------------------------------
-- Stores
------------------------------------------------------------

namespace AsaKernel

namespace Stores

variable {α β : Type*} [DecidableEq α]

/- The memory after the stores, the first of them first. -/
def play
    (stores : List (α × β))
    (memory : α → β) : α → β :=
  stores.foldl
    (fun memory store =>
      Function.update memory store.1 store.2) memory

variable {stores : List (α × β)} {memory : α → β}
variable {a : α} {b : β}

@[simp] theorem play_nil :
    play ([] : List (α × β)) memory = memory := rfl

theorem play_append
    (first second : List (α × β)) :
    play (first ++ second) memory =
      play second (play first memory) :=
  List.foldl_append

theorem play_concat
    (stores : List (α × β))
    (store : α × β) :
    play (stores ++ [store]) memory =
      Function.update (play stores memory) store.1
        store.2 :=
  play_append stores [store]

/- An address that is only ever given one value holds it. -/
theorem play_of_agree
    (hStored : ∃ store ∈ stores, store.1 = a)
    (hAgree : ∀ store ∈ stores, store.1 = a → store.2 = b) :
    play stores memory a = b := by
  induction stores using List.reverseRecOn with
  | nil => simp at hStored
  | append_singleton stores store ih =>
      rw [play_concat]
      by_cases hLast : store.1 = a
      · rw [← hLast, Function.update_self]
        exact hAgree store (by simp) hLast
      · rw [Function.update_of_ne (Ne.symm hLast)]
        apply ih
        · rcases hStored with ⟨other, hOther, hSame⟩
          rw [List.mem_append, List.mem_singleton] at hOther
          rcases hOther with hOther | rfl
          · exact ⟨other, hOther, hSame⟩
          · exact absurd hSame hLast
        · intro other hOther
          exact hAgree other (List.mem_append_left _ hOther)

end Stores

end AsaKernel
