import AsaKernel.Foundations.Layout

/-
  Stacks of words in a memory of bytes.

  Addresses have 32 bits and wrap around, and a stack grows
  towards lower addresses.  What a stack holds is described by
  the list of its words from the top on: a push adds a word in
  front, a pop takes it away, and both leave alone what is not
  just below the top.

  Main declarations:
    * `Memory`, `load`, `store`
    * `Stack`, `Stack.push`, `Stack.pop`
    * `Holds`, `Spared`
-/

------------------------------------------------------------
-- Words in Memory
------------------------------------------------------------

namespace AsaKernel

namespace WordStack

abbrev Memory :=
  UInt32 → UInt8

/- The bytes from an address on. -/
def bytesAt
    (memory : Memory)
    (a : UInt32)
    (n : Nat) : List UInt8 :=
  (List.range n).map fun i => memory (a + UInt32.ofNat i)

/- The bytes from an address on are replaced. -/
def writeAt
    (memory : Memory)
    (a : UInt32)
    (bytes : List UInt8) : Memory :=
  fun b => bytes.getD (b - a).toNat (memory b)

def load
    (memory : Memory)
    (a : UInt32) : UInt32 :=
  Layout.word32.decode (bytesAt memory a 4)

def store
    (memory : Memory)
    (a word : UInt32) : Memory :=
  writeAt memory a (Layout.word32.encode word)

variable {memory : Memory} {a b : UInt32}

@[simp] theorem length_bytesAt
    (memory : Memory)
    (a : UInt32)
    (n : Nat) :
    (bytesAt memory a n).length = n := by
  simp [bytesAt]

theorem offset_toNat
    {i : Nat}
    (hFits : i < 4294967296) :
    (a + UInt32.ofNat i - a).toNat = i := by
  have hOffset : a + UInt32.ofNat i - a = UInt32.ofNat i := by
    rw [UInt32.add_comm, UInt32.add_sub_cancel]
  rw [hOffset]
  exact UInt32.toNat_ofNat_of_lt hFits

/- A distance grows with the address, up to the last one. -/
theorem offset_add
    {i : Nat}
    (hFits : (b - a).toNat + i < 4294967296) :
    (b + UInt32.ofNat i - a).toNat = (b - a).toNat + i := by
  have hOffset :
      b + UInt32.ofNat i - a = (b - a) + UInt32.ofNat i := by
    rw [UInt32.sub_eq_add_neg, UInt32.sub_eq_add_neg,
      UInt32.add_assoc, UInt32.add_assoc,
      UInt32.add_comm (UInt32.ofNat i)]
  have hSmall : i < 4294967296 := by omega
  have hStep : (UInt32.ofNat i).toNat = i :=
    UInt32.toNat_ofNat_of_lt hSmall
  rw [hOffset, UInt32.toNat_add, hStep]
  exact Nat.mod_eq_of_lt hFits

/- The distance from a lower address. -/
theorem sub_sub_right
    (a b k : UInt32) :
    b - (a - k) = b + k - a := by
  rw [UInt32.sub_eq_add_neg b, UInt32.neg_sub,
    UInt32.sub_eq_add_neg, UInt32.sub_eq_add_neg,
    UInt32.add_assoc]

/- What is written is read back. -/
theorem bytesAt_writeAt
    {bytes : List UInt8}
    (hFits : bytes.length ≤ 4294967296) :
    bytesAt (writeAt memory a bytes) a bytes.length =
      bytes := by
  apply List.ext_getElem
  · simp
  · intro i hLeft hRight
    have hOffset : (a + UInt32.ofNat i - a).toNat = i :=
      offset_toNat (by omega)
    simp only [bytesAt, writeAt, List.getElem_map,
      List.getElem_range, hOffset]
    rw [List.getD_eq_getElem?_getD,
      List.getElem?_eq_getElem hRight, Option.getD_some]

/- A byte past the written ones is not changed. -/
theorem writeAt_of_le
    {bytes : List UInt8}
    (hPast : bytes.length ≤ (b - a).toNat) :
    writeAt memory a bytes b = memory b := by
  unfold writeAt
  rw [List.getD_eq_getElem?_getD,
    List.getElem?_eq_none hPast, Option.getD_none]

/- Nor are bytes that start past them and end before them. -/
theorem bytesAt_writeAt_of_le
    {bytes : List UInt8}
    {n : Nat}
    (hPast : bytes.length ≤ (b - a).toNat)
    (hFits : (b - a).toNat + n ≤ 4294967296) :
    bytesAt (writeAt memory a bytes) b n =
      bytesAt memory b n := by
  apply List.map_congr_left
  intro i hi
  rw [List.mem_range] at hi
  apply writeAt_of_le
  rw [offset_add (by omega)]
  omega

@[simp] theorem load_store
    (memory : Memory)
    (a word : UInt32) :
    load (store memory a word) a = word := by
  have hLength : (Layout.word32.encode word).length = 4 :=
    Layout.word32.length_encode word
  have hBytes :
      bytesAt (store memory a word) a 4 =
        Layout.word32.encode word := by
    unfold store
    rw [← hLength]
    exact bytesAt_writeAt (by omega)
  unfold load
  rw [hBytes]
  have hRead := Layout.word32.decode_encode word []
  rwa [List.append_nil] at hRead

theorem load_store_of_le
    {word : UInt32}
    (hPast : 4 ≤ (b - a).toNat)
    (hFits : (b - a).toNat + 4 ≤ 4294967296) :
    load (store memory a word) b = load memory b := by
  have hLength : (Layout.word32.encode word).length = 4 :=
    Layout.word32.length_encode word
  unfold load store
  rw [bytesAt_writeAt_of_le (by omega) hFits]

/- A word depends on its bytes only. -/
theorem load_congr
    {other : Memory}
    (hSame :
      ∀ i < 4,
        other (a + UInt32.ofNat i) =
          memory (a + UInt32.ofNat i)) :
    load other a = load memory a := by
  have hBytes : bytesAt other a 4 = bytesAt memory a 4 := by
    apply List.map_congr_left
    intro i hi
    exact hSame i (List.mem_range.mp hi)
  unfold load
  rw [hBytes]

------------------------------------------------------------
-- The Words from an Address on
------------------------------------------------------------

/- The words from an address on are those of a list. -/
def Holds
    (memory : Memory) :
    UInt32 → List UInt32 → Prop
| _, [] => True
| a, word :: words =>
    load memory a = word ∧ Holds memory (a + 4) words

/- The byte is not among the `n` bytes below the address. -/
def Spared
    (n : Nat)
    (top b : UInt32) : Prop :=
  (b - top).toNat + n < 4294967296

instance (n : Nat) (top b : UInt32) :
    Decidable (Spared n top b) :=
  inferInstanceAs (Decidable (_ < _))

variable {words : List UInt32}

/- A store outside the words leaves them as they are. -/
theorem Holds.store_of_le
    {word : UInt32}
    (hHolds : Holds memory b words)
    (hPast : 4 ≤ (b - a).toNat)
    (hFits :
      (b - a).toNat + 4 * words.length ≤ 4294967296) :
    Holds (store memory a word) b words := by
  induction words generalizing b with
  | nil => trivial
  | cons head words ih =>
      rw [List.length_cons] at hFits
      refine ⟨?_, ?_⟩
      · rw [load_store_of_le hPast (by omega)]
        exact hHolds.1
      · cases words with
        | nil => trivial
        | cons next words =>
            rw [List.length_cons] at hFits ih
            have hOffset :
                (b + 4 - a).toNat = (b - a).toNat + 4 :=
              offset_add (i := 4) (by omega)
            exact ih hHolds.2 (by omega) (by omega)

/- Words that keep their bytes stay. -/
theorem Holds.congr
    {other : Memory}
    (hHolds : Holds memory a words)
    (hSame :
      ∀ i < 4 * words.length,
        other (a + UInt32.ofNat i) =
          memory (a + UInt32.ofNat i)) :
    Holds other a words := by
  induction words generalizing a with
  | nil => trivial
  | cons word words ih =>
      rw [List.length_cons] at hSame
      have hFirst :
          ∀ i < 4,
            other (a + UInt32.ofNat i) =
              memory (a + UInt32.ofNat i) :=
        fun i hi => hSame i (by omega)
      refine ⟨?_, ?_⟩
      · rw [load_congr hFirst]
        exact hHolds.1
      · apply ih hHolds.2
        intro i hi
        have hNext :
            a + 4 + UInt32.ofNat i =
              a + UInt32.ofNat (4 + i) := by
          rw [UInt32.ofNat_add, UInt32.add_assoc]
          rfl
        rw [hNext]
        exact hSame (4 + i) (by omega)

/- The word at an index of the list. -/
theorem Holds.load
    (hHolds : Holds memory a words)
    {i : Nat}
    (hIndex : i < words.length) :
    load memory (a + UInt32.ofNat (4 * i)) = words[i] := by
  induction words generalizing a i with
  | nil => cases hIndex
  | cons word words ih =>
      cases i with
      | zero =>
          change load memory (a + 0) = word
          rw [UInt32.add_zero]
          exact hHolds.1
      | succ i =>
          have hNext :
              a + UInt32.ofNat (4 * (i + 1)) =
                a + 4 + UInt32.ofNat (4 * i) := by
            rw [Nat.mul_add, Nat.add_comm, UInt32.ofNat_add,
              UInt32.add_assoc]
            rfl
          rw [hNext]
          exact ih hHolds.2 (Nat.lt_of_succ_lt_succ hIndex)

theorem Spared.mono
    {m n : Nat}
    (hSpared : Spared n a b)
    (hLe : m ≤ n) :
    Spared m a b := by
  unfold Spared at hSpared ⊢
  omega

/- The bytes below a lower address are among them. -/
theorem Spared.sub
    {k n : Nat}
    (hSpared : Spared (k + n) a b) :
    Spared n (a - UInt32.ofNat k) b := by
  unfold Spared at hSpared ⊢
  rw [sub_sub_right, offset_add (by omega)]
  omega

/- Those bytes are not spared. -/
theorem not_spared
    {i k n : Nat}
    (hLow : i < k)
    (hLe : k ≤ n)
    (hFits : k ≤ 4294967296) :
    ¬ Spared n a (a - UInt32.ofNat k + UInt32.ofNat i) := by
  intro hSpared
  have hOffset :
      (a - UInt32.ofNat k + UInt32.ofNat i -
          (a - UInt32.ofNat k)).toNat = i :=
    offset_toNat (by omega)
  have hBelow := hSpared.mono hLe
  unfold Spared at hBelow
  rw [sub_sub_right, offset_add hBelow] at hOffset
  omega

------------------------------------------------------------
-- Stacks
------------------------------------------------------------

/- A stack pointer and the memory that it points into. -/
structure Stack where
  top : UInt32
  memory : Memory

namespace Stack

def push
    (word : UInt32)
    (s : Stack) : Stack where
  top := s.top - 4
  memory := store s.memory (s.top - 4) word

def pop
    (s : Stack) : UInt32 × Stack :=
  (load s.memory s.top, { s with top := s.top + 4 })

/- What the stack holds, from its top on. -/
def Has
    (s : Stack)
    (words : List UInt32) : Prop :=
  Holds s.memory s.top words

variable {s : Stack} {word : UInt32}

@[simp] theorem top_push :
    (s.push word).top = s.top - 4 := rfl

@[simp] theorem top_pop :
    s.pop.2.top = s.top + 4 := rfl

@[simp] theorem memory_pop :
    s.pop.2.memory = s.memory := rfl

theorem has_nil
    (s : Stack) :
    s.Has [] := trivial

/- A pushed word is in front of the others. -/
theorem Has.push
    (hHas : s.Has words)
    (word : UInt32)
    (hFits : 4 * words.length + 4 ≤ 4294967296) :
    (s.push word).Has (word :: words) := by
  have hNext : s.top - 4 + 4 = s.top :=
    UInt32.sub_add_cancel s.top 4
  have hGap : (s.top - (s.top - 4)).toNat = 4 := by
    have hOffset := offset_toNat (a := s.top - 4) (i := 4)
      (by omega)
    change (s.top - 4 + 4 - (s.top - 4)).toNat = 4 at hOffset
    rwa [hNext] at hOffset
  refine ⟨load_store s.memory (s.top - 4) word, ?_⟩
  change Holds (s.push word).memory (s.top - 4 + 4) words
  rw [hNext]
  exact Holds.store_of_le hHas (by omega) (by omega)

/- The word in front is popped. -/
theorem Has.pop
    (hHas : s.Has (word :: words)) :
    s.pop.1 = word ∧ s.pop.2.Has words :=
  hHas

/- A push changes the four bytes below the top. -/
theorem push_spared
    (word : UInt32)
    (hSpared : Spared 4 s.top b) :
    (s.push word).memory b = s.memory b := by
  have hLength : (Layout.word32.encode word).length = 4 :=
    Layout.word32.length_encode word
  have hOffset :
      (b - (s.top - 4)).toNat = (b - s.top).toNat + 4 := by
    rw [sub_sub_right]
    exact offset_add (i := 4) hSpared
  apply writeAt_of_le
  rw [hOffset]
  omega

/-
  The top has moved down by `n` bytes, and no byte but those
  has changed.
-/
structure Grown
    (n : Nat)
    (s t : Stack) : Prop where
  top : t.top = s.top - UInt32.ofNat n
  memory :
    ∀ b, Spared n s.top b → t.memory b = s.memory b

theorem Grown.refl
    (s : Stack) :
    Grown 0 s s :=
  ⟨(UInt32.sub_zero s.top).symm, fun _ _ => rfl⟩

theorem Grown.push
    {n : Nat}
    {t : Stack}
    (hGrown : Grown n s t)
    (word : UInt32) :
    Grown (n + 4) s (t.push word) where
  top := by
    rw [top_push, hGrown.top, UInt32.ofNat_add,
      UInt32.sub_eq_add_neg, UInt32.sub_eq_add_neg,
      UInt32.sub_eq_add_neg, UInt32.neg_add,
      UInt32.add_assoc, UInt32.sub_eq_add_neg]
    rfl
  memory := by
    intro b hSpared
    have hTop : Spared 4 t.top b := by
      rw [hGrown.top]
      exact hSpared.sub
    rw [push_spared word hTop]
    exact hGrown.memory b (hSpared.mono (by omega))

end Stack

end WordStack

end AsaKernel
