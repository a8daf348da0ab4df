import Mathlib.Data.List.Chain

/-
  Texts of words of one or two digits, without separators.

  Only some digits may be the high one of a word.  A list of
  words is tight if no digit could be taken with the next one
  instead: a word of one digit is not followed by a digit that
  it could lead, and the low digit of a word leads no word.
  A tight list has fewer words than any other list with its
  text; a list that is not tight can be read in another way
  with as many words, unless it has words of one digit only.

  Main declarations:
    * `DigitWord`, `DigitWord.text`
    * `DigitWord.Tight`, `DigitWord.tight_minimal`
    * `DigitWord.identified_iff`
-/

------------------------------------------------------------
-- Words
------------------------------------------------------------

namespace AsaKernel

/- A word of one digit, or of a high and a low one. -/
inductive DigitWord (α : Type*) where
  | one (digit : α)
  | two (high low : α)
deriving DecidableEq, Repr

namespace DigitWord

variable {α : Type*} {lead : α → Prop}

def digits : DigitWord α → List α
| .one digit => [digit]
| .two high low => [high, low]

/- The digits of words, one word after the other. -/
def text
    (words : List (DigitWord α)) : List α :=
  words.flatMap digits

def isTwo : DigitWord α → Bool
| .one _ => false
| .two _ _ => true

/- The high digit is one that may be. -/
def Valid
    (lead : α → Prop) : DigitWord α → Prop
| .one _ => True
| .two high _ => lead high

/-
  The last digit of a word cannot be taken with the first one
  of the next word instead, for as many words.
-/
def Closed
    (lead : α → Prop)
    (word next : DigitWord α) : Prop :=
  match word with
  | .one digit => ¬ lead digit
  | .two _ low => lead low → next.isTwo = true

/- No digit could be taken with the next one instead. -/
def Tight
    (lead : α → Prop)
    (words : List (DigitWord α)) : Prop :=
  words.IsChain (Closed lead)

variable {words : List (DigitWord α)}

@[simp] theorem text_nil :
    text ([] : List (DigitWord α)) = [] := rfl

@[simp] theorem text_one
    (digit : α) :
    text (.one digit :: words) = digit :: text words := rfl

@[simp] theorem text_two
    (high low : α) :
    text (.two high low :: words) =
      high :: low :: text words := rfl

@[simp] theorem text_append
    (first second : List (DigitWord α)) :
    text (first ++ second) = text first ++ text second :=
  List.flatMap_append

/- Every word has a digit. -/
theorem length_le_text
    (words : List (DigitWord α)) :
    words.length ≤ (text words).length := by
  induction words with
  | nil => exact Nat.le_refl 0
  | cons word words ih =>
      cases word with
      | one digit =>
          rw [text_one, List.length_cons, List.length_cons]
          omega
      | two high low =>
          rw [text_two, List.length_cons, List.length_cons,
            List.length_cons]
          omega

/- The words of a text that begins with a digit. -/
theorem text_eq_cons
    {digit : α}
    {rest : List α}
    (hText : text words = digit :: rest) :
    (∃ others, words = .one digit :: others ∧
      text others = rest) ∨
    ∃ low others, words = .two digit low :: others ∧
      low :: text others = rest := by
  cases words with
  | nil => cases hText
  | cons word others =>
      cases word with
      | one first =>
          rw [text_one, List.cons.injEq] at hText
          rcases hText with ⟨rfl, hRest⟩
          exact Or.inl ⟨others, rfl, hRest⟩
      | two first low =>
          rw [text_two, List.cons.injEq] at hText
          rcases hText with ⟨rfl, hRest⟩
          exact Or.inr ⟨low, others, rfl, hRest⟩

------------------------------------------------------------
-- Tight Lists
------------------------------------------------------------

/- The other lists of words with a text have more words. -/
def Minimal
    (lead : α → Prop)
    (words : List (DigitWord α)) : Prop :=
  ∀ others, (∀ word ∈ others, Valid lead word) →
    text others = text words →
    others = words ∨ words.length < others.length

/-
  Without the high digit of its first word, the text of the
  words still takes as many words.
-/
def ShiftMinimal
    (lead : α → Prop)
    (words : List (DigitWord α)) : Prop :=
  ∀ high low rest, words = .two high low :: rest →
    ∀ others, (∀ word ∈ others, Valid lead word) →
      text others = low :: text rest →
      words.length ≤ others.length

theorem shiftMinimal_cons
    {word : DigitWord α}
    (hClosed : ∀ next ∈ words.head?, Closed lead word next)
    (hMinimal : Minimal lead words)
    (hShifted : ShiftMinimal lead words) :
    ShiftMinimal lead (word :: words) := by
  intro high low rest hWords others hValid hText
  rw [List.cons.injEq] at hWords
  rcases hWords with ⟨rfl, rfl⟩
  rw [List.length_cons]
  rcases text_eq_cons hText with
    ⟨others, rfl, hRest⟩ | ⟨last, others, rfl, hRest⟩
  · rcases List.forall_mem_cons.mp hValid with ⟨_, hValid⟩
    have hOthers := hMinimal others hValid hRest
    rw [List.length_cons]
    rcases hOthers with rfl | hLonger
    · exact Nat.le_refl _
    · omega
  · rcases List.forall_mem_cons.mp hValid with
      ⟨hLead, hValid⟩
    cases words with
    | nil => cases hRest
    | cons next rest =>
        have hTwo : next.isTwo = true :=
          hClosed next rfl hLead
        cases next with
        | one digit => cases hTwo
        | two high' low' =>
            rw [text_two, List.cons.injEq] at hRest
            have hOthers :=
              hShifted high' low' rest rfl others hValid
                hRest.2
            exact Nat.succ_le_succ hOthers

theorem minimal_cons
    {word : DigitWord α}
    (hClosed : ∀ next ∈ words.head?, Closed lead word next)
    (hMinimal : Minimal lead words)
    (hShifted : ShiftMinimal lead (word :: words)) :
    Minimal lead (word :: words) := by
  intro others hValid hText
  cases word with
  | one digit =>
      rcases text_eq_cons hText with
        ⟨others, rfl, hRest⟩ | ⟨last, others, rfl, hRest⟩
      · rcases List.forall_mem_cons.mp hValid with
          ⟨_, hValid⟩
        rcases hMinimal others hValid hRest with
          rfl | hLonger
        · exact Or.inl rfl
        · exact Or.inr (Nat.succ_lt_succ hLonger)
      · rcases List.forall_mem_cons.mp hValid with
          ⟨hLead, _⟩
        cases words with
        | nil => cases hRest
        | cons next rest =>
            exact absurd hLead (hClosed next rfl)
  | two high low =>
      rw [text_two] at hText
      rcases text_eq_cons hText with
        ⟨others, rfl, hRest⟩ | ⟨last, others, rfl, hRest⟩
      · rcases List.forall_mem_cons.mp hValid with
          ⟨_, hValid⟩
        have hOthers :=
          hShifted high low words rfl others hValid hRest
        exact Or.inr (Nat.lt_succ_of_le hOthers)
      · rw [List.cons.injEq] at hRest
        rcases hRest with ⟨rfl, hRest⟩
        rcases List.forall_mem_cons.mp hValid with
          ⟨_, hValid⟩
        rcases hMinimal others hValid hRest with
          rfl | hLonger
        · exact Or.inl rfl
        · exact Or.inr (Nat.succ_lt_succ hLonger)

theorem tight_minimal
    (hTight : Tight lead words) :
    Minimal lead words ∧ ShiftMinimal lead words := by
  induction words with
  | nil =>
      constructor
      · intro others _ hText
        have hLength := length_le_text others
        rw [hText] at hLength
        exact Or.inl
          (List.length_eq_zero_iff.mp
            (Nat.le_zero.mp hLength))
      · intro high low rest hWords
        cases hWords
  | cons word words ih =>
      rcases List.isChain_cons.mp hTight with
        ⟨hClosed, hTight⟩
      rcases ih hTight with ⟨hMinimal, hShifted⟩
      have hShifted' :=
        shiftMinimal_cons hClosed hMinimal hShifted
      exact ⟨minimal_cons hClosed hMinimal hShifted',
        hShifted'⟩

theorem length_text_of_ones
    (hOnes : ∀ word ∈ words, word.isTwo = false) :
    (text words).length = words.length := by
  induction words with
  | nil => rfl
  | cons word words ih =>
      have hOne := hOnes word List.mem_cons_self
      cases word with
      | two high low => cases hOne
      | one digit =>
          rw [text_one, List.length_cons, List.length_cons,
            ih fun other hOther =>
              hOnes other (List.mem_cons_of_mem _ hOther)]

/- Words of one digit each are the only ones so many. -/
theorem eq_of_ones
    {others : List (DigitWord α)}
    (hOnes : ∀ word ∈ words, word.isTwo = false)
    (hLength : others.length = words.length)
    (hText : text others = text words) :
    others = words := by
  induction words generalizing others with
  | nil => exact List.length_eq_zero_iff.mp hLength
  | cons word words ih =>
      have hRestOnes :
          ∀ word ∈ words, word.isTwo = false :=
        fun other hOther =>
          hOnes other (List.mem_cons_of_mem _ hOther)
      have hOne := hOnes word List.mem_cons_self
      cases word with
      | two high low => cases hOne
      | one digit =>
          rw [text_one] at hText
          rcases text_eq_cons hText with
            ⟨others, rfl, hRest⟩ | ⟨low, others, rfl, hRest⟩
          · rw [ih hRestOnes (Nat.succ.inj hLength) hRest]
          · have hLong := length_le_text others
            have hShort := length_text_of_ones hRestOnes
            rw [← hRest, List.length_cons] at hShort
            rw [List.length_cons, List.length_cons] at hLength
            omega

------------------------------------------------------------
-- Other Readings
------------------------------------------------------------

/- Where a list is not tight. -/
theorem exists_of_not_tight
    (hLoose : ¬ Tight lead words) :
    ∃ before word next after,
      words = before ++ word :: next :: after ∧
        ¬ Closed lead word next := by
  induction words with
  | nil => exact absurd List.IsChain.nil hLoose
  | cons word words ih =>
      by_cases hTight : Tight lead words
      · have hOpen :
            ∃ next ∈ words.head?, ¬ Closed lead word next := by
          by_contra hNone
          apply hLoose
          apply List.isChain_cons.mpr
          refine ⟨?_, hTight⟩
          intro next hNext
          by_contra hOpen
          exact hNone ⟨next, hNext, hOpen⟩
        rcases hOpen with ⟨next, hNext, hOpen⟩
        rcases List.head?_eq_some_iff.mp hNext with
          ⟨after, rfl⟩
        exact ⟨[], word, next, after, rfl, hOpen⟩
      · rcases ih hTight with
          ⟨before, first, next, after, rfl, hOpen⟩
        exact ⟨word :: before, first, next, after, rfl,
          hOpen⟩

/- A word of two digits can be made two words. -/
theorem exists_split
    {word : DigitWord α}
    (hMem : word ∈ words)
    (hTwo : word.isTwo = true)
    (hValid : ∀ word ∈ words, Valid lead word) :
    ∃ others, text others = text words ∧
      others.length = words.length + 1 ∧
      ∀ word ∈ others, Valid lead word := by
  rcases List.append_of_mem hMem with
    ⟨before, after, rfl⟩
  cases word with
  | one digit => cases hTwo
  | two high low =>
      rw [List.forall_mem_append, List.forall_mem_cons]
        at hValid
      refine ⟨before ++ .one high :: .one low :: after,
        by simp, by simp; omega, ?_⟩
      rw [List.forall_mem_append, List.forall_mem_cons,
        List.forall_mem_cons]
      exact ⟨hValid.1, trivial, trivial, hValid.2.2⟩

/- Two lists that differ in a word are different. -/
theorem append_cons_ne
    {before after after' : List (DigitWord α)}
    {word word' : DigitWord α}
    (hWord : word' ≠ word) :
    before ++ word' :: after' ≠ before ++ word :: after := by
  intro hSame
  have hTails := List.append_cancel_left hSame
  rw [List.cons.injEq] at hTails
  exact hWord hTails.1

/-
  Two words of one digit can be made one, if one of the other
  words can be made two.
-/
theorem exists_merge
    {before after : List (DigitWord α)}
    {digit digit' : α}
    (hLead : lead digit)
    (hBefore : ∀ word ∈ before, Valid lead word)
    (hAfter : ∀ word ∈ after, Valid lead word)
    (hTwo :
      ∃ word, (word ∈ before ∨ word ∈ after) ∧
        word.isTwo = true) :
    ∃ others,
      others ≠ before ++ .one digit :: .one digit' :: after ∧
      text others =
        text (before ++ .one digit :: .one digit' :: after) ∧
      others.length =
        (before ++
          .one digit :: .one digit' :: after).length ∧
      ∀ word ∈ others, Valid lead word := by
  rcases hTwo with ⟨word, hWord | hWord, hIsTwo⟩
  · rcases exists_split hWord hIsTwo hBefore with
      ⟨before', hText, hLength, hValid'⟩
    refine ⟨before' ++ .two digit digit' :: after,
      ?_, by simp [hText], by simp [hLength]; omega, ?_⟩
    · intro hSame
      have hSplit :
          before ++ .one digit :: .one digit' :: after =
            (before ++ [.one digit]) ++
              .one digit' :: after := by
        simp
      rw [hSplit] at hSame
      have hTails :=
        (List.append_inj hSame (by simp [hLength])).2
      cases hTails
    · rw [List.forall_mem_append, List.forall_mem_cons]
      exact ⟨hValid', hLead, hAfter⟩
  · rcases exists_split hWord hIsTwo hAfter with
      ⟨after', hText, hLength, hValid'⟩
    refine ⟨before ++ .two digit digit' :: after',
      append_cons_ne (by simp), by simp [hText],
      by simp [hLength], ?_⟩
    rw [List.forall_mem_append, List.forall_mem_cons]
    exact ⟨hBefore, hLead, hValid'⟩

/-
  Words that are not tight have another reading with as many
  words, if one of them has two digits.
-/
theorem exists_other
    (hValid : ∀ word ∈ words, Valid lead word)
    (hTwo : ∃ word ∈ words, word.isTwo = true)
    (hLoose : ¬ Tight lead words) :
    ∃ others, others ≠ words ∧ text others = text words ∧
      others.length = words.length ∧
      ∀ word ∈ others, Valid lead word := by
  rcases exists_of_not_tight hLoose with
    ⟨before, word, next, after, rfl, hOpen⟩
  rw [List.forall_mem_append, List.forall_mem_cons,
    List.forall_mem_cons] at hValid
  rcases hValid with ⟨hBefore, _, _, hAfter⟩
  cases word with
  | one digit =>
      have hLead : lead digit := Classical.not_not.mp hOpen
      cases next with
      | one digit' =>
          apply exists_merge hLead hBefore hAfter
          rcases hTwo with ⟨word, hWord, hIsTwo⟩
          simp only [List.mem_append, List.mem_cons] at hWord
          rcases hWord with hWord | rfl | rfl | hWord
          · exact ⟨word, Or.inl hWord, hIsTwo⟩
          · cases hIsTwo
          · cases hIsTwo
          · exact ⟨word, Or.inr hWord, hIsTwo⟩
      | two high low =>
          -- The digit takes the high one of the next word.
          refine ⟨before ++ .two digit high :: .one low ::
            after, append_cons_ne (by simp), by simp, by simp,
            ?_⟩
          rw [List.forall_mem_append, List.forall_mem_cons,
            List.forall_mem_cons]
          exact ⟨hBefore, hLead, trivial, hAfter⟩
  | two high low =>
      have hLow : lead low ∧ next.isTwo = false := by
        simpa [Closed] using hOpen
      cases next with
      | two high' low' => cases hLow.2
      | one digit' =>
          -- The low digit takes the next word.
          refine ⟨before ++ .one high :: .two low digit' ::
            after, append_cons_ne (by simp), by simp, by simp,
            ?_⟩
          rw [List.forall_mem_append, List.forall_mem_cons,
            List.forall_mem_cons]
          exact ⟨hBefore, trivial, hLow.1, hAfter⟩

/-
  Among the lists of as many words, the text of a list is its
  own if and only if the list has words of one digit only or
  is tight.
-/
theorem identified_iff
    (hValid : ∀ word ∈ words, Valid lead word) :
    (∀ others, (∀ word ∈ others, Valid lead word) →
        others.length = words.length →
        text others = text words → others = words) ↔
      (∀ word ∈ words, word.isTwo = false) ∨
        Tight lead words := by
  constructor
  · intro hOnly
    by_contra hNeither
    rw [not_or, Classical.not_forall] at hNeither
    rcases hNeither with ⟨⟨word, hWord⟩, hLoose⟩
    rw [Classical.not_imp, Bool.not_eq_false] at hWord
    rcases exists_other hValid ⟨word, hWord⟩ hLoose with
      ⟨others, hOther, hText, hLength, hOthers⟩
    exact hOther (hOnly others hOthers hLength hText)
  · rintro (hOnes | hTight) others hOthers hLength hText
    · exact eq_of_ones hOnes hLength hText
    · rcases (tight_minimal hTight).1 others hOthers hText
        with hSame | hLonger
      · exact hSame
      · omega

end DigitWord

end AsaKernel
