import Mathlib.Data.Nat.Digits.Defs
import Mathlib.Tactic.Common

/-
  Words and numbers in a stream of bytes.

  The conversions of the C library: `%s` reads a word and `%d`
  a decimal number, both after any space that stands before
  it; `%d` also prints a number.  A sign that no digit follows
  is read and lost, other bytes that fit no number are not
  read.

  Main declarations:
    * `Scanning.word`, `Scanning.number`
    * `Scanning.integer`
    * `Scanning.word_append`, `Scanning.number_integer`
    * `Scanning.integer_append_inj`
-/

------------------------------------------------------------
-- Conversions
------------------------------------------------------------

namespace AsaKernel

namespace Scanning

/- isspace -/
def isSpace
    (c : UInt8) : Bool :=
  c = 32 ∨ (9 ≤ c ∧ c ≤ 13)

/- isdigit -/
def isDigit
    (c : UInt8) : Bool :=
  48 ≤ c ∧ c ≤ 57

/- The bytes of a literal. -/
def text
    (s : String) : List UInt8 :=
  s.toList.flatMap String.utf8EncodeChar

def skipSpace
    (input : List UInt8) : List UInt8 :=
  input.dropWhile isSpace

/- As much of a run as a width allows. -/
def clip
    (run : List UInt8) : Option Nat → List UInt8
| none => run
| some w => run.take w

/-
  The next word, of at most `width` bytes if a width is given,
  and what follows it.  There is none at the end of the input.
-/
def word
    (width : Option Nat)
    (input : List UInt8) :
    Option (List UInt8 × List UInt8) :=
  let rest := skipSpace input
  let run := rest.takeWhile fun c => !isSpace c
  let field := clip run width
  if field = [] then none
  else some (field, rest.drop field.length)

def digitValue
    (c : UInt8) : Nat :=
  c.toNat - 48

/- The number that digits stand for, the high one first. -/
def value
    (digits : List UInt8) : Nat :=
  digits.foldl (fun n c => 10 * n + digitValue c) 0

/- The sign of a number, and what follows it. -/
def sign
    (input : List UInt8) : Bool × List UInt8 :=
  if input.head? = some 45 then (true, input.tail)
  else if input.head? = some 43 then (false, input.tail)
  else (false, input)

/- The next number, if there is one, and what follows it. -/
def number
    (input : List UInt8) : Option Int × List UInt8 :=
  let (negative, rest) := sign (skipSpace input)
  let digits := rest.takeWhile isDigit
  let n : Int := value digits
  (if digits = [] then none
    else some (if negative then -n else n),
    rest.drop digits.length)

def digitByte
    (d : Nat) : UInt8 :=
  UInt8.ofNat (48 + d)

/- A number in decimal, without leading zeros. -/
def decimal
    (n : Nat) : List UInt8 :=
  if n = 0 then [48]
  else (Nat.digits 10 n).reverse.map digitByte

/- What `%d` prints. -/
def integer
    (n : Int) : List UInt8 :=
  if n < 0 then 45 :: decimal n.natAbs else decimal n.natAbs

------------------------------------------------------------
-- Consumption
------------------------------------------------------------

theorem length_skipSpace
    (input : List UInt8) :
    (skipSpace input).length ≤ input.length :=
  (List.dropWhile_suffix isSpace).length_le

theorem clip_append
    (run : List UInt8)
    (width : Option Nat) :
    clip run width <+: run := by
  cases width with
  | none => exact List.prefix_rfl
  | some w => exact List.take_prefix w run

/- A word takes at least one byte. -/
theorem word_length
    {width : Option Nat}
    {input field rest : List UInt8}
    (hWord : word width input = some (field, rest)) :
    rest.length < input.length := by
  have hSkip := length_skipSpace input
  unfold word at hWord
  dsimp only at hWord
  rw [Option.ite_none_left_eq_some, Option.some.injEq,
    Prod.mk.injEq] at hWord
  rcases hWord with ⟨hEmpty, rfl, rfl⟩
  have hPos := List.length_pos_iff.mpr hEmpty
  have hFits :=
    ((clip_append _ width).trans
      (List.takeWhile_prefix (l := skipSpace input)
        fun c => !isSpace c)).length_le
  rw [List.length_drop]
  omega

theorem length_sign
    (input : List UInt8) :
    (sign input).2.length ≤ input.length := by
  unfold sign
  split_ifs <;> simp

/- Reading a number never goes back. -/
theorem number_length
    (input : List UInt8) :
    (number input).2.length ≤ input.length := by
  have hSkip := length_skipSpace input
  have hSign := length_sign (skipSpace input)
  unfold number
  dsimp only
  rw [List.length_drop]
  omega

------------------------------------------------------------
-- Words
------------------------------------------------------------

/- What follows a field cannot belong to it. -/
def Ends
    (p : UInt8 → Bool)
    (rest : List UInt8) : Prop :=
  ∀ c ∈ rest.head?, p c = false

theorem takeWhile_ends
    {p : UInt8 → Bool}
    {run rest : List UInt8}
    (hRun : ∀ c ∈ run, p c = true)
    (hEnds : Ends p rest) :
    (run ++ rest).takeWhile p = run := by
  rw [List.takeWhile_append_of_pos hRun]
  cases rest with
  | nil => simp
  | cons c rest =>
      rw [List.takeWhile_cons_of_neg (by simp [hEnds c rfl]),
        List.append_nil]

theorem skipSpace_ends
    {space rest : List UInt8}
    (hSpace : ∀ c ∈ space, isSpace c = true)
    (hEnds : Ends isSpace rest) :
    skipSpace (space ++ rest) = rest := by
  unfold skipSpace
  rw [List.dropWhile_append_of_pos hSpace]
  cases rest with
  | nil => rfl
  | cons c rest =>
      exact List.dropWhile_cons_of_neg (by simp [hEnds c rfl])

/- A word that fits the width is read back. -/
theorem word_append
    {width : Option Nat}
    {space field rest : List UInt8}
    (hSpace : ∀ c ∈ space, isSpace c = true)
    (hField : field ≠ [])
    (hRun : ∀ c ∈ field, isSpace c = false)
    (hWidth : ∀ w ∈ width, field.length ≤ w)
    (hEnds : Ends (fun c => !isSpace c) rest) :
    word width (space ++ (field ++ rest)) =
      some (field, rest) := by
  have hHead : Ends isSpace (field ++ rest) := by
    intro c hc
    cases field with
    | nil => exact absurd rfl hField
    | cons first field =>
        cases hc
        exact hRun c List.mem_cons_self
  have hTake :
      (field ++ rest).takeWhile (fun c => !isSpace c) =
        field :=
    takeWhile_ends (fun c hc => by simp [hRun c hc]) hEnds
  have hClip : clip field width = field := by
    cases width with
    | none => rfl
    | some w => exact List.take_of_length_le (hWidth w rfl)
  unfold word
  dsimp only
  rw [skipSpace_ends hSpace hHead, hTake, hClip,
    if_neg hField, List.drop_left]

------------------------------------------------------------
-- Numbers
------------------------------------------------------------

theorem digitByte_spec
    {d : Nat}
    (hDigit : d < 10) :
    digitValue (digitByte d) = d ∧
      isDigit (digitByte d) = true := by
  have hAll :
      ∀ d : Fin 10,
        digitValue (digitByte d) = d ∧
          isDigit (digitByte d) = true := by
    decide
  exact hAll ⟨d, hDigit⟩

theorem decimal_ne_nil
    (n : Nat) :
    decimal n ≠ [] := by
  unfold decimal
  split_ifs with hZero
  · exact List.cons_ne_nil _ _
  · simpa [Nat.digits_ne_nil_iff_ne_zero] using hZero

theorem isDigit_decimal
    {n : Nat}
    {c : UInt8}
    (hMem : c ∈ decimal n) :
    isDigit c = true := by
  unfold decimal at hMem
  split_ifs at hMem with hZero
  · rw [List.mem_singleton.mp hMem]
    decide
  · rcases List.mem_map.mp hMem with ⟨d, hDigit, rfl⟩
    exact (digitByte_spec
      (Nat.digits_lt_base (by decide)
        (List.mem_reverse.mp hDigit))).2

/- The digits of a number stand for it. -/
theorem value_decimal
    (n : Nat) :
    value (decimal n) = n := by
  have hFold (digits : List Nat)
      (hDigits : ∀ d ∈ digits, d < 10) :
      value (digits.reverse.map digitByte) =
        Nat.ofDigits 10 digits := by
    induction digits with
    | nil => rfl
    | cons d digits ih =>
        have hDigit :=
          (digitByte_spec (hDigits d List.mem_cons_self)).1
        have hRest := ih fun e he =>
          hDigits e (List.mem_cons_of_mem d he)
        unfold value at hRest ⊢
        rw [List.reverse_cons, List.map_append,
          List.foldl_append, hRest, List.map_singleton,
          List.foldl_cons, List.foldl_nil, hDigit,
          Nat.ofDigits_cons]
        omega
  unfold decimal
  split_ifs with hZero
  · rw [hZero]
    decide
  · rw [hFold (Nat.digits 10 n)
      (fun d hd => Nat.digits_lt_base (by decide) hd),
      Nat.ofDigits_digits]

theorem head_decimal
    (n : Nat)
    (rest : List UInt8) :
    ∃ c, (decimal n ++ rest).head? = some c ∧
      isDigit c = true := by
  rcases List.exists_cons_of_ne_nil (decimal_ne_nil n) with
    ⟨c, digits, hDecimal⟩
  refine ⟨c, by rw [hDecimal]; rfl, ?_⟩
  apply isDigit_decimal (n := n)
  rw [hDecimal]
  exact List.mem_cons_self

/- Digits are neither signs nor space. -/
theorem isDigit_spec
    {c : UInt8}
    (hDigit : isDigit c = true) :
    c ≠ 45 ∧ c ≠ 43 ∧ isSpace c = false := by
  have hRange : 48 ≤ c ∧ c ≤ 57 := by
    simpa [isDigit] using hDigit
  simp only [isSpace, UInt8.le_iff_toNat_le, ne_eq,
    ← UInt8.toNat_inj, decide_eq_false_iff_not] at hRange ⊢
  simp at hRange ⊢
  omega

theorem sign_integer
    (n : Int)
    (rest : List UInt8) :
    sign (integer n ++ rest) =
        (decide (n < 0), decimal n.natAbs ++ rest) ∧
      Ends isSpace (integer n ++ rest) := by
  rcases head_decimal n.natAbs rest with ⟨c, hHead, hDigit⟩
  rcases isDigit_spec hDigit with ⟨hMinus, hPlus, hSpace⟩
  unfold integer sign Ends
  by_cases hNegative : n < 0
  · rw [if_pos hNegative]
    refine ⟨by simp [hNegative], ?_⟩
    intro d hd
    cases hd
    decide
  · rw [if_neg hNegative, hHead]
    refine ⟨by simp [hMinus, hPlus, hNegative], ?_⟩
    intro d hd
    cases hd
    exact hSpace

/- A printed number is read back. -/
theorem number_integer
    {space rest : List UInt8}
    (n : Int)
    (hSpace : ∀ c ∈ space, isSpace c = true)
    (hEnds : Ends isDigit rest) :
    number (space ++ (integer n ++ rest)) =
      (some n, rest) := by
  rcases sign_integer n rest with ⟨hSign, hHead⟩
  have hDigits :
      (decimal n.natAbs ++ rest).takeWhile isDigit =
        decimal n.natAbs :=
    takeWhile_ends (fun c hc => isDigit_decimal hc) hEnds
  unfold number
  rw [skipSpace_ends hSpace hHead, hSign]
  dsimp only
  rw [hDigits, value_decimal, if_neg (decimal_ne_nil _),
    List.drop_left]
  by_cases hNegative : n < 0
  · rw [if_pos (by simpa using hNegative)]
    have hValue : -(n.natAbs : Int) = n := by omega
    rw [hValue]
  · rw [if_neg (by simpa using hNegative)]
    have hValue : (n.natAbs : Int) = n := by omega
    rw [hValue]

example : integer (-120) = text "-120" := by decide

/- A printed number is told apart from what follows it. -/
theorem integer_append_inj
    {n m : Int}
    {rest rest' : List UInt8}
    (hEnds : Ends isDigit rest)
    (hEnds' : Ends isDigit rest')
    (hEq : integer n ++ rest = integer m ++ rest') :
    n = m ∧ rest = rest' := by
  have hSpace : ∀ c ∈ ([] : List UInt8), isSpace c = true := by
    intro c hc
    cases hc
  have hLeft := number_integer n hSpace hEnds
  have hRight := number_integer m hSpace hEnds'
  rw [hEq, hRight, Prod.mk.injEq, Option.some.injEq] at hLeft
  exact ⟨hLeft.1.symm, hLeft.2.symm⟩

end Scanning

end AsaKernel
