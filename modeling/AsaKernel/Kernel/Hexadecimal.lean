import AsaKernel.Foundations.FixedWidth
import Mathlib.Tactic.Ring

/-
  Numbers in hexadecimal on the console (my-kernel-asa:
  main.c).

  `puthex` goes through the eight digits of a word, the high
  one first, and starts to print at the first that is not
  zero.  The digits are those of the number read as unsigned,
  since the arithmetic shift is masked.  The number zero has
  no such digit, and nothing is printed.

  Main declarations:
    * `puthex`, `hexValue`
    * `PrintsNumber`, `printsNumber_iff`
-/

------------------------------------------------------------
-- Printing
------------------------------------------------------------

namespace AsaKernel

open FixedWidth

/- hex_digit -/
def hexDigit : List UInt8 :=
  [48, 49, 50, 51, 52, 53, 54, 55, 56, 57,
    65, 66, 67, 68, 69, 70]

/-
  The loop of `puthex` from the digit `count - 1` down, as the
  characters that it passes to `putc`.
-/
def puthexLoop
    (aNumber : Int32) :
    (count : Nat) → (started : Bool) → List UInt8
| 0, _ => []
| i + 1, started =>
    let k := (aNumber >>> Int32.ofNat (4 * i)) &&& 0xF
    if k ≠ 0 ∨ started then
      hexDigit.getD k.toUInt32.toNat 0 ::
        puthexLoop aNumber i true
    else puthexLoop aNumber i started

/- puthex -/
def puthex
    (aNumber : Int32) : List UInt8 :=
  puthexLoop aNumber 8 false

/- The number that digits in base 16 stand for. -/
def hexValue
    (text : List UInt8) : Nat :=
  text.foldl (fun v c => v * 16 + hexDigit.idxOf c) 0

/- The text is the number, and that of no other number. -/
structure PrintsNumber
    (n : Int32)
    (text : List UInt8) : Prop where
  nonempty : text ≠ []
  digits : ∀ c ∈ text, c ∈ hexDigit
  leading : text.head? = some 48 → text = [48]
  value : hexValue text = n.toUInt32.toNat
  distinct : ∀ m, puthex m = text → m = n

------------------------------------------------------------
-- Digits
------------------------------------------------------------

/- The digit of an iteration. -/
theorem digit_toNat
    (aNumber : Int32)
    {i : Nat}
    (hDigit : i < 8) :
    ((aNumber >>> Int32.ofNat (4 * i)) &&&
        0xF).toUInt32.toNat =
      aNumber.toUInt32.toNat / 16 ^ i % 16 := by
  have hMask :=
    toNat_and_mask (aNumber >>> Int32.ofNat (4 * i)) (w := 4)
      (by decide)
  have hBits :=
    toNat_shiftRight_mod aNumber (k := 4 * i) (w := 4)
      (by omega) (by omega)
  have hPow : 2 ^ (4 * i) = 16 ^ i := Nat.pow_mul 2 4 i
  rw [hPow] at hBits
  exact hMask.trans hBits

theorem digit_eq_zero_iff
    (x : Int32) :
    x = 0 ↔ x.toUInt32.toNat = 0 := by
  rw [← Int32.toBitVec_inj, ← BitVec.toNat_inj]
  rfl

theorem idxOf_hexDigit
    {d : Nat}
    (hDigit : d < 16) :
    hexDigit.idxOf (hexDigit.getD d 0) = d ∧
      hexDigit.getD d 0 ∈ hexDigit ∧
      (hexDigit.getD d 0 = 48 → d = 0) := by
  have hAll :
      ∀ d : Fin 16,
        hexDigit.idxOf (hexDigit.getD d 0) = d ∧
          hexDigit.getD d 0 ∈ hexDigit ∧
          (hexDigit.getD d 0 = 48 → d = 0) := by
    decide
  rcases hAll ⟨d, hDigit⟩ with ⟨hIndex, hMem, hZero⟩
  exact ⟨hIndex, hMem, fun h => congrArg Fin.val (hZero h)⟩

------------------------------------------------------------
-- Texts
------------------------------------------------------------

section Loop

variable (aNumber : Int32)
variable {count : Nat} {started : Bool}

/- One iteration of the loop, by the digit of the number. -/
theorem puthexLoop_succ
    (started : Bool)
    (hCount : count < 8) :
    let d := aNumber.toUInt32.toNat / 16 ^ count % 16
    (d = 0 ∧ started = false ∧
      puthexLoop aNumber (count + 1) started =
        puthexLoop aNumber count false) ∨
    ((d ≠ 0 ∨ started = true) ∧
      puthexLoop aNumber (count + 1) started =
        hexDigit.getD d 0 ::
          puthexLoop aNumber count true) := by
  intro d
  have hDigit := digit_toNat aNumber hCount
  have hZero :=
    digit_eq_zero_iff
      ((aNumber >>> Int32.ofNat (4 * count)) &&& 0xF)
  rw [hDigit] at hZero
  rw [puthexLoop]
  by_cases hPrint :
      ((aNumber >>> Int32.ofNat (4 * count)) &&& 0xF) ≠ 0 ∨
        started = true
  · rw [if_pos hPrint, hDigit]
    rw [Ne, hZero] at hPrint
    exact Or.inr ⟨hPrint, rfl⟩
  · rw [if_neg hPrint]
    rw [Ne, hZero, not_or, not_not, Bool.not_eq_true]
      at hPrint
    exact Or.inl ⟨hPrint.1, hPrint.2, by rw [hPrint.2]⟩

/- The loop prints the low digits after what it has printed. -/
theorem value_puthexLoop
    (hCount : count ≤ 8)
    {v : Nat}
    (hStart : started = true ∨ v = 0) :
    (puthexLoop aNumber count started).foldl
        (fun v c => v * 16 + hexDigit.idxOf c) v =
      v * 16 ^ count +
        aNumber.toUInt32.toNat % 16 ^ count := by
  induction count generalizing started v with
  | zero => simp [puthexLoop, Nat.mod_one]
  | succ count ih =>
      have hLow :=
        Nat.mod_pow_succ (x := aNumber.toUInt32.toNat)
          (b := 16) (k := count)
      rcases puthexLoop_succ aNumber started hCount with
        ⟨hZero, hNot, hLoop⟩ | ⟨_, hLoop⟩
      · have hNone : v = 0 := by
          rcases hStart with hStart | hStart
          · rw [hNot] at hStart
            cases hStart
          · exact hStart
        rw [hLoop, ih (by omega) (Or.inr hNone), hLow,
          hZero, hNone]
        omega
      · have hDigit :=
          (idxOf_hexDigit (Nat.mod_lt
            (aNumber.toUInt32.toNat / 16 ^ count)
            (show 0 < 16 by decide))).1
        rw [hLoop, List.foldl_cons,
          ih (by omega) (Or.inl rfl), hDigit, hLow,
          Nat.pow_succ]
        ring

theorem mem_puthexLoop
    (hCount : count ≤ 8)
    {c : UInt8}
    (hMem : c ∈ puthexLoop aNumber count started) :
    c ∈ hexDigit := by
  induction count generalizing started with
  | zero => cases hMem
  | succ count ih =>
      rcases puthexLoop_succ aNumber started hCount with
        ⟨_, _, hLoop⟩ | ⟨_, hLoop⟩
      · rw [hLoop] at hMem
        exact ih (by omega) hMem
      · rw [hLoop, List.mem_cons] at hMem
        rcases hMem with rfl | hMem
        · exact (idxOf_hexDigit
            (Nat.mod_lt _ (by decide))).2.1
        · exact ih (by omega) hMem

/- The first digit printed is not zero. -/
theorem head_puthexLoop
    (hCount : count ≤ 8) :
    (puthexLoop aNumber count false).head? ≠ some 48 := by
  induction count with
  | zero => exact fun h => by cases h
  | succ count ih =>
      rcases puthexLoop_succ aNumber false hCount with
        ⟨_, _, hLoop⟩ | ⟨hPrint, hLoop⟩
      · rw [hLoop]
        exact ih (by omega)
      · rw [hLoop, List.head?_cons]
        intro hHead
        have hZero :=
          (idxOf_hexDigit (Nat.mod_lt _ (by decide))).2.2
            (Option.some.inj hHead)
        rcases hPrint with hPrint | hPrint
        · exact hPrint hZero
        · cases hPrint

end Loop

/- What is printed has the value of the number. -/
theorem hexValue_puthex
    (n : Int32) :
    hexValue (puthex n) = n.toUInt32.toNat := by
  have hValue :
      (puthexLoop n 8 false).foldl
          (fun v c => v * 16 + hexDigit.idxOf c) 0 =
        0 * 16 ^ 8 + n.toUInt32.toNat % 16 ^ 8 :=
    value_puthexLoop n (Nat.le_refl 8) (Or.inr rfl)
  have hRange := n.toUInt32.toNat_lt
  unfold hexValue puthex
  rw [hValue, Nat.mod_eq_of_lt (by omega)]
  omega

/- Every number is printed, except zero. -/
theorem printsNumber_iff
    (n : Int32) :
    PrintsNumber n (puthex n) ↔ n ≠ 0 := by
  have hValue := hexValue_puthex n
  constructor
  · rintro hPrints rfl
    exact hPrints.nonempty (by decide)
  · intro hNonzero
    have hText : puthex n ≠ [] := by
      intro hEmpty
      rw [hEmpty] at hValue
      exact hNonzero
        ((digit_eq_zero_iff n).mpr hValue.symm)
    constructor
    · exact hText
    · exact fun c => mem_puthexLoop n (Nat.le_refl 8)
    · intro hHead
      exact absurd hHead (head_puthexLoop n (Nat.le_refl 8))
    · exact hValue
    · intro m hSame
      have hOther := hexValue_puthex m
      rw [hSame, hValue] at hOther
      have hBits : n.toUInt32 = m.toUInt32 :=
        UInt32.toNat_inj.mp hOther
      exact congrArg UInt32.toInt32 hBits.symm

/- Nothing is printed for zero. -/
theorem zero_not_printed :
    ¬ ∀ n, PrintsNumber n (puthex n) := by
  intro hAll
  exact (hAll 0).nonempty (by decide)

end AsaKernel
