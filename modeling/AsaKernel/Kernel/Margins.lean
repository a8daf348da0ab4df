import AsaKernel.Foundations.Transition
import AsaKernel.Kernel.Display

/-
  The cursor at the margins of the screen (my-kernel-asa:
  main.c).

  A call of `putc` may leave the cursor one past the last
  column or one past the last row.  The next call brings it
  back before it looks at its character, so a control
  character acts from there; `setCursor` has already shown it
  where it was left.

  Main declarations:
    * `StoredIn`, `Cursor.nextRow`
    * `cursor_motions`
    * `Display.hardwareCursor`, `EndsScreen`
    * `hardwareCursor_iff`
-/

------------------------------------------------------------
-- Cells
------------------------------------------------------------

namespace AsaKernel

open FixedWidth Transition

/- The call stores its character in the cell, and no other. -/
def StoredIn
    (c : UInt8)
    (cur cell : Cursor) : Prop :=
  ∀ other d,
    .glyph other d ∈ (putc c cur).2 ↔ other = cell ∧ d = c

/-
  The first column of the row after that of a cell, which is
  the first row after the last one.
-/
def Cursor.nextRow
    (cell : Cursor) : Cursor :=
  if cell.y = 24 then .home else { x := 0, y := cell.y + 1 }

theorem Cursor.ext_toInt
    {cur cell : Cursor}
    (hColumn : cur.x.toInt = cell.x.toInt)
    (hRow : cur.y.toInt = cell.y.toInt) :
    cur = cell := by
  rcases cur with ⟨x, y⟩
  rcases cell with ⟨x', y'⟩
  rw [Cursor.mk.injEq]
  exact ⟨Int32.toInt_inj.mp hColumn,
    Int32.toInt_inj.mp hRow⟩

/- An ordinary character goes where the tests leave it. -/
theorem storedIn_wrap
    {c : UInt8}
    (cur : Cursor)
    (hOrdinary : ¬ IsControl c) :
    StoredIn c cur (wrap cur).1 := by
  intro other d
  unfold putc
  dsimp only
  rw [dispatch_ordinary _ hOrdinary, List.mem_append,
    List.mem_append, List.mem_singleton,
    ConsoleOp.glyph.injEq]
  constructor
  · rintro ((hCleared | hSame) | hPort)
    · rcases clearScreen_mem (wrapRow_mem hCleared) with
        ⟨index, value, hBlank, _⟩
      cases hBlank
    · exact hSame
    · rcases setCursor_mem hPort with ⟨port, value, hOut⟩
      cases hOut
  · exact fun hSame => Or.inl (Or.inr hSame)

------------------------------------------------------------
-- Motions after a Character
------------------------------------------------------------

/- The cursor after an ordinary character in a cell. -/
theorem putc_ordinary_moves
    {c : UInt8}
    {cur : Cursor}
    (hBetween : cur.Between)
    (hOrdinary : ¬ IsControl c) :
    (wrap cur).1.OnScreen ∧
      (putc c cur).1.x.toInt = (wrap cur).1.x.toInt + 1 ∧
      (putc c cur).1.y.toInt = (wrap cur).1.y.toInt := by
  have hRow := hBetween.row
  have hOn : (wrap cur).1.OnScreen :=
    wrap_onScreen hBetween.column.1 (by omega)
  exact ⟨hOn, dispatch_ordinary_moves hOn hOrdinary⟩

/- The tests after a character in the last column. -/
theorem wrap_after_last
    {cell after : Cursor}
    (hOn : cell.OnScreen)
    (hLast : cell.x = 79)
    (hColumn : after.x.toInt = cell.x.toInt + 1)
    (hRow : after.y.toInt = cell.y.toInt) :
    (wrap after).1 = cell.nextRow := by
  rcases hOn with ⟨_, hRows⟩
  have hPast : cell.x.toInt = 79 := by rw [hLast]; rfl
  have hHere : cell.y = 24 ↔ cell.y.toInt = 24 :=
    Int32.toInt_inj.symm
  have hRange :
      0 ≤ after.y.toInt ∧ after.y.toInt ≤ 1000 := by
    omega
  rcases wrap_moves hRange with
    ⟨_, ⟨hx, _⟩ | ⟨_, hy, hZero, hNext⟩⟩ |
      ⟨_, ⟨hx, _⟩ | ⟨_, hy, hZero, hTop⟩⟩
  · omega
  · unfold Cursor.nextRow
    rw [if_neg (by rw [hHere]; omega)]
    have hSucc := Cursor.toInt_succ hRows.1 (by omega)
    apply Cursor.ext_toInt
    · exact hZero
    · rw [hNext, hSucc, hRow]
  · omega
  · unfold Cursor.nextRow
    rw [if_pos (by rw [hHere]; omega)]
    exact Cursor.ext_toInt hZero hTop

/- The tests after a character in another column. -/
theorem wrap_after_inner
    {cell after : Cursor}
    (hOn : cell.OnScreen)
    (hInner : cell.x ≠ 79)
    (hColumn : after.x.toInt = cell.x.toInt + 1)
    (hRow : after.y.toInt = cell.y.toInt) :
    (wrap after).1 = after := by
  rcases hOn with ⟨hColumns, hRows⟩
  have hBefore : cell.x.toInt ≠ 79 :=
    fun hSame => hInner (Int32.toInt_inj.mp hSame)
  have hRange :
      0 ≤ after.y.toInt ∧ after.y.toInt ≤ 1000 := by
    omega
  rcases wrap_moves hRange with
    ⟨_, ⟨_, _, hSame⟩ | ⟨hx, _⟩⟩ |
      ⟨_, ⟨_, hy, _⟩ | ⟨hx, _⟩⟩
  · exact hSame
  · omega
  · omega
  · omega

theorem puts_between
    (text : List UInt8)
    {cur : Cursor}
    (hBetween : cur.Between) :
    (puts text cur).1.Between := by
  induction text generalizing cur with
  | nil => exact hBetween
  | cons c text ih => exact ih (putc_between c hBetween)

theorem putc_backspace
    (cur : Cursor) :
    (putc 8 cur).1 =
      if 0 < (wrap cur).1.x then
        { (wrap cur).1 with x := (wrap cur).1.x - 1 }
      else (wrap cur).1 := by
  unfold putc dispatch
  dsimp only
  rw [if_neg (by decide), if_neg (by decide), if_pos rfl]

theorem putc_return
    (cur : Cursor) :
    (putc 13 cur).1 = { (wrap cur).1 with x := 0 } := by
  unfold putc dispatch
  dsimp only
  rw [if_pos rfl]

/-
  After an ordinary character a backspace puts the cursor back
  on its cell, and a carriage return on the first column of
  its row, unless the character is in the last column: there
  both put the cursor on the first column of the next row.
-/
theorem cursor_motions
    (text : List UInt8)
    (c : UInt8)
    (hOrdinary : ¬ IsControl c) :
    let cur := (puts text .home).1
    let after := (putc c cur).1
    ∃ cell, StoredIn c cur cell ∧ cell.OnScreen ∧
      (cell.x ≠ 79 →
        (putc 8 after).1 = cell ∧
          (putc 13 after).1 = { cell with x := 0 }) ∧
      (cell.x = 79 →
        (putc 8 after).1 = cell.nextRow ∧
          (putc 13 after).1 = cell.nextRow) := by
  intro cur after
  have hBetween : cur.Between := puts_between text Cursor.between_home
  have hMoves :
      (wrap cur).1.OnScreen ∧
        after.x.toInt = (wrap cur).1.x.toInt + 1 ∧
        after.y.toInt = (wrap cur).1.y.toInt :=
    putc_ordinary_moves hBetween hOrdinary
  rcases hMoves with ⟨hOn, hColumn, hRow⟩
  refine ⟨(wrap cur).1, storedIn_wrap cur hOrdinary, hOn,
    ?_, ?_⟩
  · intro hInner
    have hWrapped : (wrap after).1 = after :=
      wrap_after_inner hOn hInner hColumn hRow
    have hColumns := hOn.column
    have hPositive : 0 < after.x :=
      Int32.lt_iff_toInt_lt.mpr
        (show (0 : Int) < after.x.toInt by omega)
    have hBefore : (after.x - 1).toInt = after.x.toInt - 1 :=
      toInt_sub (by simp; omega) (by simp; omega)
    rw [putc_backspace, putc_return, hWrapped,
      if_pos hPositive]
    constructor
    · apply Cursor.ext_toInt
      · dsimp only
        omega
      · exact hRow
    · exact Cursor.ext_toInt rfl hRow
  · intro hLast
    have hWrapped : (wrap after).1 = (wrap cur).1.nextRow :=
      wrap_after_last hOn hLast hColumn hRow
    have hFirst : (wrap cur).1.nextRow.x = 0 := by
      unfold Cursor.nextRow
      split_ifs <;> rfl
    rw [putc_backspace, putc_return, hWrapped, hFirst,
      if_neg (by decide)]
    exact ⟨rfl, Cursor.ext_toInt (by rw [hFirst]) rfl⟩

/- Tabulations and letters up to column 79. -/
def rowText : List UInt8 :=
  List.replicate 9 9 ++ List.replicate 7 65

/- The next letter ends the row, and both go to the next one. -/
theorem cursor_motions_margin :
    let cur := (puts rowText .home).1
    let after := (putc 66 cur).1
    StoredIn 66 cur ⟨79, 0⟩ ∧
      (putc 8 after).1 = ⟨0, 1⟩ ∧
      (putc 13 after).1 = ⟨0, 1⟩ := by
  intro cur after
  have hCursor : cur = ⟨79, 0⟩ := by decide +kernel
  rcases cursor_motions rowText 66 (by decide) with
    ⟨cell, hStored, _, _, hLast⟩
  have hGlyph : .glyph ⟨79, 0⟩ 66 ∈ (putc 66 cur).2 := by
    rw [hCursor]
    decide
  have hCell := ((hStored ⟨79, 0⟩ 66).mp hGlyph).1
  rw [← hCell] at hStored hLast
  exact ⟨hStored, hLast rfl⟩

/- Nine tabulations and seven letters lead to column 79. -/
theorem last_column_motions :
    ¬ ∀ text c, ¬ IsControl c →
      let cur := (puts text .home).1
      let after := (putc c cur).1
      ∃ cell, StoredIn c cur cell ∧
        (putc 8 after).1 = cell ∧
        (putc 13 after).1 = { cell with x := 0 } := by
  intro hAll
  have hCursor :
      (puts (List.replicate 9 9 ++ List.replicate 7 65)
        .home).1 = ⟨79, 0⟩ := by
    decide +kernel
  rcases hAll (List.replicate 9 9 ++ List.replicate 7 65) 65
      (by decide) with
    ⟨cell, hStored, hBack, _⟩
  rw [hCursor] at hStored hBack
  have hCell := (hStored ⟨79, 0⟩ 65).mp (by decide)
  rw [← hCell.1] at hBack
  exact absurd hBack (by decide)

------------------------------------------------------------
-- Hardware Cursor
------------------------------------------------------------

/-
  The character moves the cursor past the end of the last row:
  a line feed there, or a tabulation or an ordinary character
  that ends its last column.
-/
def EndsScreen
    (cur : Cursor)
    (c : UInt8) : Prop :=
  (c = 10 ∧
    ((cur.x ≤ 79 ∧ cur.y = 24) ∨
      (79 < cur.x ∧ cur.y = 23))) ∨
  (c = 9 ∧ 72 ≤ cur.x ∧ cur.x ≤ 79 ∧ cur.y = 24) ∨
  (¬ IsControl c ∧ cur.x = 79 ∧ cur.y = 24)

instance
    (cur : Cursor)
    (c : UInt8) :
    Decidable (EndsScreen cur c) :=
  inferInstanceAs (Decidable (_ ∨ _ ∨ _))

namespace Display

/- The cell number in the registers 14 and 15. -/
def hardwareCursor
    (s : Display) : Nat :=
  (s.registers 14).toNat * 256 + (s.registers 15).toNat

/-
  The hardware cursor is on the screen, at the cell of the
  next ordinary character.
-/
structure ShowsCursor
    (s : Display) : Prop where
  onScreen : s.hardwareCursor < 80 * 25
  next :
    ∀ d, ¬ IsControl d →
      ∃ cell, StoredIn d s.cursor cell ∧
        cell.index.toInt = 2 * s.hardwareCursor

end Display

/- The index of the cell that the cursor is at, in order. -/
theorem offset_toInt
    {cur : Cursor}
    (hBetween : cur.Between) :
    (cur.x + cur.y * 80).toInt =
      cur.x.toInt + 80 * cur.y.toInt := by
  rcases hBetween with ⟨hColumn, hRow⟩
  have hScaled : (cur.y * 80).toInt = 80 * cur.y.toInt := by
    rw [Int32.toInt_mul, Int.mul_comm]
    exact bmod_of_range (by simp; omega) (by simp; omega)
  rw [toInt_add (by omega) (by omega), hScaled]

/- `setCursor` sends the whole cell number. -/
theorem hardwareCursor_setCursor
    {cur : Cursor}
    (hBetween : cur.Between)
    (s : Display) :
    ((setCursor cur).foldl Display.perform
        s).hardwareCursor =
      80 * cur.y.toInt + cur.x.toInt := by
  have hOffset := offset_toInt hBetween
  rcases hBetween with ⟨hColumn, hRow⟩
  have hBits :=
    toNat_toUInt32_of_nonneg (x := cur.x + cur.y * 80)
      (by omega)
  have hHigh :=
    toNat_byte (cur.x + cur.y * 80) (k := 8) (by decide)
  have hLow :=
    toNat_byte (cur.x + cur.y * 80) (k := 0) (by decide)
  rw [show Int32.ofNat 0 = 0 from rfl,
    Int32.shiftRight_zero] at hLow
  have hPorts :
      ((setCursor cur).foldl Display.perform
          s).hardwareCursor =
        (((cur.x + cur.y * 80) >>> Int32.ofNat 8) &&&
            0xFF).toUInt32.toUInt8.toNat * 256 +
          ((cur.x + cur.y * 80) &&&
            0xFF).toUInt32.toUInt8.toNat := rfl
  rw [hPorts, hHigh, hLow]
  omega

/- The call programs the cell that it leaves the cursor at. -/
theorem hardwareCursor_putc
    (c : UInt8)
    {s : Display}
    (hBetween : s.cursor.Between) :
    ((s.putc c).hardwareCursor : Int) =
      80 * (s.putc c).cursor.y.toInt +
        (s.putc c).cursor.x.toInt := by
  rw [Display.cursor_putc]
  unfold Display.putc putc
  dsimp only
  rw [List.foldl_append]
  exact hardwareCursor_setCursor (putc_between c hBetween) _

/- The cell of the next character, unless a page is over. -/
theorem wrap_index
    {cur : Cursor}
    (hBetween : cur.Between)
    (hRoom : 80 * cur.y.toInt + cur.x.toInt < 2000) :
    (wrap cur).1.index.toInt =
      2 * (80 * cur.y.toInt + cur.x.toInt) := by
  rcases hBetween with ⟨hColumn, hRow⟩
  have hRows : 0 ≤ cur.y.toInt ∧ cur.y.toInt ≤ 1000 := by
    omega
  have hOn := wrap_onScreen hColumn.1 hRows
  have hColumns := hOn.column
  have hRows' := hOn.row
  rw [Cursor.index_toInt (by omega) (by omega)]
  rcases wrap_moves hRows with
    ⟨_, ⟨_, _, hSame⟩ | ⟨_, _, _, _⟩⟩ |
      ⟨_, ⟨_, _, _, _⟩ | ⟨_, _, _, _⟩⟩
  · rw [hSame]
    omega
  · omega
  · omega
  · omega

/- Where one call leaves the cursor past the last cell. -/
theorem past_last_cell_iff
    (c : UInt8)
    {cur : Cursor}
    (hBetween : cur.Between) :
    80 * (putc c cur).1.y.toInt + (putc c cur).1.x.toInt <
        2000 ↔
      ¬ EndsScreen cur c := by
  have hEnds :
      EndsScreen cur c ↔
        (c = 10 ∧
          ((cur.x.toInt ≤ 79 ∧ cur.y.toInt = 24) ∨
            (79 < cur.x.toInt ∧ cur.y.toInt = 23))) ∨
        (c = 9 ∧ 72 ≤ cur.x.toInt ∧ cur.x.toInt ≤ 79 ∧
          cur.y.toInt = 24) ∨
        (¬ IsControl c ∧ cur.x.toInt = 79 ∧
          cur.y.toInt = 24) := by
    unfold EndsScreen
    rw [Int32.le_iff_toInt_le, Int32.lt_iff_toInt_lt,
      Int32.le_iff_toInt_le, ← Int32.toInt_inj (x := cur.y),
      ← Int32.toInt_inj (x := cur.y),
      ← Int32.toInt_inj (x := cur.x)]
    rfl
  rcases hBetween with ⟨hColumn, hRow⟩
  have hRows : 0 ≤ cur.y.toInt ∧ cur.y.toInt ≤ 1000 := by
    omega
  have hOn := wrap_onScreen hColumn.1 hRows
  have hColumns := hOn.column
  have hRows' := hOn.row
  have hMoves := dispatch_moves c hOn
  have hPlace :
      (cur.x.toInt ≤ 79 ∧
          (wrap cur).1.x.toInt = cur.x.toInt ∧
          ((cur.y.toInt ≤ 24 ∧
              (wrap cur).1.y.toInt = cur.y.toInt) ∨
            (24 < cur.y.toInt ∧
              (wrap cur).1.y.toInt = 0))) ∨
        (79 < cur.x.toInt ∧ (wrap cur).1.x.toInt = 0 ∧
          ((cur.y.toInt ≤ 23 ∧
              (wrap cur).1.y.toInt = cur.y.toInt + 1) ∨
            (23 < cur.y.toInt ∧
              (wrap cur).1.y.toInt = 0))) := by
    rcases wrap_moves hRows with
      ⟨_, ⟨hx, hy, hSame⟩ | ⟨hx, hy, hZero, hNext⟩⟩ |
        ⟨_, ⟨hx, hy, hSame, hZero⟩ | ⟨hx, hy, hZero, hTop⟩⟩
    · rw [hSame]
      exact Or.inl ⟨hx, rfl, Or.inl ⟨hy, rfl⟩⟩
    · exact Or.inr ⟨hx, hZero, Or.inl ⟨hy, hNext⟩⟩
    · exact Or.inl ⟨hx, hSame, Or.inr ⟨hy, hZero⟩⟩
    · exact Or.inr ⟨hx, hZero, Or.inr ⟨hy, hTop⟩⟩
  have hBack : IsControl 13 ∧ IsControl 10 ∧ IsControl 8 ∧
      IsControl 9 := by
    decide
  rw [hEnds]
  unfold putc
  dsimp only
  rcases hMoves with
    ⟨rfl, hx, hy⟩ | ⟨rfl, hx, hy⟩ | ⟨rfl, hx, hy⟩ |
      ⟨rfl, hx, hy⟩ | ⟨hOrdinary, hx, hy⟩
  · simp [hBack]
    omega
  · simp [hBack]
    omega
  · simp [hBack]
    omega
  · simp [hBack]
    omega
  · have hFeed : c ≠ 10 :=
      fun h => hOrdinary (Or.inr (Or.inl h))
    have hTab : c ≠ 9 :=
      fun h => hOrdinary (Or.inr (Or.inr (Or.inr h)))
    simp [hOrdinary, hFeed, hTab]
    omega

/- The cursor is shown unless the call ends the screen. -/
theorem showsCursor_iff
    (c : UInt8)
    {s : Display}
    (hBetween : s.cursor.Between) :
    (s.putc c).ShowsCursor ↔ ¬ EndsScreen s.cursor c := by
  have hShown := hardwareCursor_putc c hBetween
  have hNext := putc_between c hBetween
  rw [← past_last_cell_iff c hBetween]
  constructor
  · intro hCursor
    have hInside := hCursor.onScreen
    rw [Display.cursor_putc] at hShown
    omega
  · intro hRoom
    constructor
    · rw [Display.cursor_putc] at hShown
      omega
    · intro d hOrdinary
      refine ⟨_, storedIn_wrap _ hOrdinary, ?_⟩
      rw [Display.cursor_putc] at hShown ⊢
      rw [wrap_index hNext hRoom, hShown]

/- A run of calls is the text printed. -/
theorem run_putc_eq
    (text : List UInt8)
    (s : Display) :
    run (fun t c => some (Display.putc c t)) s text =
      some (s.puts text) := by
  induction text generalizing s with
  | nil => rfl
  | cons c text ih =>
      rw [run_cons, Option.bind_some, ih]
      rfl

/-
  In a run from the home position the hardware cursor is at
  the cell of the next ordinary character after every call if
  and only if no call ends the screen.
-/
theorem hardwareCursor_iff
    (text : List UInt8)
    (s : Display)
    (hHome : s.cursor = .home) :
    Always (fun t c => some (Display.putc c t)) s text
        (fun t c => (t.putc c).ShowsCursor) ↔
      Always (fun t c => some (Display.putc c t)) s text
        (fun t c => ¬ EndsScreen t.cursor c) := by
  apply always_iff_of_invariant fun t => t.cursor.Between
  · rw [hHome]
    exact Cursor.between_home
  · intro t c u hBetween hStep
    cases hStep
    rw [Display.cursor_putc]
    exact putc_between c hBetween
  · intro t c hBetween
    exact showsCursor_iff c hBetween

/- A whole row and the start of the next one. -/
theorem hardwareCursor_iff_row :
    let s : Display :=
      { cursor := .home
        memory := fun _ => 0
        selected := 0
        registers := fun _ => 0 }
    Always (fun t c => some (Display.putc c t)) s
      (rowText ++ [66, 67, 8])
      fun t c => (t.putc c).ShowsCursor := by
  intro s
  exact (hardwareCursor_iff (rowText ++ [66, 67, 8]) s
    rfl).mpr (by decide +kernel)

/- 25 line feeds program the cell 2000. -/
theorem hardwareCursor_off_screen :
    ¬ ∀ text (s : Display), s.cursor = .home →
      Always (fun t c => some (Display.putc c t)) s text
        (fun t c => (t.putc c).ShowsCursor) := by
  intro hAll
  let s : Display :=
    { cursor := .home
      memory := fun _ => 0
      selected := 0
      registers := fun _ => 0 }
  have hLast :=
    hAll (List.replicate 25 10) s rfl
      (s.puts (List.replicate 24 10)) 10
      ⟨List.replicate 24 10, [], rfl, run_putc_eq _ _⟩
  have hCell :
      ((s.puts (List.replicate 24 10)).putc
        10).hardwareCursor = 2000 := by
    decide +kernel
  have hInside := hLast.onScreen
  rw [hCell] at hInside
  exact absurd hInside (by decide)

end AsaKernel
