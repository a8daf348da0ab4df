import AsaKernel.Foundations.FixedWidth
import Mathlib.Data.List.Basic

/-
  The text console of the kernel (my-kernel-asa: main.c).

  The console never reads the video memory, so each function
  is given by what it does to the cursor and by the list of
  stores and port writes that it performs.  A character of
  the source is the byte that holds it.

  Between two calls of `putc` the cursor may stand one past
  the last column or one past the last row; the tests at the
  start of the next call bring it back.

  Main declarations:
    * `Cursor`, `ConsoleOp`
    * `clearScreen`, `setCursor`, `putc`, `puts`
    * `Cursor.Between`
    * `putc_onScreen`, `puts_chars`, `puts_onScreen`
-/

------------------------------------------------------------
-- Cursor and Effects
------------------------------------------------------------

namespace AsaKernel

open FixedWidth

/- cursor_x and cursor_y -/
structure Cursor where
  x : Int32
  y : Int32
deriving DecidableEq, Repr

namespace Cursor

/- Where the cursor stands when the kernel starts. -/
def home : Cursor where
  x := 0
  y := 0

/- The index in `video_memory` of the cell at the cursor. -/
def index
    (cur : Cursor) : Int32 :=
  (cur.x + 80 * cur.y) * 2

end Cursor

/-
  One effect of the console: a store of `clear_screen`, the
  store of an ordinary character by `putc`, at the cell of
  the cursor, or a write to a port.
-/
inductive ConsoleOp where
  | blank (index : Int32) (value : UInt8)
  | glyph (cell : Cursor) (c : UInt8)
  | outb (port : UInt16) (value : UInt8)
deriving DecidableEq, Repr

/- The index in `video_memory` that an effect stores at. -/
def ConsoleOp.index? : ConsoleOp → Option Int32
| .blank index _ => some index
| .glyph cell _ => some cell.index
| .outb _ _ => none

/- The character that an effect stores for `putc`. -/
def ConsoleOp.char? : ConsoleOp → Option UInt8
| .glyph _ c => some c
| .blank _ _ | .outb _ _ => none

------------------------------------------------------------
-- Functions of the Console
------------------------------------------------------------

/- One iteration of the loop of `clear_screen`. -/
def clearCell
    (i : Nat) : List ConsoleOp :=
  [.blank (Int32.ofNat i * 2 + 1) 0x0F,
    .blank (Int32.ofNat i * 2) 0x20]

/- clear_screen -/
@[irreducible] def clearScreen : List ConsoleOp :=
  (List.range (80 * 25)).flatMap clearCell

/- setCursor -/
def setCursor
    (cur : Cursor) : List ConsoleOp :=
  let offset := cur.x + cur.y * 80
  [.outb 0x3D4 14,
    .outb 0x3D5 ((offset >>> 8) &&& 0xFF).toUInt32.toUInt8,
    .outb 0x3D4 15,
    .outb 0x3D5 (offset &&& 0xFF).toUInt32.toUInt8]

/- The first test of `putc`: past the last column. -/
def wrapColumn
    (cur : Cursor) : Cursor :=
  if 79 < cur.x then { x := 0, y := cur.y + 1 } else cur

/- The second test of `putc`: past the last row. -/
def wrapRow
    (cur : Cursor) : Cursor × List ConsoleOp :=
  if 24 < cur.y then ({ cur with y := 0 }, clearScreen)
  else (cur, [])

/- The two tests at the start of `putc`. -/
def wrap
    (cur : Cursor) : Cursor × List ConsoleOp :=
  wrapRow (wrapColumn cur)

/- The `switch` of `putc`. -/
def dispatch
    (c : UInt8)
    (cur : Cursor) : Cursor × List ConsoleOp :=
  if c = 13 then ({ cur with x := 0 }, [])
  else if c = 10 then ({ x := 0, y := cur.y + 1 }, [])
  else if c = 8 then
    (if 0 < cur.x then { cur with x := cur.x - 1 } else cur,
      [])
  else if c = 9 then
    ({ cur with x := (cur.x + 8) &&& ~~~7 }, [])
  else ({ cur with x := cur.x + 1 }, [.glyph cur c])

/- putc -/
def putc
    (c : UInt8)
    (cur : Cursor) : Cursor × List ConsoleOp :=
  let wrapped := wrap cur
  let moved := dispatch c wrapped.1
  (moved.1, wrapped.2 ++ moved.2 ++ setCursor moved.1)

/- puts -/
def puts :
    List UInt8 → Cursor → Cursor × List ConsoleOp
| [], cur => (cur, [])
| c :: text, cur =>
    let first := putc c cur
    let others := puts text first.1
    (others.1, first.2 ++ others.2)

/- The characters that `putc` does not store. -/
def IsControl
    (c : UInt8) : Prop :=
  c = 13 ∨ c = 10 ∨ c = 8 ∨ c = 9

instance
    (c : UInt8) :
    Decidable (IsControl c) :=
  inferInstanceAs
    (Decidable (c = 13 ∨ c = 10 ∨ c = 8 ∨ c = 9))

------------------------------------------------------------
-- Arithmetic of the Cursor
------------------------------------------------------------

/- The tabulation goes to the next multiple of eight. -/
theorem tabulation_toInt
    {x : Int32}
    (hLow : 0 ≤ x.toInt)
    (hHigh : x.toInt ≤ 80) :
    ((x + 8) &&& ~~~7).toInt = (x.toInt + 8) / 8 * 8 := by
  have hCheck :
      ∀ k : Fin 81,
        ((Int32.ofNat k + 8) &&& ~~~7).toInt =
          ((Int32.ofNat k).toInt + 8) / 8 * 8 := by
    decide
  have hValue :
      Int32.ofNat x.toInt.toNat = x := by
    apply Int32.toInt_inj.mp
    rw [Int32.toInt_ofNat_of_lt (by omega)]
    omega
  have hColumn := hCheck ⟨x.toInt.toNat, by omega⟩
  rwa [hValue] at hColumn

theorem Cursor.index_toInt
    {cur : Cursor}
    (hColumn : 0 ≤ cur.x.toInt ∧ cur.x.toInt ≤ 1000)
    (hRow : 0 ≤ cur.y.toInt ∧ cur.y.toInt ≤ 1000) :
    cur.index.toInt =
      (cur.x.toInt + 80 * cur.y.toInt) * 2 := by
  have hScaled :
      (80 * cur.y).toInt = 80 * cur.y.toInt := by
    rw [Int32.toInt_mul]
    exact bmod_of_range (by simp; omega) (by simp; omega)
  have hSum :
      (cur.x + 80 * cur.y).toInt =
        cur.x.toInt + 80 * cur.y.toInt := by
    rw [toInt_add (by omega) (by omega), hScaled]
  unfold Cursor.index
  rw [Int32.toInt_mul, hSum]
  exact bmod_of_range (by simp; omega) (by simp; omega)

------------------------------------------------------------
-- One Call
------------------------------------------------------------

namespace Cursor

/- Where the cursor may stand between two calls of `putc`. -/
structure Between
    (cur : Cursor) : Prop where
  column : 0 ≤ cur.x.toInt ∧ cur.x.toInt ≤ 80
  row : 0 ≤ cur.y.toInt ∧ cur.y.toInt ≤ 25

/- The cursor is at a cell of the screen. -/
structure OnScreen
    (cur : Cursor) : Prop where
  column : 0 ≤ cur.x.toInt ∧ cur.x.toInt ≤ 79
  row : 0 ≤ cur.y.toInt ∧ cur.y.toInt ≤ 24

theorem between_home :
    home.Between := by
  constructor <;> decide

theorem OnScreen.index_range
    {cur : Cursor}
    (hOn : cur.OnScreen) :
    0 ≤ cur.index.toInt ∧ cur.index.toInt < 80 * 25 * 2 := by
  rcases hOn with ⟨hColumn, hRow⟩
  rw [index_toInt (by omega) (by omega)]
  omega

theorem past_column_iff
    (cur : Cursor) :
    79 < cur.x ↔ 79 < cur.x.toInt :=
  Int32.lt_iff_toInt_lt

theorem past_row_iff
    (cur : Cursor) :
    24 < cur.y ↔ 24 < cur.y.toInt :=
  Int32.lt_iff_toInt_lt

theorem toInt_succ
    {x : Int32}
    (hLow : 0 ≤ x.toInt)
    (hHigh : x.toInt ≤ 1000) :
    (x + 1).toInt = x.toInt + 1 :=
  toInt_add (by simp; omega) (by simp; omega)

end Cursor

theorem wrapColumn_cases
    (cur : Cursor) :
    (cur.x.toInt ≤ 79 ∧ wrapColumn cur = cur) ∨
      (79 < cur.x.toInt ∧
        wrapColumn cur = { x := 0, y := cur.y + 1 }) := by
  unfold wrapColumn
  by_cases hPast : 79 < cur.x
  · rw [if_pos hPast]
    exact Or.inr ⟨cur.past_column_iff.mp hPast, rfl⟩
  · rw [if_neg hPast]
    rw [cur.past_column_iff, Int.not_lt] at hPast
    exact Or.inl ⟨hPast, rfl⟩

theorem wrapRow_cases
    (cur : Cursor) :
    (cur.y.toInt ≤ 24 ∧ wrapRow cur = (cur, [])) ∨
      (24 < cur.y.toInt ∧
        wrapRow cur = ({ cur with y := 0 }, clearScreen)) := by
  unfold wrapRow
  by_cases hPast : 24 < cur.y
  · rw [if_pos hPast]
    exact Or.inr ⟨cur.past_row_iff.mp hPast, rfl⟩
  · rw [if_neg hPast]
    rw [cur.past_row_iff, Int.not_lt] at hPast
    exact Or.inl ⟨hPast, rfl⟩

/- The four outcomes of the tests at the start of `putc`. -/
theorem wrap_moves
    {cur : Cursor}
    (hRow : 0 ≤ cur.y.toInt ∧ cur.y.toInt ≤ 1000) :
    ((wrap cur).2 = [] ∧
      ((cur.x.toInt ≤ 79 ∧ cur.y.toInt ≤ 24 ∧
          (wrap cur).1 = cur) ∨
        (79 < cur.x.toInt ∧ cur.y.toInt ≤ 23 ∧
          (wrap cur).1.x.toInt = 0 ∧
          (wrap cur).1.y.toInt = cur.y.toInt + 1))) ∨
    ((wrap cur).2 = clearScreen ∧
      ((cur.x.toInt ≤ 79 ∧ 24 < cur.y.toInt ∧
          (wrap cur).1.x.toInt = cur.x.toInt ∧
          (wrap cur).1.y.toInt = 0) ∨
        (79 < cur.x.toInt ∧ 23 < cur.y.toInt ∧
          (wrap cur).1.x.toInt = 0 ∧
          (wrap cur).1.y.toInt = 0))) := by
  have hNextRow := Cursor.toInt_succ hRow.1 hRow.2
  unfold wrap
  rcases wrapColumn_cases cur with
    ⟨hColumn, hWrapped⟩ | ⟨hColumn, hWrapped⟩
  · rw [hWrapped]
    rcases wrapRow_cases cur with
      ⟨hPast, hResult⟩ | ⟨hPast, hResult⟩
    · rw [hResult]
      exact Or.inl ⟨rfl, Or.inl ⟨hColumn, hPast, rfl⟩⟩
    · rw [hResult]
      exact Or.inr ⟨by simp only, Or.inl
        ⟨hColumn, hPast, rfl, rfl⟩⟩
  · rw [hWrapped]
    rcases wrapRow_cases { x := 0, y := cur.y + 1 } with
      ⟨hPast, hResult⟩ | ⟨hPast, hResult⟩
    · rw [hResult]
      dsimp only at hPast
      exact Or.inl ⟨rfl, Or.inr
        ⟨hColumn, by omega, rfl, hNextRow⟩⟩
    · rw [hResult]
      dsimp only at hPast
      exact Or.inr ⟨by simp only, Or.inr
        ⟨hColumn, by omega, rfl, rfl⟩⟩

/- The two tests leave the cursor on the screen. -/
theorem wrap_onScreen
    {cur : Cursor}
    (hColumn : 0 ≤ cur.x.toInt)
    (hRow : 0 ≤ cur.y.toInt ∧ cur.y.toInt ≤ 1000) :
    (wrap cur).1.OnScreen := by
  rcases wrap_moves hRow with
    ⟨_, ⟨hx, hy, hSame⟩ | ⟨hx, hy, hZero, hNext⟩⟩ |
      ⟨_, ⟨hx, hy, hSame, hZero⟩ | ⟨hx, hy, hZero, hTop⟩⟩
  · rw [hSame]
    exact ⟨⟨hColumn, hx⟩, ⟨hRow.1, hy⟩⟩
  · constructor <;> omega
  · constructor <;> omega
  · constructor <;> omega

/- Where the `switch` takes the cursor, for each character. -/
theorem dispatch_moves
    (c : UInt8)
    {cur : Cursor}
    (hOn : cur.OnScreen) :
    (c = 13 ∧ (dispatch c cur).1.x.toInt = 0 ∧
      (dispatch c cur).1.y.toInt = cur.y.toInt) ∨
    (c = 10 ∧ (dispatch c cur).1.x.toInt = 0 ∧
      (dispatch c cur).1.y.toInt = cur.y.toInt + 1) ∨
    (c = 8 ∧
      (dispatch c cur).1.x.toInt = max 0 (cur.x.toInt - 1) ∧
      (dispatch c cur).1.y.toInt = cur.y.toInt) ∨
    (c = 9 ∧
      (dispatch c cur).1.x.toInt =
        (cur.x.toInt + 8) / 8 * 8 ∧
      (dispatch c cur).1.y.toInt = cur.y.toInt) ∨
    (¬ IsControl c ∧
      (dispatch c cur).1.x.toInt = cur.x.toInt + 1 ∧
      (dispatch c cur).1.y.toInt = cur.y.toInt) := by
  rcases hOn with ⟨hColumn, hRow⟩
  have hNextColumn := Cursor.toInt_succ hColumn.1 (by omega)
  have hNextRow := Cursor.toInt_succ hRow.1 (by omega)
  unfold dispatch
  split_ifs with hReturn hNewline hBack hLeft hTab
  · exact Or.inl ⟨hReturn, rfl, rfl⟩
  · exact Or.inr (Or.inl ⟨hNewline, rfl, hNextRow⟩)
  · have hPositive : 0 < cur.x.toInt :=
      Int32.lt_iff_toInt_lt.mp hLeft
    have hBefore : (cur.x - 1).toInt = cur.x.toInt - 1 :=
      toInt_sub (by simp; omega) (by simp; omega)
    refine Or.inr (Or.inr (Or.inl ⟨hBack, ?_, rfl⟩))
    dsimp only
    omega
  · have hFirst : ¬ 0 < cur.x.toInt :=
      fun h => hLeft (Int32.lt_iff_toInt_lt.mpr h)
    refine Or.inr (Or.inr (Or.inl ⟨hBack, ?_, rfl⟩))
    dsimp only
    omega
  · have hStop := tabulation_toInt hColumn.1 (by omega)
    exact Or.inr (Or.inr (Or.inr (Or.inl
      ⟨hTab, hStop, rfl⟩)))
  · refine Or.inr (Or.inr (Or.inr (Or.inr
      ⟨?_, hNextColumn, rfl⟩)))
    rintro (h | h | h | h) <;> contradiction

/- Every character leaves room for the next call. -/
theorem dispatch_between
    (c : UInt8)
    {cur : Cursor}
    (hOn : cur.OnScreen) :
    (dispatch c cur).1.Between := by
  have hMoves := dispatch_moves c hOn
  rcases hOn with ⟨hColumn, hRow⟩
  constructor <;> omega

theorem putc_between
    (c : UInt8)
    {cur : Cursor}
    (hBetween : cur.Between) :
    (putc c cur).1.Between := by
  have hRow := hBetween.row
  exact dispatch_between c
    (wrap_onScreen hBetween.column.1 (by omega))

------------------------------------------------------------
-- Stores
------------------------------------------------------------

namespace ConsoleOp

/- The effect stores nowhere, or inside the video memory. -/
def InVideoMemory
    (op : ConsoleOp) : Prop :=
  ∀ index, op.index? = some index →
    0 ≤ index.toInt ∧ index.toInt < 80 * 25 * 2

/- A stored character is stored in a cell of the screen. -/
def InCell
    (op : ConsoleOp) : Prop :=
  ∀ cell c, op = .glyph cell c → cell.OnScreen

end ConsoleOp

/- The indices of the two stores of an iteration. -/
theorem clearCell_toInt
    {i : Nat}
    (hCell : i < 80 * 25) :
    (Int32.ofNat i * 2).toInt = i * 2 ∧
      (Int32.ofNat i * 2 + 1).toInt = i * 2 + 1 := by
  have hCount : (Int32.ofNat i).toInt = i :=
    Int32.toInt_ofNat_of_lt (by omega)
  have hScaled :
      (Int32.ofNat i * 2).toInt = i * 2 := by
    rw [Int32.toInt_mul, hCount]
    exact bmod_of_range (by simp; omega) (by simp; omega)
  refine ⟨hScaled, ?_⟩
  rw [toInt_add (by rw [hScaled]; simp; omega)
    (by rw [hScaled]; simp; omega), hScaled]
  rfl

theorem clearScreen_mem
    {op : ConsoleOp}
    (hOp : op ∈ clearScreen) :
    ∃ index value,
      op = .blank index value ∧
      0 ≤ index.toInt ∧ index.toInt < 80 * 25 * 2 := by
  unfold clearScreen at hOp
  rw [List.mem_flatMap] at hOp
  rcases hOp with ⟨i, hi, hOp⟩
  rw [List.mem_range] at hi
  have hIndices := clearCell_toInt hi
  unfold clearCell at hOp
  rw [List.mem_cons, List.mem_singleton] at hOp
  rcases hOp with rfl | rfl
  · exact ⟨_, _, rfl, by omega, by omega⟩
  · exact ⟨_, _, rfl, by omega, by omega⟩

/- Every byte of the video memory is cleared. -/
theorem clearScreen_covers
    {index : Int32}
    (hRange : 0 ≤ index.toInt ∧ index.toInt < 80 * 25 * 2) :
    ∃ value, .blank index value ∈ clearScreen := by
  have hCell : index.toInt.toNat / 2 < 80 * 25 := by omega
  have hIndices := clearCell_toInt hCell
  have hMem (op : ConsoleOp)
      (hOp : op ∈ clearCell (index.toInt.toNat / 2)) :
      op ∈ clearScreen := by
    unfold clearScreen
    exact List.mem_flatMap.mpr
      ⟨_, List.mem_range.mpr hCell, hOp⟩
  by_cases hEven : index.toInt % 2 = 0
  · have hIndex :
        Int32.ofNat (index.toInt.toNat / 2) * 2 = index :=
      Int32.toInt_inj.mp (by omega)
    have hStore := hMem
      (.blank (Int32.ofNat (index.toInt.toNat / 2) * 2) 0x20)
      (List.mem_cons_of_mem _ List.mem_cons_self)
    rw [hIndex] at hStore
    exact ⟨_, hStore⟩
  · have hIndex :
        Int32.ofNat (index.toInt.toNat / 2) * 2 + 1 =
          index :=
      Int32.toInt_inj.mp (by omega)
    have hStore := hMem
      (.blank (Int32.ofNat (index.toInt.toNat / 2) * 2 + 1)
        0x0F)
      List.mem_cons_self
    rw [hIndex] at hStore
    exact ⟨_, hStore⟩

theorem clearScreen_ne_nil :
    clearScreen ≠ [] := by
  intro hEmpty
  have hCovers :
      ∃ value, ConsoleOp.blank 0 value ∈ clearScreen :=
    clearScreen_covers (by decide)
  simp [hEmpty] at hCovers

theorem setCursor_mem
    {cur : Cursor}
    {op : ConsoleOp}
    (hOp : op ∈ setCursor cur) :
    ∃ port value, op = .outb port value := by
  simp only [setCursor, List.mem_cons, List.not_mem_nil,
    or_false] at hOp
  rcases hOp with rfl | rfl | rfl | rfl <;>
    exact ⟨_, _, rfl⟩

theorem wrapRow_mem
    {cur : Cursor}
    {op : ConsoleOp}
    (hOp : op ∈ (wrapRow cur).2) :
    op ∈ clearScreen := by
  rcases wrapRow_cases cur with
    ⟨_, hResult⟩ | ⟨_, hResult⟩
  · rw [hResult] at hOp
    cases hOp
  · simpa only [hResult] using hOp

/- The `switch` stores an ordinary character, at the cursor. -/
theorem dispatch_mem
    {c : UInt8}
    {cur : Cursor}
    {op : ConsoleOp}
    (hOp : op ∈ (dispatch c cur).2) :
    ¬ IsControl c ∧ op = .glyph cur c := by
  unfold dispatch at hOp
  split_ifs at hOp with hReturn hNewline hBack hLeft hTab
  · cases hOp
  · cases hOp
  · cases hOp
  · cases hOp
  · cases hOp
  · refine ⟨?_, List.mem_singleton.mp hOp⟩
    rintro (h | h | h | h)
    · exact hReturn h
    · exact hNewline h
    · exact hBack h
    · exact hTab h

theorem putc_onScreen
    (c : UInt8)
    {cur : Cursor}
    (hBetween : cur.Between)
    {op : ConsoleOp}
    (hOp : op ∈ (putc c cur).2) :
    op.InVideoMemory ∧ op.InCell := by
  have hRow := hBetween.row
  have hOn : (wrap cur).1.OnScreen :=
    wrap_onScreen hBetween.column.1 (by omega)
  unfold putc at hOp
  rw [List.mem_append, List.mem_append] at hOp
  rcases hOp with (hCleared | hShown) | hPort
  · rcases clearScreen_mem (wrapRow_mem hCleared) with
      ⟨index, value, rfl, hRange⟩
    constructor
    · rintro _ ⟨⟩
      exact hRange
    · rintro _ _ ⟨⟩
  · rcases dispatch_mem hShown with ⟨_, rfl⟩
    constructor
    · rintro _ ⟨⟩
      exact hOn.index_range
    · rintro _ _ ⟨⟩
      exact hOn
  · rcases setCursor_mem hPort with ⟨port, value, rfl⟩
    constructor
    · rintro _ ⟨⟩
    · rintro _ _ ⟨⟩

/- An ordinary character is stored, once. -/
theorem putc_chars
    (c : UInt8)
    (cur : Cursor) :
    (putc c cur).2.filterMap ConsoleOp.char? =
      [c].filter fun d => ¬ IsControl d := by
  have hCleared :
      (wrap cur).2.filterMap ConsoleOp.char? = [] := by
    apply List.filterMap_eq_nil_iff.mpr
    intro op hOp
    rcases clearScreen_mem (wrapRow_mem hOp) with
      ⟨index, value, rfl, _⟩
    rfl
  have hPorts :
      (setCursor (putc c cur).1).filterMap
        ConsoleOp.char? = [] := rfl
  have hShown :
      (dispatch c (wrap cur).1).2.filterMap
          ConsoleOp.char? =
        [c].filter fun d => ¬ IsControl d := by
    unfold dispatch
    split_ifs with hReturn hNewline hBack hLeft hTab
    · subst hReturn
      rfl
    · subst hNewline
      rfl
    · subst hBack
      rfl
    · subst hBack
      rfl
    · subst hTab
      rfl
    · have hOrdinary : ¬ IsControl c := by
        rintro (h | h | h | h) <;> contradiction
      simp [hOrdinary, ConsoleOp.char?]
  change ((wrap cur).2 ++ (dispatch c (wrap cur).1).2 ++
    setCursor (putc c cur).1).filterMap _ = _
  rw [List.filterMap_append, List.filterMap_append,
    hCleared, hShown, hPorts, List.nil_append,
    List.append_nil]

/- The ordinary characters of a text are stored in order. -/
theorem puts_chars
    (text : List UInt8)
    (cur : Cursor) :
    (puts text cur).2.filterMap ConsoleOp.char? =
      text.filter fun c => ¬ IsControl c := by
  induction text generalizing cur with
  | nil => rfl
  | cons c text ih =>
      unfold puts
      dsimp only
      rw [List.filterMap_append, putc_chars, ih,
        ← List.filter_append, List.singleton_append]

/-
  Whatever is printed, from any cursor that a call of `putc`
  can leave.
-/
theorem puts_stores
    (text : List UInt8)
    {cur : Cursor}
    (hBetween : cur.Between) :
    ∀ op ∈ (puts text cur).2,
      op.InVideoMemory ∧ op.InCell := by
  induction text generalizing cur with
  | nil => exact fun op hOp => by cases hOp
  | cons c text ih =>
      intro op hOp
      unfold puts at hOp
      rcases List.mem_append.mp hOp with hFirst | hOthers
      · exact putc_onScreen c hBetween hFirst
      · exact ih (putc_between c hBetween) op hOthers

/-
  In a sequence of calls of `putc` from the home position
  every store is inside the video memory.  The ordinary
  characters, all of them and in their order, are stored in
  cells of the screen.
-/
theorem puts_onScreen
    (text : List UInt8) :
    (∀ op ∈ (puts text .home).2,
      (∀ index, op.index? = some index →
        0 ≤ index.toInt ∧ index.toInt < 80 * 25 * 2) ∧
      (∀ cell c, op = .glyph cell c →
        (0 ≤ cell.x.toInt ∧ cell.x.toInt ≤ 79) ∧
        (0 ≤ cell.y.toInt ∧ cell.y.toInt ≤ 24))) ∧
    (puts text .home).2.filterMap ConsoleOp.char? =
      text.filter fun c => ¬ IsControl c := by
  refine ⟨fun op hOp => ?_, puts_chars text .home⟩
  rcases puts_stores text Cursor.between_home op hOp with
    ⟨hRange, hCell⟩
  refine ⟨hRange, ?_⟩
  intro cell c hGlyph
  have hOn := hCell cell c hGlyph
  exact ⟨hOn.column, hOn.row⟩

/- Tabulations and letters to the right margin, and beyond. -/
def marginText : List UInt8 :=
  List.replicate 9 9 ++ List.replicate 8 65 ++
    [66, 8, 67, 10, 68]

theorem puts_onScreen_margin :
    (∀ op ∈ (puts marginText .home).2,
      (∀ index, op.index? = some index →
        0 ≤ index.toInt ∧ index.toInt < 80 * 25 * 2) ∧
      (∀ cell c, op = .glyph cell c →
        (0 ≤ cell.x.toInt ∧ cell.x.toInt ≤ 79) ∧
        (0 ≤ cell.y.toInt ∧ cell.y.toInt ≤ 24))) ∧
    (puts marginText .home).2.filterMap ConsoleOp.char? =
      List.replicate 8 65 ++ [66, 67, 68] := by
  rcases puts_onScreen marginText with ⟨hStores, hChars⟩
  exact ⟨hStores, hChars.trans (by decide)⟩

end AsaKernel
