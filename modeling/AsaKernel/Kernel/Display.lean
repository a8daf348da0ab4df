import AsaKernel.Foundations.Stores
import AsaKernel.Kernel.Console

/-
  What the console shows (my-kernel-asa: main.c).

  The effects of `putc` are applied to the video memory and to
  the registers of the video controller, of which port 0x3D4
  selects one and port 0x3D5 sets the selected one.

  A text of ordinary characters fills one page of cells after
  the other: the line is broken by the call that follows the
  last column, and the page is cleared by the call that
  follows the last cell.

  Main declarations:
    * `Display`, `Display.putc`, `Display.puts`
    * `Page`, `Display.Shows`
    * `Display.putc_shows`
    * `Display.paged_output`
-/

------------------------------------------------------------
-- Display
------------------------------------------------------------

namespace AsaKernel

open FixedWidth

/- The store that an effect is, as an index and a value. -/
def ConsoleOp.store? : ConsoleOp → Option (Int32 × UInt8)
| .blank index value => some (index, value)
| .glyph cell c => some (cell.index, c)
| .outb _ _ => none

/-
  The cursor of the console, `video_memory`, and the registers
  of the video controller with the selected one.
-/
structure Display where
  cursor : Cursor
  memory : Int32 → UInt8
  selected : UInt8
  registers : UInt8 → UInt8

namespace Display

/- One effect of the console. -/
def perform
    (s : Display) : ConsoleOp → Display
| .blank index value =>
    { s with memory := Function.update s.memory index value }
| .glyph cell c =>
    { s with memory := Function.update s.memory cell.index c }
| .outb port value =>
    if port = 0x3D4 then { s with selected := value }
    else if port = 0x3D5 then
      { s with
        registers :=
          Function.update s.registers s.selected value }
    else s

/- A call of `putc`, with its effects. -/
def putc
    (c : UInt8)
    (s : Display) : Display :=
  let call := AsaKernel.putc c s.cursor
  call.2.foldl perform { s with cursor := call.1 }

/- The calls of `putc` for the characters of a text. -/
def puts
    (text : List UInt8)
    (s : Display) : Display :=
  text.foldl (fun s c => s.putc c) s

theorem puts_append
    (first second : List UInt8)
    (s : Display) :
    puts (first ++ second) s = puts second (puts first s) :=
  List.foldl_append

/- The character of a cell. -/
def character
    (s : Display)
    (i : Nat) : UInt8 :=
  s.memory (Int32.ofNat i * 2)

/- The attribute byte of a cell. -/
def color
    (s : Display)
    (i : Nat) : UInt8 :=
  s.memory (Int32.ofNat i * 2 + 1)

theorem cursor_performs
    (ops : List ConsoleOp)
    (s : Display) :
    (ops.foldl perform s).cursor = s.cursor := by
  induction ops generalizing s with
  | nil => rfl
  | cons op ops ih =>
      rw [List.foldl_cons, ih]
      cases op with
      | blank index value => rfl
      | glyph cell c => rfl
      | outb port value =>
          simp only [perform]
          split_ifs <;> rfl

/- Of the effects, the memory keeps the stores. -/
theorem memory_performs
    (ops : List ConsoleOp)
    (s : Display) :
    (ops.foldl perform s).memory =
      Stores.play (ops.filterMap ConsoleOp.store?)
        s.memory := by
  induction ops generalizing s with
  | nil => rfl
  | cons op ops ih =>
      rw [List.foldl_cons, ih]
      cases op with
      | blank index value => rfl
      | glyph cell c => rfl
      | outb port value =>
          simp only [perform]
          split_ifs <;> rfl

@[simp] theorem cursor_putc
    (c : UInt8)
    (s : Display) :
    (s.putc c).cursor = (AsaKernel.putc c s.cursor).1 :=
  cursor_performs _ _

end Display

theorem setCursor_stores
    (cur : Cursor) :
    (setCursor cur).filterMap ConsoleOp.store? = [] := rfl

/- The stores of the clear, cell by cell. -/
theorem mem_clearScreen_stores
    {store : Int32 × UInt8} :
    store ∈ clearScreen.filterMap ConsoleOp.store? ↔
      ∃ j < 80 * 25,
        store = (Int32.ofNat j * 2 + 1, 0x0F) ∨
          store = (Int32.ofNat j * 2, 0x20) := by
  have hCellStores (j : Nat) :
      (clearCell j).filterMap ConsoleOp.store? =
        [(Int32.ofNat j * 2 + 1, 0x0F),
          (Int32.ofNat j * 2, 0x20)] := rfl
  unfold clearScreen
  simp only [List.filterMap_flatMap, List.mem_flatMap,
    List.mem_range, hCellStores, List.mem_cons,
    List.not_mem_nil, or_false]

/- The clear sets every cell, whatever was there. -/
theorem clearScreen_play
    (memory : Int32 → UInt8)
    {i : Nat}
    (hCell : i < 80 * 25) :
    let cleared :=
      Stores.play (clearScreen.filterMap ConsoleOp.store?)
        memory
    cleared (Int32.ofNat i * 2) = 0x20 ∧
      cleared (Int32.ofNat i * 2 + 1) = 0x0F := by
  have hHere := clearCell_toInt hCell
  constructor
  · apply Stores.play_of_agree
    · exact ⟨(Int32.ofNat i * 2, 0x20),
        mem_clearScreen_stores.mpr
          ⟨i, hCell, Or.inr rfl⟩, rfl⟩
    · intro store hStore hSame
      rcases mem_clearScreen_stores.mp hStore with
        ⟨j, hj, rfl | rfl⟩
      · have hThere := clearCell_toInt hj
        dsimp only at hSame
        rw [hSame] at hThere
        omega
      · rfl
  · apply Stores.play_of_agree
    · exact ⟨(Int32.ofNat i * 2 + 1, 0x0F),
        mem_clearScreen_stores.mpr
          ⟨i, hCell, Or.inl rfl⟩, rfl⟩
    · intro store hStore hSame
      rcases mem_clearScreen_stores.mp hStore with
        ⟨j, hj, rfl | rfl⟩
      · rfl
      · have hThere := clearCell_toInt hj
        dsimp only at hSame
        rw [hSame] at hThere
        omega

------------------------------------------------------------
-- Pages
------------------------------------------------------------

/- The characters on the screen, from the first cell on. -/
structure Page where
  characters : List UInt8
  fits : characters.length ≤ 80 * 25

namespace Page

def blank : Page where
  characters := []
  fits := Nat.zero_le _

/- One more character, on a new page if this one is full. -/
def type
    (page : Page)
    (c : UInt8) : Page :=
  if hRoom : page.characters.length < 80 * 25 then
    { characters := page.characters ++ [c]
      fits := by
        rw [List.length_append, List.length_singleton]
        exact hRoom }
  else
    { characters := [c]
      fits := by rw [List.length_singleton]; decide }

theorem type_of_room
    {page : Page}
    (c : UInt8)
    (hRoom : page.characters.length < 80 * 25) :
    (page.type c).characters = page.characters ++ [c] := by
  unfold type
  rw [dif_pos hRoom]

theorem type_of_full
    {page : Page}
    (c : UInt8)
    (hFull : ¬ page.characters.length < 80 * 25) :
    (page.type c).characters = [c] := by
  unfold type
  rw [dif_neg hFull]

/- The last page of a text is what fills it, or the rest. -/
theorem type_text
    (text : List UInt8) :
    (text.foldl type blank).characters =
      text.drop
        (text.length - ((text.length - 1) % 2000 + 1)) := by
  induction text using List.reverseRecOn with
  | nil => rfl
  | append_singleton text c ih =>
      have hLength := congrArg List.length ih
      rw [List.length_drop] at hLength
      rw [List.foldl_append, List.foldl_cons,
        List.foldl_nil, List.length_append,
        List.length_singleton, Nat.add_sub_cancel]
      by_cases hRoom :
          (text.foldl type blank).characters.length < 80 * 25
      · rw [type_of_room c hRoom, ih]
        have hStart :
            text.length + 1 - (text.length % 2000 + 1) =
              text.length -
                ((text.length - 1) % 2000 + 1) := by
          omega
        rw [hStart, List.drop_append_of_le_length (by omega)]
      · rw [type_of_full c hRoom]
        have hStart :
            text.length + 1 - (text.length % 2000 + 1) =
              text.length := by
          omega
        rw [hStart, List.drop_left]

end Page

/- The screen shows a page, in white on black. -/
structure Display.Shows
    (s : Display)
    (page : List UInt8) : Prop where
  characters :
    ∀ i < 80 * 25, s.character i = page[i]?.getD 0x20
  colors : ∀ i < 80 * 25, s.color i = 0x0F

/-
  The cursor stands where the last of some characters left
  it; the end of a line is not the start of the next one.
-/
structure Cursor.After
    (cur : Cursor)
    (count : Nat) : Prop where
  column : 0 ≤ cur.x.toInt ∧ cur.x.toInt ≤ 80
  row : 0 ≤ cur.y.toInt
  total : 80 * cur.y.toInt + cur.x.toInt = count
  started : count ≠ 0 → 0 < cur.x.toInt

/- Where the next character is stored, and what it clears. -/
theorem Cursor.After.wrap
    {cur : Cursor}
    {count : Nat}
    (hAfter : cur.After count)
    (hFits : count ≤ 80 * 25) :
    (wrap cur).1.OnScreen ∧
      ((count < 80 * 25 ∧ (AsaKernel.wrap cur).2 = [] ∧
          80 * (AsaKernel.wrap cur).1.y.toInt +
            (AsaKernel.wrap cur).1.x.toInt = count) ∨
        (count = 80 * 25 ∧
          (AsaKernel.wrap cur).2 = clearScreen ∧
          80 * (AsaKernel.wrap cur).1.y.toInt +
            (AsaKernel.wrap cur).1.x.toInt = 0)) := by
  rcases hAfter with ⟨hColumn, hRow, hTotal, hStarted⟩
  have hRows : 0 ≤ cur.y.toInt ∧ cur.y.toInt ≤ 1000 := by
    omega
  refine ⟨wrap_onScreen hColumn.1 hRows, ?_⟩
  rcases wrap_moves hRows with
    ⟨hOps, ⟨hx, hy, hSame⟩ | ⟨hx, hy, hZero, hNext⟩⟩ |
      ⟨hOps, ⟨hx, hy, hSame, hZero⟩ | ⟨hx, hy, hZero, hTop⟩⟩
  · rw [hSame]
    exact Or.inl ⟨by omega, hOps, hTotal⟩
  · exact Or.inl ⟨by omega, hOps, by omega⟩
  · have hFirst := hStarted (by omega)
    omega
  · exact Or.inr ⟨by omega, hOps, by omega⟩

/- An ordinary character is stored in the next cell. -/
theorem dispatch_ordinary
    {c : UInt8}
    (cur : Cursor)
    (hOrdinary : ¬ IsControl c) :
    (dispatch c cur).2 = [.glyph cur c] := by
  unfold dispatch
  rw [if_neg fun h => hOrdinary (Or.inl h),
    if_neg fun h => hOrdinary (Or.inr (Or.inl h)),
    if_neg fun h => hOrdinary (Or.inr (Or.inr (Or.inl h))),
    if_neg fun h => hOrdinary (Or.inr (Or.inr (Or.inr h)))]

theorem dispatch_ordinary_moves
    {c : UInt8}
    {cur : Cursor}
    (hOn : cur.OnScreen)
    (hOrdinary : ¬ IsControl c) :
    (dispatch c cur).1.x.toInt = cur.x.toInt + 1 ∧
      (dispatch c cur).1.y.toInt = cur.y.toInt := by
  rcases dispatch_moves c hOn with
    ⟨h, _⟩ | ⟨h, _⟩ | ⟨h, _⟩ | ⟨h, _⟩ | ⟨_, hMoves⟩
  · exact absurd (Or.inl h) hOrdinary
  · exact absurd (Or.inr (Or.inl h)) hOrdinary
  · exact absurd (Or.inr (Or.inr (Or.inl h))) hOrdinary
  · exact absurd (Or.inr (Or.inr (Or.inr h))) hOrdinary
  · exact hMoves

namespace Display

variable {s : Display}

/- What an ordinary character does to the video memory. -/
theorem memory_putc
    {c : UInt8}
    (s : Display)
    (hOrdinary : ¬ IsControl c) :
    (s.putc c).memory =
      Function.update
        (Stores.play
          ((wrap s.cursor).2.filterMap ConsoleOp.store?)
          s.memory)
        (wrap s.cursor).1.index c := by
  unfold putc AsaKernel.putc
  rw [memory_performs]
  dsimp only
  rw [dispatch_ordinary _ hOrdinary,
    List.filterMap_append, List.filterMap_append,
    setCursor_stores, List.append_nil, Stores.play_append]
  rfl

/- The clear leaves an empty page. -/
theorem cleared_shows
    (s : Display) :
    Shows
      { s with
        memory :=
          Stores.play
            (clearScreen.filterMap ConsoleOp.store?)
            s.memory } [] := by
  constructor
  · intro i hi
    exact (clearScreen_play s.memory hi).1
  · intro i hi
    exact (clearScreen_play s.memory hi).2

/- The page goes on in its next cell. -/
theorem Shows.extend
    {page : List UInt8}
    {cell : Int32}
    (hShows : s.Shows page)
    (c : UInt8)
    (hCell : cell.toInt = page.length * 2)
    {s' : Display}
    (hMemory : s'.memory = Function.update s.memory cell c) :
    s'.Shows (page ++ [c]) := by
  rcases hShows with ⟨hCharacters, hColors⟩
  constructor
  · intro i hi
    have hHere := clearCell_toInt hi
    unfold character
    rw [hMemory]
    by_cases hLast : i = page.length
    · have hSame : Int32.ofNat i * 2 = cell :=
        Int32.toInt_inj.mp (by omega)
      rw [hSame, Function.update_self, hLast]
      simp
    · have hOther : Int32.ofNat i * 2 ≠ cell := by
        intro hSame
        rw [hSame] at hHere
        omega
      have hPage : (page ++ [c])[i]? = page[i]? := by
        by_cases hBefore : i < page.length
        · exact List.getElem?_append_left hBefore
        · rw [List.getElem?_eq_none (by simp; omega),
            List.getElem?_eq_none (by omega)]
      rw [Function.update_of_ne hOther, hPage]
      exact hCharacters i hi
  · intro i hi
    have hHere := clearCell_toInt hi
    have hOther : Int32.ofNat i * 2 + 1 ≠ cell := by
      intro hSame
      rw [hSame] at hHere
      omega
    unfold color
    rw [hMemory, Function.update_of_ne hOther]
    exact hColors i hi

/- A call stores the character on the page. -/
theorem putc_shows
    {c : UInt8}
    {page : Page}
    (hOrdinary : ¬ IsControl c)
    (hShows : s.Shows page.characters)
    (hAfter : s.cursor.After page.characters.length) :
    (s.putc c).Shows (page.type c).characters ∧
      (s.putc c).cursor.After
        (page.type c).characters.length := by
  have hMemory := s.memory_putc hOrdinary
  rcases hAfter.wrap page.fits with ⟨hOn, hCases⟩
  have hCell :
      (wrap s.cursor).1.index.toInt =
        (80 * (wrap s.cursor).1.y.toInt +
          (wrap s.cursor).1.x.toInt) * 2 := by
    rcases hOn with ⟨hColumn, hRow⟩
    rw [Cursor.index_toInt (by omega) (by omega)]
    omega
  have hMoves :
      (s.putc c).cursor.x.toInt =
          (wrap s.cursor).1.x.toInt + 1 ∧
        (s.putc c).cursor.y.toInt =
          (wrap s.cursor).1.y.toInt := by
    rw [cursor_putc]
    exact dispatch_ordinary_moves hOn hOrdinary
  have hNext
      (hTotal :
        80 * (wrap s.cursor).1.y.toInt +
            (wrap s.cursor).1.x.toInt + 1 =
          (page.type c).characters.length) :
      (s.putc c).cursor.After
        (page.type c).characters.length := by
    rcases hOn with ⟨hColumn, hRow⟩
    constructor <;> omega
  rcases hCases with
    ⟨hRoom, hOps, hTotal⟩ | ⟨hFull, hOps, hTotal⟩
  · have hTyped := Page.type_of_room c hRoom
    rw [hOps, List.filterMap_nil, Stores.play_nil]
      at hMemory
    refine ⟨?_, hNext (by rw [hTyped]; simp; omega)⟩
    rw [hTyped]
    exact hShows.extend c (by omega) hMemory
  · have hNoRoom : ¬ page.characters.length < 80 * 25 := by
      omega
    have hTyped := Page.type_of_full c hNoRoom
    rw [hOps] at hMemory
    refine ⟨?_, hNext (by rw [hTyped]; simp; omega)⟩
    rw [hTyped]
    exact s.cleared_shows.extend c (by simp; omega) hMemory

/- A text is shown by its last page. -/
theorem puts_shows
    {text : List UInt8}
    {page : Page}
    (hOrdinary : ∀ c ∈ text, ¬ IsControl c)
    (hShows : s.Shows page.characters)
    (hAfter : s.cursor.After page.characters.length) :
    (s.puts text).Shows
      (text.foldl Page.type page).characters := by
  induction text generalizing s page with
  | nil => exact hShows
  | cons c text ih =>
      rcases putc_shows
          (hOrdinary c List.mem_cons_self) hShows hAfter with
        ⟨hTyped, hNext⟩
      exact ih
        (fun d hd => hOrdinary d (List.mem_cons_of_mem c hd))
        hTyped hNext

/-
  From a cleared screen with the cursor at home, a text of
  ordinary characters leaves its last `r` characters in the
  first cells and spaces in the others, where `r` is what the
  full pages before leave over, from 1 to 2000.
-/
theorem paged_output
    (text : List UInt8)
    (s : Display)
    (hText : text ≠ [])
    (hOrdinary : ∀ c ∈ text, ¬ IsControl c)
    (hCleared : s.Shows [])
    (hHome : s.cursor = .home) :
    let r := (text.length - 1) % 2000 + 1
    (∀ i < r,
      text[text.length - r + i]? =
        some ((s.puts text).character i)) ∧
    (∀ i, r ≤ i → i < 80 * 25 →
      (s.puts text).character i = 0x20) ∧
    ∀ i < 80 * 25, (s.puts text).color i = 0x0F := by
  intro r
  have hLength : 0 < text.length :=
    List.length_pos_of_ne_nil hText
  have hAfter : s.cursor.After 0 := by
    rw [hHome]
    constructor
    · decide
    · decide
    · rfl
    · exact fun h => absurd rfl h
  have hShows : (s.puts text).Shows
      (text.drop (text.length - r)) := by
    have hBlank : s.Shows Page.blank.characters := hCleared
    have hPage := puts_shows hOrdinary hBlank hAfter
    rwa [Page.type_text] at hPage
  refine ⟨?_, ?_, hShows.colors⟩
  · intro i hi
    have hHere := hShows.characters i (by omega)
    have hInside : text.length - r + i < text.length := by
      omega
    rw [List.getElem?_drop,
      List.getElem?_eq_getElem hInside,
      Option.getD_some] at hHere
    rw [hHere, List.getElem?_eq_getElem hInside]
  · intro i hi hCell
    have hHere := hShows.characters i hCell
    rwa [List.getElem?_drop,
      List.getElem?_eq_none (by omega),
      Option.getD_none] at hHere

/- A page of letters, a row of others, and two more cells. -/
def pagedText : List UInt8 :=
  List.replicate (80 * 25) 65 ++
    (List.replicate 81 66 ++ [67])

/-
  On the screen that `main` clears: the first page is gone,
  and the second one goes past the end of its first row.
-/
theorem paged_output_pages :
    let s : Display :=
      { cursor := .home
        memory :=
          Stores.play
            (clearScreen.filterMap ConsoleOp.store?)
            fun _ => 0
        selected := 0
        registers := fun _ => 0 }
    (s.puts pagedText).character 0 = 66 ∧
      (s.puts pagedText).character 80 = 66 ∧
      (s.puts pagedText).character 81 = 67 ∧
      (s.puts pagedText).character 82 = 0x20 := by
  intro s
  have hCleared : s.Shows [] :=
    cleared_shows
      { cursor := .home
        memory := fun _ => 0
        selected := 0
        registers := fun _ => 0 }
  have hOrdinary : ∀ c ∈ pagedText, ¬ IsControl c := by
    intro c hc
    simp only [pagedText, List.mem_append,
      List.mem_replicate, List.mem_singleton] at hc
    rcases hc with ⟨_, rfl⟩ | ⟨_, rfl⟩ | rfl <;> decide
  have hLength : pagedText.length = 2082 := by
    rw [pagedText, List.length_append, List.length_append,
      List.length_replicate, List.length_replicate,
      List.length_singleton]
  have hNonempty : pagedText ≠ [] := by
    intro hNil
    rw [hNil] at hLength
    cases hLength
  have hShown :=
    paged_output pagedText s hNonempty hOrdinary hCleared rfl
  simp only [hLength] at hShown
  rcases hShown with ⟨hPage, hRest, _⟩
  have hSecond (i : Nat) :
      pagedText[2000 + i]? =
        (List.replicate 81 66 ++ [67])[i]? := by
    have hFirst :
        (List.replicate (80 * 25) (65 : UInt8)).length ≤
          2000 + i := by
      rw [List.length_replicate]
      omega
    rw [pagedText, List.getElem?_append_right hFirst,
      List.length_replicate, Nat.add_sub_cancel_left]
  refine ⟨?_, ?_, ?_, hRest 82 (by decide) (by decide)⟩
  · have hFirst := (hSecond 0).symm.trans
      (hPage 0 (by decide))
    exact (Option.some.inj hFirst).symm
  · have hNext := (hSecond 80).symm.trans
      (hPage 80 (by decide))
    exact (Option.some.inj hNext).symm
  · have hEnd := (hSecond 81).symm.trans
      (hPage 81 (by decide))
    exact (Option.some.inj hEnd).symm

end Display

end AsaKernel
