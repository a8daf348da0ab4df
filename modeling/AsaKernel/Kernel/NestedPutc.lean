import AsaKernel.Kernel.Statements

/-
  Keyboard interrupts inside an interrupted `putc`
  (my-kernel-asa: main.c, `timer_irq` and `keyboard_irq`).

  The interrupted code prints a text one statement at a time.
  Between any two of its statements a keyboard interrupt may
  run a whole `putc`: its handler runs with the interrupts
  disabled.  The log keeps every effect with its writer, and
  where a carriage return or a backspace moved the cursor: a
  cell that the cursor was taken back over is free again.

  Main declarations:
    * `Screen`, `Screen.step`
    * `Screen.run_putc`
    * `Fine`, `effects`
    * `Harmless`
    * `nested_putc_fine`
-/

------------------------------------------------------------
-- Interleaved Calls
------------------------------------------------------------

namespace AsaKernel

open FixedWidth
open Transition

/- Who prints a character. -/
inductive Writer where
  | text
  | keyboard
deriving DecidableEq, Repr

/-
  What the log keeps: an effect with its writer, or where a
  carriage return or a backspace moved the cursor.
-/
inductive LogEntry where
  | effect (writer : Writer) (op : ConsoleOp)
  | takenBack (before after : Cursor)
deriving DecidableEq, Repr

/-
  The cursor, the call of `putc` that is under way in the
  interrupted code, and the log so far.
-/
structure Screen where
  cursor : Cursor
  pending : Option (UInt8 × Point)
  log : List LogEntry
deriving DecidableEq, Repr

/-
  The interrupted code calls `putc`, it performs one statement
  of that call, or a keyboard interrupt runs a whole `putc`.
-/
inductive ScreenEvent where
  | print (c : UInt8)
  | advance
  | key (c : UInt8)
deriving DecidableEq, Repr

/- The entry of a whole call of `putc(c)`. -/
def takesBack
    (c : UInt8)
    (before after : Cursor) : List LogEntry :=
  if c = 13 ∨ c = 8 then [.takenBack before after] else []

/- The entry of one statement of `putc`. -/
def Point.takesBack
    (before after : Cursor) : Point → List LogEntry
| .returnColumn | .back => [.takenBack before after]
| _ => []

/- The effects of a log alone. -/
def effects
    (log : List LogEntry) : List LogEntry :=
  log.filter fun entry =>
    match entry with
    | .effect _ _ => true
    | .takenBack _ _ => false

@[simp] theorem effects_append
    (before after : List LogEntry) :
    effects (before ++ after) =
      effects before ++ effects after :=
  List.filter_append before after

@[simp] theorem effects_map
    (writer : Writer)
    (ops : List ConsoleOp) :
    effects (ops.map (.effect writer)) =
      ops.map (.effect writer) := by
  simp [effects]

@[simp] theorem Point.effects_takesBack
    (before after : Cursor)
    (point : Point) :
    effects (point.takesBack before after) = [] := by
  cases point <;> rfl

namespace Screen

def start : Screen where
  cursor := .home
  pending := none
  log := []

/- The interrupted code performs a statement of `putc(c)`. -/
def perform
    (s : Screen)
    (c : UInt8)
    (point : Point) : Screen :=
  let done := statement c s.cursor point
  { cursor := done.1
    pending := done.2.2.map (Prod.mk c)
    log := s.log ++
      (done.2.1.map (.effect .text) ++
        point.takesBack s.cursor done.1) }

def step
    (s : Screen) : ScreenEvent → Option Screen
| .print c =>
    match s.pending with
    | none => some { s with pending := some (c, .testColumn) }
    | some _ => none
| .advance =>
    match s.pending with
    | none => none
    | some (c, point) => some (s.perform c point)
| .key c =>
    let done := putc c s.cursor
    some
      { s with
        cursor := done.1
        log := s.log ++
          (done.2.map (.effect .keyboard) ++
            takesBack c (wrap s.cursor).1 done.1) }

/- Enough statements perform the rest of the pending call. -/
theorem run_finish
    (n : Nat)
    (s : Screen)
    {c : UInt8}
    {point : Point}
    (hPending : s.pending = some (c, point))
    (hSize : point.size ≤ n) :
    ∃ k t,
      run step s (List.replicate k .advance) = some t ∧
      t.cursor = (finish c s.cursor point).1 ∧
      t.pending = none ∧
      effects t.log = effects s.log ++
        (finish c s.cursor point).2.map (.effect .text) := by
  induction n generalizing s point with
  | zero =>
      have hPositive : 0 < point.size := by
        cases point <;> simp [Point.size]
      omega
  | succ n ih =>
      have hFinish := statement_finish c s.cursor point
      cases hNext : (statement c s.cursor point).2.2 with
      | none =>
          rw [hNext] at hFinish
          refine ⟨1, s.perform c point, ?_, ?_, ?_, ?_⟩
          · rw [List.replicate_one, run_cons]
            simp [step, hPending]
          · simp [perform, hFinish]
          · simp [perform, hNext]
          · simp [perform, hFinish]
      | some next =>
          rw [hNext] at hFinish
          have hSmaller := statement_size hNext
          have hUnder :
              (s.perform c point).pending =
                some (c, next) := by
            simp [perform, hNext]
          rcases ih (s.perform c point) hUnder
              (by omega) with
            ⟨k, t, hRun, hCursor, hIdle, hEffects⟩
          refine ⟨k + 1, t, ?_, ?_, hIdle, ?_⟩
          · rw [List.replicate_succ, run_cons]
            simp [step, hPending, hRun]
          · simp [hCursor, hFinish, perform]
          · simp [hEffects, hFinish, perform]

/- A call that nothing interrupts is the function `putc`. -/
theorem run_putc
    (s : Screen)
    (c : UInt8)
    (hIdle : s.pending = none) :
    ∃ k t,
      run step s (.print c :: List.replicate k .advance) =
        some t ∧
      t.cursor = (putc c s.cursor).1 ∧
      t.pending = none ∧
      effects t.log = effects s.log ++
        (putc c s.cursor).2.map (.effect .text) := by
  rcases run_finish (Point.size .testColumn)
      { s with pending := some (c, .testColumn) } rfl
      (Nat.le_refl _) with
    ⟨k, t, hRun, hDone⟩
  rw [finish_testColumn] at hDone
  refine ⟨k, t, ?_, hDone⟩
  rw [run_cons]
  simp [step, hIdle, hRun]

end Screen

------------------------------------------------------------
-- Standing Characters
------------------------------------------------------------

/- The index of the cell at the cursor, as a number. -/
def Cursor.position
    (cur : Cursor) : Int :=
  (cur.x.toInt + 80 * cur.y.toInt) * 2

/- Who stored the character at each index, after an entry. -/
def note
    (held : Int32 → Option Writer) :
    LogEntry → Int32 → Option Writer
| .effect _ (.blank index _) =>
    Function.update held index none
| .effect writer (.glyph cell _) =>
    Function.update held cell.index (some writer)
| .effect _ (.outb _ _) => held
| .takenBack before after => fun index =>
    if after.position ≤ index.toInt ∧
        index.toInt < before.position then none
    else held index

/-
  An effect stores inside the video memory, and a character
  not over a standing one of the other writer.
-/
def Acceptable
    (held : Int32 → Option Writer) : LogEntry → Prop
| .effect writer op =>
    op.InVideoMemory ∧
      ∀ cell c, op = .glyph cell c →
        ∀ owner, held cell.index = some owner →
          owner = writer
| .takenBack _ _ => True

/- Every entry is acceptable when it happens. -/
def FineFrom
    (held : Int32 → Option Writer) : List LogEntry → Prop
| [] => True
| entry :: log =>
    Acceptable held entry ∧ FineFrom (note held entry) log

/-
  Every entry of a log, from an empty screen.  `effects` of a
  log leaves out what takes the cursor back: there a character
  stands until the screen is cleared.
-/
def Fine
    (log : List LogEntry) : Prop :=
  FineFrom (fun _ => none) log

/- Who stored the character at each index, after a log. -/
def holders
    (log : List LogEntry) : Int32 → Option Writer :=
  log.foldl note (fun _ => none)

/- Every effect of a fine log stores inside. -/
theorem fineFrom_mem
    {held : Int32 → Option Writer}
    {log : List LogEntry}
    (hFine : FineFrom held log)
    {writer : Writer}
    {op : ConsoleOp}
    (hEffect : .effect writer op ∈ log) :
    op.InVideoMemory := by
  induction log generalizing held with
  | nil => cases hEffect
  | cons first log ih =>
      rcases List.mem_cons.mp hEffect with rfl | hEffect
      · exact hFine.1.1
      · exact ih hFine.2 hEffect

theorem fineFrom_append
    {held : Int32 → Option Writer}
    {before after : List LogEntry} :
    FineFrom held (before ++ after) ↔
      FineFrom held before ∧
        FineFrom (before.foldl note held) after := by
  induction before generalizing held with
  | nil => simp [FineFrom]
  | cons entry before ih =>
      simp [FineFrom, ih, and_assoc]

------------------------------------------------------------
-- Bounds on the Standing Characters
------------------------------------------------------------

/-
  The standing characters are on the screen and before a
  bound, except for those that remain to be cleared.
-/
def Behind
    (held : Int32 → Option Writer)
    (bound : Int)
    (rest : List ConsoleOp) : Prop :=
  ∀ index owner, held index = some owner →
    (0 ≤ index.toInt ∧ index.toInt < 80 * 25 * 2) ∧
      (index.toInt < bound ∨
        ∃ value, .blank index value ∈ rest)

/- The entries are acceptable and keep a bound. -/
def Leaves
    (held : Int32 → Option Writer)
    (entries : List LogEntry)
    (bound : Int)
    (rest : List ConsoleOp) : Prop :=
  FineFrom held entries ∧
    Behind (entries.foldl note held) bound rest

section Bounds

variable {held : Int32 → Option Writer}
variable {bound bound' : Int}
variable {rest : List ConsoleOp}
variable {writer : Writer}

theorem Behind.mono
    (hBehind : Behind held bound rest)
    (hBound : bound ≤ bound') :
    Behind held bound' rest := by
  intro index owner hHeld
  rcases hBehind index owner hHeld with
    ⟨hRange, hBefore | hPending⟩
  · exact ⟨hRange, Or.inl (by omega)⟩
  · exact ⟨hRange, Or.inr hPending⟩

/- `clear_screen` will clear every standing character. -/
theorem Behind.clearing
    (hBehind : Behind held bound rest) :
    Behind held bound' AsaKernel.clearScreen := by
  intro index owner hHeld
  have hRange := (hBehind index owner hHeld).1
  exact ⟨hRange, Or.inr (clearScreen_covers hRange)⟩

theorem Leaves.nil
    (hBehind : Behind held bound rest) :
    Leaves held [] bound rest :=
  ⟨trivial, hBehind⟩

theorem Leaves.append
    {before after : List LogEntry}
    (hBefore : FineFrom held before)
    (hAfter :
      Leaves (before.foldl note held) after bound rest) :
    Leaves held (before ++ after) bound rest := by
  unfold Leaves
  rw [fineFrom_append, List.foldl_append]
  exact ⟨⟨hBefore, hAfter.1⟩, hAfter.2⟩

/- No character stands where the cursor was taken back. -/
theorem Leaves.takenBack
    {before after : Cursor}
    (hBehind : Behind held before.position rest) :
    Leaves held [.takenBack before after] after.position
      rest := by
  refine ⟨⟨trivial, trivial⟩, ?_⟩
  intro index owner hHeld
  simp only [List.foldl_cons, List.foldl_nil, note]
    at hHeld
  split_ifs at hHeld with hOver
  rcases hBehind index owner hHeld with
    ⟨hRange, hBefore | hPending⟩
  · exact ⟨hRange, Or.inl (by omega)⟩
  · exact ⟨hRange, Or.inr hPending⟩

/- To take the cursor back adds no character. -/
theorem Leaves.called
    {entries : List LogEntry}
    {c : UInt8}
    {before after : Cursor}
    (hLeaves : Leaves held entries bound rest) :
    Leaves held (entries ++ takesBack c before after) bound
      rest := by
  refine Leaves.append hLeaves.1 ?_
  unfold takesBack
  split_ifs
  · refine ⟨⟨trivial, trivial⟩, ?_⟩
    intro index owner hHeld
    simp only [List.foldl_cons, List.foldl_nil, note]
      at hHeld
    split_ifs at hHeld
    exact hLeaves.2 index owner hHeld
  · exact Leaves.nil hLeaves.2

/- A cell that `clear_screen` blanks remains no longer. -/
theorem Leaves.blank
    {index : Int32}
    {value : UInt8}
    (hRange : 0 ≤ index.toInt ∧ index.toInt < 80 * 25 * 2)
    (hBehind :
      Behind held bound (.blank index value :: rest)) :
    Leaves held [.effect writer (.blank index value)] bound
      rest := by
  refine ⟨⟨⟨?_, ?_⟩, trivial⟩, ?_⟩
  · rintro _ ⟨⟩
    exact hRange
  · rintro _ _ ⟨⟩
  · intro other owner hHeld
    simp only [List.foldl_cons, List.foldl_nil, note]
      at hHeld
    by_cases hSame : other = index
    · simp [hSame] at hHeld
    · rw [Function.update_of_ne hSame] at hHeld
      rcases hBehind other owner hHeld with
        ⟨hOther, hBefore | ⟨value', hPending⟩⟩
      · exact ⟨hOther, Or.inl hBefore⟩
      · refine ⟨hOther, Or.inr ⟨value', ?_⟩⟩
        simpa [hSame] using hPending

/- A character stored at the bound moves the bound past it. -/
theorem Leaves.glyph
    {cur : Cursor}
    {c : UInt8}
    (hOn : cur.OnScreen)
    (hBehind : Behind held cur.position rest)
    (hCleared : ∀ value, .blank cur.index value ∉ rest)
    (hBound : cur.position + 2 ≤ bound) :
    Leaves held [.effect writer (.glyph cur c)] bound
      rest := by
  have hIndex : cur.index.toInt = cur.position := by
    rcases hOn with ⟨hColumn, hRow⟩
    exact Cursor.index_toInt (by omega) (by omega)
  have hRange := hOn.index_range
  refine ⟨⟨⟨?_, ?_⟩, trivial⟩, ?_⟩
  · rintro _ ⟨⟩
    exact hRange
  · rintro _ _ ⟨⟩ owner hHeld
    rcases hBehind _ owner hHeld with
      ⟨_, hBefore | ⟨value, hPending⟩⟩
    · omega
    · exact absurd hPending (hCleared value)
  · intro other owner hHeld
    simp only [List.foldl_cons, List.foldl_nil, note]
      at hHeld
    by_cases hSame : other = cur.index
    · subst hSame
      exact ⟨hRange, Or.inl (by omega)⟩
    · rw [Function.update_of_ne hSame] at hHeld
      exact hBehind.mono (by omega) other owner hHeld

theorem Leaves.port
    {port : UInt16}
    {value : UInt8}
    (hBehind : Behind held bound rest) :
    Leaves held [.effect writer (.outb port value)] bound
      rest := by
  refine ⟨⟨⟨?_, ?_⟩, trivial⟩, hBehind⟩
  · rintro _ ⟨⟩
  · rintro _ _ ⟨⟩

/- Stores of `clear_screen`, with more of them to come. -/
theorem Leaves.blanks
    {ops : List ConsoleOp}
    (hOps :
      ∀ op ∈ ops, ∃ index value,
        op = .blank index value ∧
        0 ≤ index.toInt ∧ index.toInt < 80 * 25 * 2)
    (hBehind : Behind held bound (ops ++ rest)) :
    Leaves held (ops.map (.effect writer)) bound rest := by
  induction ops generalizing held with
  | nil => exact Leaves.nil hBehind
  | cons op ops ih =>
      rcases hOps op List.mem_cons_self with
        ⟨index, value, rfl, hRange⟩
      have hFirst :
          Leaves held [.effect writer (.blank index value)]
            bound (ops ++ rest) :=
        Leaves.blank hRange hBehind
      have hOthers := ih
        (fun other hOther =>
          hOps other (List.mem_cons_of_mem _ hOther))
        hFirst.2
      exact Leaves.append hFirst.1 hOthers

/- After `clear_screen` no character stands. -/
theorem Leaves.clearScreen
    (hBehind : Behind held bound' rest) :
    Leaves held (AsaKernel.clearScreen.map (.effect writer))
      bound [] := by
  refine Leaves.blanks (fun op hOp => clearScreen_mem hOp) ?_
  rw [List.append_nil]
  exact hBehind.clearing

theorem Leaves.ports
    {ops : List ConsoleOp}
    (hOps :
      ∀ op ∈ ops, ∃ port value, op = .outb port value)
    (hBehind : Behind held bound rest) :
    Leaves held (ops.map (.effect writer)) bound rest := by
  induction ops with
  | nil => exact Leaves.nil hBehind
  | cons op ops ih =>
      rcases hOps op List.mem_cons_self with
        ⟨port, value, rfl⟩
      have hFirst :
          Leaves held [.effect writer (.outb port value)]
            bound rest :=
        Leaves.port hBehind
      have hOthers := ih
        (fun other hOther =>
          hOps other (List.mem_cons_of_mem _ hOther))
      exact Leaves.append hFirst.1 hOthers

/- The characters left to clear may be counted as standing. -/
theorem Leaves.weaken
    {entries : List LogEntry}
    (hLeaves : Leaves held entries bound []) :
    Leaves held entries bound rest := by
  refine ⟨hLeaves.1, ?_⟩
  intro index owner hHeld
  rcases hLeaves.2 index owner hHeld with
    ⟨hRange, hBefore | ⟨value, hPending⟩⟩
  · exact ⟨hRange, Or.inl hBefore⟩
  · cases hPending

end Bounds

------------------------------------------------------------
-- A Whole Call
------------------------------------------------------------

/-
  What a whole call of `putc` leaves.  `bound` is what the
  standing characters satisfied before, `bound'` what they
  are to satisfy after.
-/
theorem putc_leaves
    {held : Int32 → Option Writer}
    {writer : Writer}
    {c : UInt8}
    {cur : Cursor}
    {bound bound' : Int}
    {rest : List ConsoleOp}
    (hColumn : 0 ≤ cur.x.toInt)
    (hRow : 0 ≤ cur.y.toInt ∧ cur.y.toInt ≤ 1000)
    (hBehind : Behind held bound rest)
    (hBound : (wrap cur).2 = [] → bound ≤ bound')
    (hGlyph :
      ¬ IsControl c →
        ((wrap cur).2 = [] →
          bound ≤ (wrap cur).1.position ∧
          ∀ value,
            .blank (wrap cur).1.index value ∉ rest) ∧
        (wrap cur).1.position + 2 ≤ bound') :
    Leaves held ((putc c cur).2.map (.effect writer)) bound'
      rest := by
  have hOn := wrap_onScreen hColumn hRow
  have hPorts :=
    fun op (hOp : op ∈ setCursor (putc c cur).1) =>
      setCursor_mem hOp
  have hWrap := wrap_moves hRow
  have hOps :
      (putc c cur).2 =
        (wrap cur).2 ++ (dispatch c (wrap cur).1).2 ++
          setCursor (putc c cur).1 := rfl
  rw [hOps, List.map_append, List.map_append]
  by_cases hControl : IsControl c
  · have hSilent : (dispatch c (wrap cur).1).2 = [] := by
      apply List.eq_nil_iff_forall_not_mem.mpr
      intro op hOp
      exact (dispatch_mem hOp).1 hControl
    rw [hSilent, List.map_nil, List.append_nil]
    rcases hWrap with ⟨hNone, _⟩ | ⟨hClear, _⟩
    · rw [hNone]
      exact Leaves.ports hPorts (hBehind.mono (hBound hNone))
    · rw [hClear]
      have hCleared :
          Leaves held (clearScreen.map (.effect writer))
            bound' rest :=
        (Leaves.clearScreen hBehind).weaken
      exact Leaves.append hCleared.1
        (Leaves.ports hPorts hCleared.2)
  · have hShown :
        (dispatch c (wrap cur).1).2 =
          [.glyph (wrap cur).1 c] := by
      unfold dispatch
      unfold IsControl at hControl
      grind
    rcases hGlyph hControl with ⟨hFree, hAfter⟩
    rw [hShown, List.append_assoc, List.map_singleton]
    rcases hWrap with ⟨hNone, _⟩ | ⟨hClear, _⟩
    · rw [hNone, List.map_nil, List.nil_append]
      rcases hFree hNone with ⟨hBefore, hCell⟩
      have hStored :
          Leaves held
            [.effect writer (.glyph (wrap cur).1 c)]
            bound' rest :=
        Leaves.glyph hOn (hBehind.mono hBefore) hCell hAfter
      exact Leaves.append hStored.1
        (Leaves.ports hPorts hStored.2)
    · rw [hClear]
      have hCleared :
          Leaves held (clearScreen.map (.effect writer))
            (wrap cur).1.position [] :=
        Leaves.clearScreen hBehind
      have hStored :
          Leaves _ [.effect writer (.glyph (wrap cur).1 c)]
            bound' [] :=
        Leaves.glyph hOn hCleared.2 (by simp) hAfter
      exact Leaves.append hCleared.1
        (Leaves.append hStored.1
          (Leaves.ports hPorts hStored.weaken.2))

------------------------------------------------------------
-- What a Point Relies On
------------------------------------------------------------

/- The cursor is between two columns, and not below a row. -/
def Cursor.In
    (cur : Cursor)
    (low high rows : Int) : Prop :=
  (low ≤ cur.x.toInt ∧ cur.x.toInt ≤ high) ∧
    (0 ≤ cur.y.toInt ∧ cur.y.toInt ≤ rows)

namespace Point

/- Where the cursor may be when `putc` stands at a point. -/
def Admits
    (cur : Cursor) : Point → Prop
| .nextRow => cur.In 0 79 26
| .testRow | .resetRow => cur.In 0 79 27
| .clearing _ | .select | .tabulate | .store =>
    cur.In 0 79 24
| .returnColumn | .newlineColumn | .newlineRow
| .testBack => cur.In 0 80 25
| .back => cur.In 1 80 25
| .advance => cur.In 0 79 25
| .testColumn | .resetColumn | .setCursor | .ports _ =>
    cur.In 0 80 26

/- The standing characters are before this bound. -/
def bound
    (cur : Cursor) : Point → Int
| .nextRow | .newlineRow => 160 * (cur.y.toInt + 1)
| .advance => cur.position + 2
| _ => cur.position

/- What `clear_screen` has not cleared yet. -/
def uncleared : Point → List ConsoleOp
| .clearing rest => rest
| _ => []

/- The effects that remain in a loop are those of the loop. -/
def OwnOps : Point → Prop
| .clearing rest => ∀ op ∈ rest, op ∈ clearScreen
| .ports rest =>
    ∀ op ∈ rest, ∃ port value, op = .outb port value
| _ => True

/- What holds when `putc` stands at a point. -/
structure Sound
    (point : Point)
    (cur : Cursor)
    (held : Int32 → Option Writer) : Prop where
  cursor : point.Admits cur
  behind : Behind held (point.bound cur) point.uncleared
  ops : point.OwnOps

end Point

------------------------------------------------------------
-- Harmless Steps
------------------------------------------------------------

section Keys

variable (key : UInt8)
variable (cur : Cursor)

/- The key does not take the cursor past the last column. -/
def KeepsColumn : Prop :=
  (key = 9 → cur.x.toInt < 72) ∧
    (¬ IsControl key → cur.x.toInt < 79)

/- The key does not take the cursor past the last row. -/
def KeepsRow : Prop :=
  key = 10 → cur.y.toInt < 24

/-
  A key pressed while `putc` stands at a point leaves in force
  what the point relies on: a column or a row that was already
  tested, a cell that is in use, a cell still to be cleared.
-/
def KeyFits : Point → Prop
| .nextRow => IsControl key ∧ KeepsColumn key cur
| .newlineRow => IsControl key
| .testRow | .resetRow => KeepsColumn key cur
| .clearing rest =>
    KeepsColumn key cur ∧ KeepsRow key cur ∧
      (¬ IsControl key →
        ∀ value, .blank cur.index value ∉ rest)
| .select | .tabulate | .store =>
    KeepsColumn key cur ∧ KeepsRow key cur
| .back =>
    key ≠ 13 ∧ key ≠ 10 ∧
      (key = 8 → 2 ≤ cur.x.toInt ∧ cur.x.toInt ≤ 79)
| .advance => key = 10 ∨ (key = 9 ∧ cur.x.toInt < 72)
| .testColumn | .resetColumn | .returnColumn
| .newlineColumn | .testBack | .setCursor | .ports _ => True

end Keys

/- Where the interrupted code stands. -/
def Screen.point
    (s : Screen) : Point :=
  match s.pending with
  | none => .testColumn
  | some (_, point) => point

/-
  A key is harmless if it fits the point at which it
  interrupts the text.
-/
def Harmless
    (s : Screen) : ScreenEvent → Prop
| .key c => KeyFits c s.cursor s.point
| .print _ | .advance => True

------------------------------------------------------------
-- Steps
------------------------------------------------------------

/- A newline, a tab or a character moves the cursor forward. -/
theorem putc_forward
    {c : UInt8}
    {cur : Cursor}
    (hColumn : 0 ≤ cur.x.toInt ∧ cur.x.toInt ≤ 80)
    (hRow : 0 ≤ cur.y.toInt ∧ cur.y.toInt ≤ 1000)
    (hForward : ¬ (c = 13 ∨ c = 8)) :
    (wrap cur).1.position ≤ (putc c cur).1.position ∧
      (¬ IsControl c →
        (wrap cur).1.position + 2 ≤
          (putc c cur).1.position) := by
  have hOn := wrap_onScreen hColumn.1 hRow
  have hMoves := dispatch_moves c hOn
  have hMoved :
      (putc c cur).1 = (dispatch c (wrap cur).1).1 := rfl
  rcases hOn with ⟨hOnColumn, hOnRow⟩
  unfold Cursor.position
  rw [hMoved]
  rcases hMoves with
    ⟨rfl, _, _⟩ | ⟨rfl, hx, hy⟩ | ⟨rfl, _, _⟩ |
      ⟨rfl, hx, hy⟩ | ⟨_, hx, hy⟩
  · exact absurd (Or.inl rfl) hForward
  · refine ⟨by omega, fun hOrdinary => ?_⟩
    exact absurd (by decide) hOrdinary
  · exact absurd (Or.inr rfl) hForward
  · refine ⟨by omega, fun hOrdinary => ?_⟩
    exact absurd (by decide) hOrdinary
  · omega

/- The two tests take the cursor forward or clear the screen. -/
theorem wrap_forward
    {cur : Cursor}
    (hColumn : cur.x.toInt ≤ 80)
    (hRow : 0 ≤ cur.y.toInt ∧ cur.y.toInt ≤ 1000)
    (hNone : (wrap cur).2 = []) :
    cur.position ≤ (wrap cur).1.position := by
  have hClears := clearScreen_ne_nil
  unfold Cursor.position
  rcases wrap_moves hRow with
    ⟨_, ⟨_, _, hSame⟩ | ⟨_, _, hx, hy⟩⟩ | ⟨hClear, _⟩
  · exact Int.le_of_eq (by rw [hSame])
  · omega
  · exact absurd (hClear.symm.trans hNone) hClears

/-
  A whole call keeps the standing characters behind the
  cursor, if they were behind it before.
-/
theorem putc_behind
    {held : Int32 → Option Writer}
    {writer : Writer}
    {c : UInt8}
    {cur : Cursor}
    {rest : List ConsoleOp}
    (hColumn : 0 ≤ cur.x.toInt ∧ cur.x.toInt ≤ 80)
    (hRow : 0 ≤ cur.y.toInt ∧ cur.y.toInt ≤ 1000)
    (hBehind : Behind held cur.position rest)
    (hRest :
      rest = [] ∨
        ((wrap cur).1 = cur ∧
          (¬ IsControl c →
            ∀ value, .blank cur.index value ∉ rest))) :
    Leaves held
      ((putc c cur).2.map (.effect writer) ++
        takesBack c (wrap cur).1 (putc c cur).1)
      (putc c cur).1.position rest := by
  have hWrapped := wrap_forward hColumn.2 hRow
  unfold takesBack
  split_ifs with hBack
  · have hControl : IsControl c := by
      unfold IsControl
      rcases hBack with h | h <;> simp [h]
    have hCalled :
        Leaves held ((putc c cur).2.map (.effect writer))
          (wrap cur).1.position rest :=
      putc_leaves hColumn.1 hRow hBehind hWrapped
        (fun hOrdinary => absurd hControl hOrdinary)
    exact Leaves.append hCalled.1
      (Leaves.takenBack hCalled.2)
  · rw [List.append_nil]
    have hMoves := putc_forward hColumn hRow hBack
    refine putc_leaves hColumn.1 hRow hBehind ?_ ?_
    · intro hNone
      exact Int.le_trans (hWrapped hNone) hMoves.1
    · intro hOrdinary
      refine ⟨fun hNone => ⟨hWrapped hNone, ?_⟩,
        hMoves.2 hOrdinary⟩
      rcases hRest with rfl | ⟨hSame, hCleared⟩
      · simp
      · rw [hSame]
        exact hCleared hOrdinary

/- No point lets the cursor go farther than this. -/
theorem Point.Admits.within
    {cur : Cursor}
    {point : Point}
    (hAdmits : point.Admits cur) :
    cur.In 0 80 27 := by
  cases point <;>
    simp only [Point.Admits, Cursor.In] at hAdmits ⊢ <;>
    omega

/- A key that fits a point keeps what the point relies on. -/
theorem key_sound
    {key : UInt8}
    {cur : Cursor}
    {held : Int32 → Option Writer}
    {point : Point}
    (hSound : point.Sound cur held)
    (hFits : KeyFits key cur point) :
    Leaves held
        ((putc key cur).2.map (.effect .keyboard) ++
          takesBack key (wrap cur).1 (putc key cur).1)
        (point.bound (putc key cur).1) point.uncleared ∧
      point.Admits (putc key cur).1 := by
  rcases hSound with ⟨hAdmits, hBehind, _⟩
  rcases hAdmits.within with ⟨hColumn, hRow⟩
  have hRows : 0 ≤ cur.y.toInt ∧ cur.y.toInt ≤ 1000 := by
    omega
  have hWrap := wrap_moves hRows
  have hMoves :=
    dispatch_moves key (wrap_onScreen hColumn.1 hRows)
  have hMoved :
      (putc key cur).1 =
        (dispatch key (wrap cur).1).1 := rfl
  have hClears := clearScreen_ne_nil
  refine ⟨?_, ?_⟩
  · cases point with
    | testColumn | resetColumn | returnColumn
    | newlineColumn | testBack | setCursor | ports _
    | testRow | resetRow | select | tabulate | store
    | back =>
        exact putc_behind hColumn hRows hBehind (Or.inl rfl)
    | clearing rest =>
        rcases hFits with ⟨_, _, hCleared⟩
        refine putc_behind hColumn hRows hBehind
          (Or.inr ⟨?_, hCleared⟩)
        grind [Point.Admits, Cursor.In]
    | nextRow =>
        refine Leaves.called (putc_leaves hColumn.1 hRows
          hBehind ?_
          (fun hOrdinary => absurd hFits.1 hOrdinary))
        grind [Point.bound]
    | newlineRow =>
        refine Leaves.called (putc_leaves hColumn.1 hRows
          hBehind ?_
          (fun hOrdinary => absurd hFits hOrdinary))
        grind [Point.bound]
    | advance =>
        refine Leaves.called (putc_leaves hColumn.1 hRows
          hBehind ?_ ?_)
        · grind [Point.bound, Point.Admits, Cursor.In,
            KeyFits, IsControl, Cursor.position]
        · intro hOrdinary
          grind [KeyFits, IsControl]
  · cases point <;>
      grind [Point.Admits, Cursor.In, KeyFits, KeepsColumn,
        KeepsRow, IsControl]

/- A statement of the text establishes the next point. -/
theorem statement_sound
    (c : UInt8)
    {cur : Cursor}
    {held : Int32 → Option Writer}
    {point next : Point}
    (hSound : point.Sound cur held)
    (hNext :
      (statement c cur point).2.2.getD .testColumn = next) :
    Leaves held
        ((statement c cur point).2.1.map (.effect .text) ++
          point.takesBack cur (statement c cur point).1)
        (next.bound (statement c cur point).1)
        next.uncleared ∧
      next.Admits (statement c cur point).1 ∧
      next.OwnOps := by
  rcases hSound with ⟨hAdmits, hBehind, hOps⟩
  rcases hAdmits.within with ⟨hColumn, hRow⟩
  have hNextColumn :=
    Cursor.toInt_succ hColumn.1 (by omega)
  have hNextRow := Cursor.toInt_succ hRow.1 (by omega)
  have hColumnTest := cur.past_column_iff
  have hRowTest := cur.past_row_iff
  have hLeft : 0 < cur.x ↔ 0 < cur.x.toInt :=
    Int32.lt_iff_toInt_lt
  have hZero : (0 : Int32).toInt = 0 := rfl
  have hStop := tabulation_toInt hColumn.1 hColumn.2
  subst hNext
  cases point with
  | testColumn =>
      dsimp only [statement, Option.getD_some]
      split_ifs with hPast
      · refine ⟨Leaves.nil hBehind, ?_, trivial⟩
        grind [Point.Admits, Cursor.In]
      · refine ⟨Leaves.nil hBehind, ?_, trivial⟩
        grind [Point.Admits, Cursor.In]
  | testRow =>
      dsimp only [statement, Option.getD_some]
      split_ifs with hPast
      · exact ⟨Leaves.nil hBehind, hAdmits, trivial⟩
      · refine ⟨Leaves.nil hBehind, ?_, trivial⟩
        grind [Point.Admits, Cursor.In]
  | resetRow =>
      simp only [Point.Admits, Cursor.In] at hAdmits
      dsimp only [statement, Option.getD_some]
      refine ⟨Leaves.nil hBehind.clearing, ?_,
        fun op hOp => hOp⟩
      simp only [Point.Admits, Cursor.In]
      omega
  | clearing rest =>
      cases rest with
      | nil =>
          exact ⟨Leaves.nil hBehind, hAdmits, trivial⟩
      | cons op rest =>
          rcases clearScreen_mem
              (hOps op List.mem_cons_self) with
            ⟨index, value, rfl, hRange⟩
          exact ⟨Leaves.blank hRange hBehind, hAdmits,
            fun other hOther =>
              hOps other (List.mem_cons_of_mem _ hOther)⟩
  | select =>
      dsimp only [statement, Option.getD_some]
      unfold Point.case
      split_ifs
      · refine ⟨Leaves.nil hBehind, ?_, trivial⟩
        grind [Point.Admits, Cursor.In]
      · refine ⟨Leaves.nil hBehind, ?_, trivial⟩
        grind [Point.Admits, Cursor.In]
      · refine ⟨Leaves.nil hBehind, ?_, trivial⟩
        grind [Point.Admits, Cursor.In]
      · exact ⟨Leaves.nil hBehind, hAdmits, trivial⟩
      · exact ⟨Leaves.nil hBehind, hAdmits, trivial⟩
  | testBack =>
      dsimp only [statement, Option.getD_some]
      split_ifs with hInside
      · refine ⟨Leaves.nil hBehind, ?_, trivial⟩
        grind [Point.Admits, Cursor.In]
      · refine ⟨Leaves.nil hBehind, ?_, trivial⟩
        grind [Point.Admits, Cursor.In]
  -- These statements move the bound forward.
  | resetColumn | nextRow | newlineColumn | newlineRow
  | tabulate | advance =>
      simp only [Point.Admits, Cursor.In] at hAdmits
      dsimp only [statement, Option.getD_some]
      refine ⟨Leaves.nil (hBehind.mono ?_), ?_, trivial⟩
      · simp only [Point.bound, Cursor.position]
        omega
      · simp only [Point.Admits, Cursor.In]
        omega
  -- These take the cursor back, and free what they pass.
  | returnColumn =>
      simp only [Point.Admits, Cursor.In] at hAdmits
      dsimp only [statement, Option.getD_some]
      refine ⟨Leaves.takenBack hBehind, ?_, trivial⟩
      simp only [Point.Admits, Cursor.In]
      omega
  | back =>
      simp only [Point.Admits, Cursor.In] at hAdmits
      dsimp only [statement, Option.getD_some]
      have hBefore : (cur.x - 1).toInt = cur.x.toInt - 1 :=
        toInt_sub (by simp; omega) (by simp; omega)
      refine ⟨Leaves.takenBack hBehind, ?_, trivial⟩
      simp only [Point.Admits, Cursor.In]
      omega
  | store =>
      simp only [Point.Admits, Cursor.In] at hAdmits
      dsimp only [statement, Option.getD_some]
      have hOn : cur.OnScreen := ⟨hAdmits.1, hAdmits.2⟩
      refine ⟨Leaves.glyph hOn hBehind
        (by simp [Point.uncleared]) (Int.le_refl _), ?_,
        trivial⟩
      simp only [Point.Admits, Cursor.In]
      omega
  | setCursor =>
      exact ⟨Leaves.nil hBehind, hAdmits,
        fun op hOp => setCursor_mem hOp⟩
  | ports rest =>
      cases rest with
      | nil =>
          exact ⟨Leaves.nil hBehind, hAdmits, trivial⟩
      | cons op rest =>
          rcases hOps op List.mem_cons_self with
            ⟨port, value, rfl⟩
          exact ⟨Leaves.port hBehind, hAdmits,
            fun other hOther =>
              hOps other (List.mem_cons_of_mem _ hOther)⟩

------------------------------------------------------------
-- Runs
------------------------------------------------------------

/- What holds between any two steps of a harmless run. -/
structure Screen.Sound
    (s : Screen) : Prop where
  fine : Fine s.log
  point : s.point.Sound s.cursor (holders s.log)

theorem Screen.point_perform
    (s : Screen)
    (c : UInt8)
    (point : Point) :
    (s.perform c point).point =
      (statement c s.cursor point).2.2.getD .testColumn := by
  simp only [Screen.point, Screen.perform]
  cases (statement c s.cursor point).2.2 <;> rfl

theorem Screen.sound_start :
    Screen.start.Sound := by
  refine ⟨trivial, ?_, ?_, trivial⟩
  · change Cursor.home.In 0 80 26
    exact ⟨by decide, by decide⟩
  · rintro index owner ⟨⟩

/- Entries that are fine extend a log that is fine. -/
theorem Leaves.extend
    {log entries : List LogEntry}
    {bound : Int}
    {rest : List ConsoleOp}
    (hFine : Fine log)
    (hLeaves : Leaves (holders log) entries bound rest) :
    Fine (log ++ entries) ∧
      Behind (holders (log ++ entries)) bound rest := by
  refine ⟨fineFrom_append.mpr ⟨hFine, hLeaves.1⟩, ?_⟩
  unfold holders
  rw [List.foldl_append]
  exact hLeaves.2

theorem Screen.Sound.step
    {s t : Screen}
    {event : ScreenEvent}
    (hSound : s.Sound)
    (hHarmless : Harmless s event)
    (hStep : Screen.step s event = some t) :
    t.Sound := by
  rcases hSound with ⟨hFine, hPoint⟩
  cases event with
  | print c =>
      unfold Screen.step at hStep
      cases hPending : s.pending with
      | none =>
          rw [hPending] at hStep
          cases hStep
          have hIdle : s.point = .testColumn := by
            unfold Screen.point
            rw [hPending]
          rw [hIdle] at hPoint
          exact ⟨hFine, hPoint⟩
      | some call =>
          rw [hPending] at hStep
          cases hStep
  | advance =>
      unfold Screen.step at hStep
      cases hPending : s.pending with
      | none =>
          rw [hPending] at hStep
          cases hStep
      | some call =>
          rcases call with ⟨c, point⟩
          rw [hPending] at hStep
          cases hStep
          have hAt : s.point = point := by
            unfold Screen.point
            rw [hPending]
          rw [hAt] at hPoint
          rcases statement_sound c hPoint rfl with
            ⟨hLeaves, hAdmits, hOps⟩
          have hExtended := hLeaves.extend hFine
          refine ⟨hExtended.1, ?_⟩
          rw [Screen.point_perform]
          exact ⟨hAdmits, hExtended.2, hOps⟩
  | key c =>
      cases hStep
      rcases key_sound hPoint hHarmless with
        ⟨hLeaves, hAdmits⟩
      have hExtended := hLeaves.extend hFine
      exact ⟨hExtended.1,
        ⟨hAdmits, hExtended.2, hPoint.ops⟩⟩

/-
  In every run whose keys are harmless, every store is inside
  the video memory, and no character of the text or of the
  keyboard is overwritten by the other before it is cleared or
  the cursor is taken back over it.
-/
theorem nested_putc_fine
    (events : List ScreenEvent)
    (hHarmless :
      Always Screen.step .start events Harmless) :
    Throughout Screen.step .start events
      fun s => Fine s.log := by
  intro s hReached
  have hSound : s.Sound := by
    refine reached_invariant Screen.Sound
      Screen.sound_start ?_ hReached
    intro t event u hPerforms hBefore hStep
    exact hBefore.step (hHarmless t event hPerforms) hStep
  exact hSound.fine

/- A key between two statements of a call at home. -/
theorem nested_putc_fine_home :
    Throughout Screen.step .start
      [.print 65, .advance, .key 66]
      fun s => Fine s.log := by
  refine nested_putc_fine _ ?_
  intro s event hPerforms
  rw [performs_iff_mem_visits] at hPerforms
  simp only [visits, Screen.step, Screen.start,
    List.mem_cons, List.not_mem_nil, or_false,
    Prod.mk.injEq] at hPerforms
  rcases hPerforms with
    ⟨_, rfl⟩ | ⟨_, rfl⟩ | ⟨rfl, rfl⟩
  · trivial
  · trivial
  · exact ⟨by decide, by decide⟩

/- A call of `putc` and the first statements of it. -/
def ScreenEvent.call
    (c : UInt8)
    (statements : Nat) : List ScreenEvent :=
  .print c :: List.replicate statements .advance

/- The text returns to the first column, where a key stands. -/
def carriageReturnRun : List ScreenEvent :=
  .key 97 :: ScreenEvent.call 13 10 ++
    ScreenEvent.call 98 4

/-
  The text comes down to the last cell of the screen; it is
  about to store a character there when a key is stored in it.
-/
def lastCellRun : List ScreenEvent :=
  (List.replicate 24 (ScreenEvent.call 10 11)).flatten ++
    (List.replicate 9 (ScreenEvent.call 9 10)).flatten ++
    (List.replicate 7 (ScreenEvent.call 97 11)).flatten ++
    ScreenEvent.call 65 3 ++ [.key 98, .advance]

/-
  The text stores over the key where a carriage return took
  the cursor back, and past the video memory where a key comes
  between the tests and the store.
-/
theorem nested_putc_overwrites :
    (¬ Throughout Screen.step .start carriageReturnRun
      fun s => Fine (effects s.log)) ∧
    ¬ Throughout Screen.step .start lastCellRun
      fun s => Fine (effects s.log) := by
  constructor
  · intro hAll
    have hStored :
        (run Screen.step .start carriageReturnRun).map
            (fun s => effects s.log) =
          some
            (.effect .keyboard (.glyph .home 97) ::
              (setCursor { x := 1, y := 0 }).map
                (.effect .keyboard) ++
              (setCursor .home).map (.effect .text) ++
              [.effect .text (.glyph .home 98)]) := by
      decide +kernel
    rw [Option.map_eq_some_iff] at hStored
    rcases hStored with ⟨s, hRun, hLog⟩
    have hFine : Fine (effects s.log) :=
      hAll s (reached_of_run hRun)
    rw [hLog] at hFine
    have hOwner : Writer.keyboard = Writer.text :=
      (fineFrom_append.mp hFine).2.1.2 .home 98 rfl
        .keyboard (by decide)
    cases hOwner
  · intro hAll
    have hStored :
        ((run Screen.step .start lastCellRun).map fun s =>
          decide
            (.effect .text (.glyph { x := 80, y := 24 } 65) ∈
              effects s.log)) = some true := by
      decide +kernel
    rw [Option.map_eq_some_iff] at hStored
    rcases hStored with ⟨s, hRun, hLog⟩
    have hFine : Fine (effects s.log) :=
      hAll s (reached_of_run hRun)
    have hRange :=
      fineFrom_mem hFine (of_decide_eq_true hLog) 4000 rfl
    exact absurd hRange.2 (by decide)

end AsaKernel
