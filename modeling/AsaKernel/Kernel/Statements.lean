import AsaKernel.Kernel.Console
import AsaKernel.Foundations.Transition

/-
  `putc` one statement at a time.

  A `Point` is the statement that an execution of `putc` is
  about to perform, the statements of `clear_screen` and of
  `setCursor` included.  The test of a `switch` or of a loop
  reads no shared variable, so it is performed together with
  the statement that follows it.

  Main declarations:
    * `Point`, `statement`
    * `finish`, `statement_finish`
    * `finish_testColumn`
-/

------------------------------------------------------------
-- Statements
------------------------------------------------------------

namespace AsaKernel

/- The statement that `putc` is about to perform. -/
inductive Point where
  | testColumn
  | resetColumn
  | nextRow
  | testRow
  | resetRow
  | clearing (rest : List ConsoleOp)
  | select
  | returnColumn
  | newlineColumn
  | newlineRow
  | testBack
  | back
  | tabulate
  | store
  | advance
  | setCursor
  | ports (rest : List ConsoleOp)
deriving DecidableEq, Repr

namespace Point

/- The case of the `switch` that a character selects. -/
def case
    (c : UInt8) : Point :=
  if c = 13 then .returnColumn
  else if c = 10 then .newlineColumn
  else if c = 8 then .testBack
  else if c = 9 then .tabulate
  else .store

end Point

/-
  Perform one statement of `putc(c)`: the cursor it leaves,
  its effects, and the statement that comes next.
-/
def statement
    (c : UInt8)
    (cur : Cursor) :
    Point → Cursor × List ConsoleOp × Option Point
| .testColumn =>
    (cur, [],
      some (if 79 < cur.x then .resetColumn else .testRow))
| .resetColumn => ({ cur with x := 0 }, [], some .nextRow)
| .nextRow =>
    ({ cur with y := cur.y + 1 }, [], some .testRow)
| .testRow =>
    (cur, [],
      some (if 24 < cur.y then .resetRow else .select))
| .resetRow =>
    ({ cur with y := 0 }, [], some (.clearing clearScreen))
| .clearing [] => (cur, [], some .select)
| .clearing (op :: rest) =>
    (cur, [op], some (.clearing rest))
| .select => (cur, [], some (.case c))
| .returnColumn =>
    ({ cur with x := 0 }, [], some .setCursor)
| .newlineColumn =>
    ({ cur with x := 0 }, [], some .newlineRow)
| .newlineRow =>
    ({ cur with y := cur.y + 1 }, [], some .setCursor)
| .testBack =>
    (cur, [],
      some (if 0 < cur.x then .back else .setCursor))
| .back => ({ cur with x := cur.x - 1 }, [], some .setCursor)
| .tabulate =>
    ({ cur with x := (cur.x + 8) &&& ~~~7 }, [],
      some .setCursor)
| .store => (cur, [.glyph cur c], some .advance)
| .advance =>
    ({ cur with x := cur.x + 1 }, [], some .setCursor)
| .setCursor => (cur, [], some (.ports (setCursor cur)))
| .ports [] => (cur, [], none)
| .ports (op :: rest) => (cur, [op], some (.ports rest))

/- How many statements are at most left from a point on. -/
def Point.size : Point → Nat
| .ports rest => rest.length + 1
| .setCursor => 6
| .advance => 7
| .store => 8
| .tabulate => 7
| .back => 7
| .testBack => 8
| .newlineRow => 7
| .newlineColumn => 8
| .returnColumn => 7
| .select => 9
| .clearing rest => rest.length + 10
| .resetRow => clearScreen.length + 11
| .testRow => clearScreen.length + 12
| .nextRow => clearScreen.length + 13
| .resetColumn => clearScreen.length + 14
| .testColumn => clearScreen.length + 15

theorem statement_size
    {c : UInt8}
    {cur : Cursor}
    {point next : Point}
    (hNext : (statement c cur point).2.2 = some next) :
    next.size < point.size := by
  cases point with
  | testColumn =>
      cases hNext
      split_ifs <;> simp only [Point.size] <;> omega
  | testRow =>
      cases hNext
      split_ifs <;> simp only [Point.size] <;> omega
  | select =>
      cases hNext
      unfold Point.case
      split_ifs <;> simp [Point.size]
  | testBack =>
      cases hNext
      split_ifs <;> simp [Point.size]
  | clearing rest =>
      cases rest <;> cases hNext <;> simp [Point.size]
  | ports rest =>
      cases rest <;> cases hNext
      simp [Point.size]
  | setCursor =>
      cases hNext
      simp [Point.size, AsaKernel.setCursor]
  | _ =>
      cases hNext
      simp [Point.size]

------------------------------------------------------------
-- Uninterrupted Execution
------------------------------------------------------------

/- `putc` from its `switch` on. -/
def fromSelect
    (c : UInt8)
    (cur : Cursor) : Cursor × List ConsoleOp :=
  let moved := dispatch c cur
  (moved.1, moved.2 ++ setCursor moved.1)

/- `putc` from its second test on. -/
def fromTestRow
    (c : UInt8)
    (cur : Cursor) : Cursor × List ConsoleOp :=
  let wrapped := wrapRow cur
  let moved := fromSelect c wrapped.1
  (moved.1, wrapped.2 ++ moved.2)

/- The cursor was moved, and `setCursor` remains. -/
def fromSetCursor
    (cur : Cursor) : Cursor × List ConsoleOp :=
  (cur, setCursor cur)

/- What the rest of `putc(c)` does when nothing interrupts. -/
def finish
    (c : UInt8)
    (cur : Cursor) :
    Point → Cursor × List ConsoleOp
| .testColumn => fromTestRow c (wrapColumn cur)
| .resetColumn => fromTestRow c { x := 0, y := cur.y + 1 }
| .nextRow => fromTestRow c { cur with y := cur.y + 1 }
| .testRow => fromTestRow c cur
| .resetRow =>
    let moved := fromSelect c { cur with y := 0 }
    (moved.1, clearScreen ++ moved.2)
| .clearing rest =>
    let moved := fromSelect c cur
    (moved.1, rest ++ moved.2)
| .select => fromSelect c cur
| .returnColumn => fromSetCursor { cur with x := 0 }
| .newlineColumn =>
    fromSetCursor { x := 0, y := cur.y + 1 }
| .newlineRow => fromSetCursor { cur with y := cur.y + 1 }
| .testBack =>
    fromSetCursor
      (if 0 < cur.x then { cur with x := cur.x - 1 }
        else cur)
| .back => fromSetCursor { cur with x := cur.x - 1 }
| .tabulate =>
    fromSetCursor { cur with x := (cur.x + 8) &&& ~~~7 }
| .store =>
    let moved := fromSetCursor { cur with x := cur.x + 1 }
    (moved.1, .glyph cur c :: moved.2)
| .advance => fromSetCursor { cur with x := cur.x + 1 }
| .setCursor => fromSetCursor cur
| .ports rest => (cur, rest)

/- The statements of `putc`, uninterrupted, are `putc`. -/
theorem finish_testColumn
    (c : UInt8)
    (cur : Cursor) :
    finish c cur .testColumn = putc c cur := by
  apply Prod.ext
  · rfl
  · exact (List.append_assoc _ _ _).symm

/- Performing one statement leaves the rest to perform. -/
theorem statement_finish
    (c : UInt8)
    (cur : Cursor)
    (point : Point) :
    finish c cur point =
      match (statement c cur point).2.2 with
      | none =>
          ((statement c cur point).1,
            (statement c cur point).2.1)
      | some next =>
          ((finish c (statement c cur point).1 next).1,
            (statement c cur point).2.1 ++
              (finish c (statement c cur point).1 next).2) := by
  cases point with
  | testColumn =>
      by_cases hPast : 79 < cur.x <;>
        simp [statement, finish, wrapColumn, hPast]
  | testRow =>
      by_cases hPast : 24 < cur.y <;>
        simp [statement, finish, fromTestRow, wrapRow, hPast]
  | select =>
      simp only [statement, finish, Point.case]
      split_ifs <;>
        simp [fromSelect, fromSetCursor, dispatch, *]
  | testBack =>
      by_cases hLeft : 0 < cur.x <;>
        simp [statement, finish, hLeft]
  | clearing rest =>
      cases rest <;> simp [statement, finish]
  | ports rest =>
      cases rest <;> simp [statement, finish]
  | resetColumn => simp [statement, finish]
  | nextRow => simp [statement, finish]
  | resetRow => simp [statement, finish]
  | returnColumn => simp [statement, finish]
  | newlineColumn => simp [statement, finish]
  | newlineRow => simp [statement, finish]
  | back => simp [statement, finish]
  | tabulate => simp [statement, finish]
  | store => simp [statement, finish]
  | advance => simp [statement, finish]
  | setCursor => simp [statement, finish, fromSetCursor]

end AsaKernel
