import AsaKernel.Kernel.Display
import AsaKernel.Kernel.Interrupts

/-
  Typing on the console (my-kernel-asa: main.c).

  `keyboard_irq` prints what `read_keyboard_entry` returns for
  the byte of a pressed key.  A key without a character has
  the entry zero, or none at all; `keyboard_irq` prints the
  zero too, and the table is read past its end.

  Main declarations:
    * `keyboardIrq`, `mappedKey`
    * `TypesMapped`, `typesMapped_iff`
-/

------------------------------------------------------------
-- Keys
------------------------------------------------------------

namespace AsaKernel

/- keyboard_irq; `input` is what port 0x60 returns. -/
def keyboardIrq
    (beyond : Nat → UInt8)
    (s : Display)
    (input : UInt8) : Display :=
  if input &&& 0x80 = 0 then
    s.putc (readKeyboardEntry beyond input)
  else s

/- The byte is sent when a key is pressed. -/
def IsPress
    (input : UInt8) : Prop :=
  input &&& 0x80 = 0

instance
    (input : UInt8) :
    Decidable (IsPress input) :=
  inferInstanceAs (Decidable (input &&& 0x80 = 0))

/- The index of a key in `codesMap`. -/
def keyIndex
    (input : UInt8) : Nat :=
  (input &&& 0x7F).toNat

/-
  The character of a key, which the table gives by an entry
  that is not zero.
-/
def character?
    (input : UInt8) : Option UInt8 :=
  codesMap[keyIndex input]?.filter fun c => c ≠ 0

/- The character that a byte of the keyboard types. -/
def mappedKey
    (input : UInt8) : Option UInt8 :=
  if IsPress input then character? input else none

/-
  After each byte the console is what the mapped characters
  make of it, and the table is read inside.
-/
structure TypesMapped
    (beyond : Nat → UInt8)
    (s : Display)
    (bytes : List UInt8) : Prop where
  console :
    ∀ typed, typed <+: bytes →
      typed.foldl (keyboardIrq beyond) s =
        s.puts (typed.filterMap mappedKey)
  inside :
    ∀ input ∈ bytes, IsPress input →
      keyIndex input < codesMap.length

------------------------------------------------------------
-- One Byte
------------------------------------------------------------

/- An ordinary character moves the cursor, from anywhere. -/
theorem putc_zero_moves
    (cur : Cursor) :
    (putc 0 cur).1 ≠ cur := by
  intro hSame
  have hColumn := congrArg Cursor.x hSame
  have hNext : (putc 0 cur).1.x = (wrap cur).1.x + 1 := rfl
  have hKept :
      (wrap cur).1.x = (wrapColumn cur).x := by
    unfold wrap
    rcases wrapRow_cases (wrapColumn cur) with
      ⟨_, hRow⟩ | ⟨_, hRow⟩
    · rw [hRow]
    · rw [hRow]
  rw [hNext, hKept] at hColumn
  rcases wrapColumn_cases cur with
    ⟨_, hWrapped⟩ | ⟨hPast, hWrapped⟩
  · rw [hWrapped, Int32.add_eq_left] at hColumn
    exact absurd hColumn (by decide)
  · have hOne : cur.x = 1 := by
      rw [← hColumn, hWrapped]
      rfl
    rw [hOne] at hPast
    exact absurd hPast (by decide)

theorem readKeyboardEntry_eq
    (beyond : Nat → UInt8)
    (input : UInt8) :
    readKeyboardEntry beyond input =
      codesMap[keyIndex input]?.getD
        (beyond (keyIndex input)) := rfl

theorem readKeyboardEntry_of_character
    (beyond : Nat → UInt8)
    {input c : UInt8}
    (hCharacter : character? input = some c) :
    readKeyboardEntry beyond input = c ∧
      keyIndex input < codesMap.length := by
  unfold character? at hCharacter
  rw [Option.filter_eq_some_iff] at hCharacter
  rcases hCharacter with ⟨hEntry, _⟩
  constructor
  · rw [readKeyboardEntry_eq, hEntry, Option.getD_some]
  · exact (List.getElem?_eq_some_iff.mp hEntry).1

/- A key of the table without a character has entry zero. -/
theorem readKeyboardEntry_of_none
    (beyond : Nat → UInt8)
    {input : UInt8}
    (hInside : keyIndex input < codesMap.length)
    (hNone : character? input = none) :
    readKeyboardEntry beyond input = 0 := by
  unfold character? at hNone
  rw [List.getElem?_eq_getElem hInside] at hNone
  rw [readKeyboardEntry_eq,
    List.getElem?_eq_getElem hInside, Option.getD_some]
  simpa [Option.filter] using hNone

/- A byte that types what it should. -/
theorem keyboardIrq_mapped
    (beyond : Nat → UInt8)
    (s : Display)
    {input : UInt8}
    (hMapped : IsPress input → character? input ≠ none) :
    keyboardIrq beyond s input =
      s.puts (mappedKey input).toList := by
  change (if IsPress input then _ else _) = _
  unfold mappedKey
  by_cases hPress : IsPress input
  · rcases Option.ne_none_iff_exists'.mp (hMapped hPress)
      with ⟨c, hCharacter⟩
    rw [if_pos hPress, if_pos hPress, hCharacter,
      (readKeyboardEntry_of_character beyond hCharacter).1]
    rfl
  · rw [if_neg hPress, if_neg hPress]
    rfl

------------------------------------------------------------
-- Texts
------------------------------------------------------------

theorem typed_mapped
    (beyond : Nat → UInt8)
    (s : Display)
    {bytes : List UInt8}
    (hMapped :
      ∀ input ∈ bytes, IsPress input →
        character? input ≠ none) :
    bytes.foldl (keyboardIrq beyond) s =
      s.puts (bytes.filterMap mappedKey) := by
  induction bytes using List.reverseRecOn with
  | nil => rfl
  | append_singleton bytes input ih =>
      have hBefore :
          bytes.foldl (keyboardIrq beyond) s =
            s.puts (bytes.filterMap mappedKey) :=
        ih fun other hOther =>
          hMapped other (List.mem_append_left _ hOther)
      have hLast :
          [input].filterMap mappedKey =
            (mappedKey input).toList := by
        rw [List.filterMap_cons]
        cases mappedKey input <;> rfl
      rw [List.foldl_append, hBefore, List.filterMap_append,
        Display.puts_append, hLast]
      exact keyboardIrq_mapped beyond _
        (hMapped input (by simp))

/-
  Typing shows the mapped characters, from any state of the
  console, if and only if every key that is pressed has one.
-/
theorem typesMapped_iff
    (beyond : Nat → UInt8)
    (s : Display)
    (bytes : List UInt8) :
    TypesMapped beyond s bytes ↔
      ∀ input ∈ bytes, IsPress input →
        character? input ≠ none := by
  constructor
  · intro hTypes input hInput hPress hNone
    rcases List.append_of_mem hInput with
      ⟨before, after, hBytes⟩
    have hZero :=
      readKeyboardEntry_of_none beyond
        (hTypes.inside input hInput hPress) hNone
    have hBefore :=
      hTypes.console before (hBytes ▸ List.prefix_append _ _)
    have hThen :=
      hTypes.console (before ++ [input])
        (hBytes ▸ ⟨after, by simp⟩)
    have hUnmapped : mappedKey input = none := by
      unfold mappedKey
      rw [if_pos hPress, hNone]
    have hNothing : [input].filterMap mappedKey = [] := by
      rw [List.filterMap_cons, hUnmapped]
      rfl
    rw [List.foldl_append, List.filterMap_append, hBefore,
      hNothing, List.append_nil] at hThen
    have hShown :
        keyboardIrq beyond
            (s.puts (before.filterMap mappedKey)) input =
          Display.putc 0
            (s.puts (before.filterMap mappedKey)) := by
      unfold keyboardIrq
      rw [hZero]
      exact if_pos hPress
    have hSame := hShown.symm.trans hThen
    have hCursor := congrArg Display.cursor hSame
    rw [Display.cursor_putc] at hCursor
    exact putc_zero_moves _ hCursor
  · intro hMapped
    constructor
    · intro typed hTyped
      exact typed_mapped beyond s
        fun input hInput => hMapped input
          (hTyped.subset hInput)
    · intro input hInput hPress
      rcases Option.ne_none_iff_exists'.mp
          (hMapped input hInput hPress) with
        ⟨c, hCharacter⟩
      exact (readKeyboardEntry_of_character beyond
        hCharacter).2

/- The left shift key types the character zero. -/
theorem shift_types_zero :
    ¬ ∀ beyond s bytes, TypesMapped beyond s bytes := by
  intro hAll
  let s : Display :=
    { cursor := .home
      memory := fun _ => 0x20
      selected := 0
      registers := fun _ => 0 }
  have hTypes := hAll (fun _ => 0) s [0x2A]
  have hShown := hTypes.console [0x2A] List.prefix_rfl
  have hNothing : [0x2A].filterMap mappedKey = [] := by
    decide
  rw [hNothing] at hShown
  have hCursor := congrArg Display.cursor hShown
  exact absurd hCursor (by decide)

end AsaKernel
