import AsaKernel.Drive.Registers
import AsaKernel.Foundations.DigitWords
import AsaKernel.Volume.Table

/-
  The dumps of a sector: `display_bloc` (volume.c) and the
  `display_buffer` of the tools (frmt.c, dmps.c).

  Both print every byte with `%x`, without separators and
  without leading zeros, so a byte takes one digit or two.
  `display_bloc` reads the bytes as `char`, and above 0x7f it
  prints the sign too; below, the two texts are the same.

  Main declarations:
    * `blocText`, `Mbr.displayBloc`
    * `displayBuffer`, `hexText`
    * `Separates`, `hexText_identified_iff`
    * `displayBuffer_identified_iff`
    * `blocText_identified_iff`
-/

------------------------------------------------------------
-- Dumps
------------------------------------------------------------

namespace AsaKernel

open DigitWord

/- What `%x` prints of a number. -/
def formatHex
    (n : UInt32) : List Char :=
  Nat.toDigits 16 n.toNat

/- The argument that `printf` is given for a `char`. -/
def ofChar
    (b : UInt8) : UInt32 :=
  b.toInt8.toInt32.toUInt32

/- The argument that `printf` is given for an unsigned char. -/
def ofUChar
    (b : UInt8) : UInt32 :=
  b.toUInt32

/- The loop of `display_bloc` over its buffer. -/
def blocText
    (buffer : List UInt8) : List Char :=
  buffer.flatMap fun b => formatHex (ofChar b)

/- display_bloc -/
def Mbr.displayBloc
    {δ : Type}
    [Drive δ]
    (mbr : Mbr)
    (vol nbloc : UInt32)
    (dev : δ) : Option (List Char × δ) := do
  let (buffer, dev) ← mbr.readBloc vol nbloc dev
  some (blocText buffer.toList, dev)

/- MASTERBUFFER[i] -/
def HdaView.masterByte
    (view : HdaView)
    (i : Nat) : UInt8 :=
  (view.master (i / hdaSectorSize)).toList.getD
    (i % hdaSectorSize) 0

/- display_buffer -/
def displayBuffer
    (nbSect : Nat)
    (view : HdaView) : List Char :=
  ['0', 'x'] ++
    (List.range (nbSect * hdaSectorSize)).flatMap
      (fun i => formatHex (ofUChar (view.masterByte i))) ++
    ['\n']

/- The numerals of bytes, one after the other. -/
def hexText
    (bytes : List UInt8) : List Char :=
  bytes.flatMap fun b => Nat.toDigits 16 b.toNat

/- The digit may be the high one of a byte up to `top`. -/
def Leads
    (top digit : Nat) : Prop :=
  1 ≤ digit ∧ digit ≤ top

/-
  The digits of a byte and of the next one cannot be taken as
  those of two other bytes: a byte of one digit is none that
  could be a high digit, and after a low digit that could be
  one comes a byte of two digits.
-/
def Separates
    (top : Nat)
    (b next : UInt8) : Prop :=
  if b.toNat < 16 then ¬ Leads top b.toNat
  else Leads top (b.toNat % 16) → 16 ≤ next.toNat

------------------------------------------------------------
-- Bytes as Words
------------------------------------------------------------

/- A digit that may be the high one. -/
def lead
    (top : Nat)
    (digit : Fin 16) : Prop :=
  Leads top digit

/- The digits of a byte. -/
def byteWord
    (b : UInt8) : DigitWord (Fin 16) :=
  if hOne : b.toNat < 16 then .one ⟨b.toNat, hOne⟩
  else
    .two
      ⟨b.toNat / 16, by
        have hRange := b.toNat_lt
        omega⟩
      ⟨b.toNat % 16, by omega⟩

/- The byte of some digits. -/
def wordByte : DigitWord (Fin 16) → UInt8
| .one digit => UInt8.ofNat digit
| .two high low => UInt8.ofNat (16 * high + low)

theorem byteWord_one
    {b : UInt8}
    (hOne : b.toNat < 16) :
    byteWord b = .one ⟨b.toNat, hOne⟩ :=
  dif_pos hOne

theorem byteWord_two
    {b : UInt8}
    (hTwo : ¬ b.toNat < 16) :
    ∃ hHigh hLow,
      byteWord b =
        .two ⟨b.toNat / 16, hHigh⟩ ⟨b.toNat % 16, hLow⟩ :=
  ⟨_, _, dif_neg hTwo⟩

theorem isTwo_byteWord
    (b : UInt8) :
    (byteWord b).isTwo = true ↔ 16 ≤ b.toNat := by
  by_cases hOne : b.toNat < 16
  · rw [byteWord_one hOne]
    simp only [isTwo, Bool.false_eq_true, false_iff]
    omega
  · rcases byteWord_two hOne with ⟨hHigh, hLow, hWord⟩
    rw [hWord]
    simp only [isTwo, true_iff]
    omega

theorem valid_byteWord
    {top : Nat}
    {b : UInt8}
    (hTop : b.toNat < 16 * (top + 1)) :
    Valid (lead top) (byteWord b) := by
  by_cases hOne : b.toNat < 16
  · rw [byteWord_one hOne]
    trivial
  · rcases byteWord_two hOne with ⟨hHigh, hLow, hWord⟩
    rw [hWord]
    simp only [Valid, lead, Leads]
    omega

theorem wordByte_byteWord
    (b : UInt8) :
    wordByte (byteWord b) = b := by
  have hRange := b.toNat_lt
  apply UInt8.toNat_inj.mp
  by_cases hOne : b.toNat < 16
  · rw [byteWord_one hOne, wordByte, UInt8.toNat_ofNat']
    exact Nat.mod_eq_of_lt hRange
  · rcases byteWord_two hOne with ⟨hHigh, hLow, hWord⟩
    rw [hWord, wordByte, UInt8.toNat_ofNat']
    dsimp only
    omega

theorem byteWord_wordByte
    {top : Nat}
    (hTop : top < 16)
    {word : DigitWord (Fin 16)}
    (hValid : Valid (lead top) word) :
    byteWord (wordByte word) = word ∧
      (wordByte word).toNat < 16 * (top + 1) := by
  cases word with
  | one digit =>
      have hByte : (wordByte (.one digit)).toNat = digit := by
        rw [wordByte, UInt8.toNat_ofNat']
        omega
      have hOne : (wordByte (.one digit)).toNat < 16 := by
        omega
      rw [byteWord_one hOne]
      refine ⟨?_, by omega⟩
      exact congrArg DigitWord.one (Fin.ext hByte)
  | two high low =>
      have hLead : 1 ≤ high.val ∧ high.val ≤ top := hValid
      have hByte :
          (wordByte (.two high low)).toNat =
            16 * high + low := by
        rw [wordByte, UInt8.toNat_ofNat']
        omega
      have hTwo : ¬ (wordByte (.two high low)).toNat < 16 := by
        omega
      rcases byteWord_two hTwo with ⟨hHigh, hLow, hWord⟩
      rw [hWord]
      refine ⟨?_, by omega⟩
      congr
      · omega
      · omega

theorem closed_byteWord
    (top : Nat)
    (b next : UInt8) :
    Closed (lead top) (byteWord b) (byteWord next) ↔
      Separates top b next := by
  unfold Separates
  by_cases hOne : b.toNat < 16
  · rw [byteWord_one hOne, if_pos hOne]
    rfl
  · rcases byteWord_two hOne with ⟨hHigh, hLow, hWord⟩
    rw [hWord, if_neg hOne, ← isTwo_byteWord]
    rfl

------------------------------------------------------------
-- Texts of Bytes
------------------------------------------------------------

/- A digit as `%x` prints it. -/
def hexChar
    (digit : Fin 16) : Char :=
  Nat.digitChar digit

theorem hexChar_injective :
    Function.Injective hexChar := by
  have hAll :
      ∀ a b : Fin 16, hexChar a = hexChar b → a = b := by
    decide
  exact fun a b => hAll a b

theorem toDigits_byte
    (b : UInt8) :
    Nat.toDigits 16 b.toNat =
      (byteWord b).digits.map hexChar := by
  have hRange := b.toNat_lt
  rw [Nat.toDigits_eq_if (by decide)]
  by_cases hOne : b.toNat < 16
  · rw [if_pos hOne, byteWord_one hOne]
    rfl
  · rcases byteWord_two hOne with ⟨hHigh, hLow, hWord⟩
    rw [if_neg hOne, hWord, Nat.toDigits_of_lt_base hHigh]
    rfl

theorem map_byteWord_injective :
    Function.Injective (List.map byteWord) :=
  List.map_injective_iff.mpr
    (Function.LeftInverse.injective wordByte_byteWord)

/- The digits of bytes are those of their words. -/
theorem hexText_eq
    (bytes : List UInt8) :
    hexText bytes =
      (text (bytes.map byteWord)).map hexChar := by
  induction bytes with
  | nil => rfl
  | cons b bytes ih =>
      have hRest :
          hexText (b :: bytes) =
            Nat.toDigits 16 b.toNat ++ hexText bytes := rfl
      rw [hRest, toDigits_byte, ih, ← List.map_append]
      rfl

theorem hexText_inj_iff
    (bytes others : List UInt8) :
    hexText others = hexText bytes ↔
      text (others.map byteWord) =
        text (bytes.map byteWord) := by
  rw [hexText_eq, hexText_eq]
  exact hexChar_injective.list_map.eq_iff

/-
  Among as many bytes up to a high digit, the text of bytes is
  their own if and only if they have one digit each, or any
  two neighbours are separate.
-/
theorem hexText_identified_iff
    {top : Nat}
    (hTop : top < 16)
    {bytes : List UInt8}
    (hBytes : ∀ b ∈ bytes, b.toNat < 16 * (top + 1)) :
    (∀ others : List UInt8,
        (∀ b ∈ others, b.toNat < 16 * (top + 1)) →
        others.length = bytes.length →
        hexText others = hexText bytes → others = bytes) ↔
      (∀ b ∈ bytes, b.toNat < 16) ∨
        bytes.IsChain (Separates top) := by
  have hValid :
      ∀ word ∈ bytes.map byteWord, Valid (lead top) word := by
    rw [List.forall_mem_map]
    exact fun b hb => valid_byteWord (hBytes b hb)
  have hOnes :
      (∀ word ∈ bytes.map byteWord, word.isTwo = false) ↔
        ∀ b ∈ bytes, b.toNat < 16 := by
    rw [List.forall_mem_map]
    apply forall₂_congr
    intro b _
    have hTwo := isTwo_byteWord b
    rw [← Bool.not_eq_true, hTwo, Nat.not_le]
  have hTight :
      Tight (lead top) (bytes.map byteWord) ↔
        bytes.IsChain (Separates top) := by
    unfold Tight
    rw [List.isChain_map]
    simp only [closed_byteWord]
  rw [← hOnes, ← hTight, ← identified_iff hValid]
  constructor
  · intro hOnly others hOthers hLength hText
    have hWords :
        (others.map wordByte).map byteWord = others := by
      have hEach :
          others.map (byteWord ∘ wordByte) = others.map id :=
        List.map_congr_left fun word hWord =>
          (byteWord_wordByte hTop (hOthers word hWord)).1
      rw [List.map_map, hEach, List.map_id]
    rw [List.length_map] at hLength
    rw [← hWords] at hText ⊢
    rw [hOnly (others.map wordByte) ?_ (by simp [hLength])
      ((hexText_inj_iff bytes _).mpr hText)]
    rw [List.forall_mem_map]
    exact fun word hWord =>
      (byteWord_wordByte hTop (hOthers word hWord)).2
  · intro hOnly others hOthers hLength hText
    apply map_byteWord_injective
    apply hOnly
    · rw [List.forall_mem_map]
      exact fun b hb => valid_byteWord (hOthers b hb)
    · rw [List.length_map, List.length_map, hLength]
    · exact (hexText_inj_iff bytes others).mp hText

------------------------------------------------------------
-- Texts of a Sector
------------------------------------------------------------

/- `display_bloc` prints the block that it reads. -/
theorem Mbr.displayBloc_of_readBloc
    {δ : Type}
    [Drive δ]
    {mbr : Mbr}
    {vol nbloc : UInt32}
    {dev dev' : δ}
    {content : Sector}
    (hRead :
      mbr.readBloc vol nbloc dev = some (content, dev')) :
    mbr.displayBloc vol nbloc dev =
      some (blocText content.toList, dev') := by
  simp [displayBloc, hRead]

/- A `char` that is not negative is printed as it is. -/
theorem blocText_eq_hexText
    {bytes : List UInt8}
    (hPlain : ∀ b ∈ bytes, b.toNat < 0x80) :
    blocText bytes = hexText bytes := by
  have hAll :
      ∀ n : Fin 128, (ofChar (UInt8.ofNat n)).toNat = n := by
    decide
  unfold blocText hexText
  apply List.flatMap_congr
  intro b hb
  have hByte := hAll ⟨b.toNat, hPlain b hb⟩
  rw [UInt8.ofNat_toNat] at hByte
  rw [formatHex, hByte]

/- `display_buffer` prints one sector between its marks. -/
theorem displayBuffer_one
    (view : HdaView) :
    displayBuffer 1 view =
      ['0', 'x'] ++ hexText (view.master 0).toList ++
        ['\n'] := by
  have hBytes :
      (List.range (1 * hdaSectorSize)).map view.masterByte =
        (view.master 0).toList := by
    have hSize := (view.master 0).toList_length
    apply List.ext_getElem
    · rw [List.length_map, List.length_range, hSize,
        Nat.one_mul]
    · intro i hi hByte
      have hInside : i < hdaSectorSize := by omega
      rw [List.getElem_map, List.getElem_range]
      unfold HdaView.masterByte
      rw [Nat.div_eq_of_lt hInside, Nat.mod_eq_of_lt hInside,
        List.getD_eq_getElem?_getD,
        List.getElem?_eq_getElem hByte, Option.getD_some]
  unfold displayBuffer hexText
  rw [← hBytes, List.flatMap_map]
  rfl

/- The same for the contents of a sector. -/
theorem sector_identified_iff
    {top : Nat}
    (hTop : top < 16)
    {content : Sector}
    (hBytes : ∀ b ∈ content.toList, b.toNat < 16 * (top + 1)) :
    (∀ other : Sector,
        (∀ b ∈ other.toList, b.toNat < 16 * (top + 1)) →
        hexText other.toList = hexText content.toList →
        other = content) ↔
      (∀ b ∈ content.toList, b.toNat < 16) ∨
        content.toList.IsChain (Separates top) := by
  rw [← hexText_identified_iff hTop hBytes]
  constructor
  · intro hOnly others hOthers hLength hText
    have hSize : others.length = hdaSectorSize :=
      hLength.trans content.toList_length
    exact congrArg List.Vector.toList
      (hOnly ⟨others, hSize⟩ hOthers hText)
  · intro hOnly other hOther hText
    apply List.Vector.eq
    apply hOnly other.toList hOther
    · rw [other.toList_length, content.toList_length]
    · exact hText

/-
  The dump of `display_buffer` is that of one sector only if
  all its bytes have one digit, or any two are separate.
-/
theorem displayBuffer_identified_iff
    (view : HdaView) :
    (∀ other : HdaView,
        displayBuffer 1 other = displayBuffer 1 view →
        other.master 0 = view.master 0) ↔
      (∀ b ∈ (view.master 0).toList, b.toNat < 16) ∨
        (view.master 0).toList.IsChain (Separates 15) := by
  have hAll (bytes : List UInt8) :
      ∀ b ∈ bytes, b.toNat < 16 * (15 + 1) :=
    fun b _ => b.toNat_lt
  rw [← sector_identified_iff (by decide) (hAll _)]
  simp only [displayBuffer_one, List.append_cancel_left_eq,
    List.append_cancel_right_eq]
  constructor
  · intro hOnly other _ hText
    exact hOnly { view with master := fun _ => other } hText
  · intro hOnly other hText
    exact hOnly (other.master 0) (hAll _) hText

/-
  The dump of a sector of bytes below 0x80 is the one of
  `display_buffer`.  It is that of no other such sector if and
  only if all bytes have one digit, or any two neighbours are
  separate.
-/
theorem blocText_identified_iff
    (content : Sector)
    (hPlain : ∀ b ∈ content.toList, b.toNat < 0x80) :
    (∀ view : HdaView, view.master 0 = content →
      displayBuffer 1 view =
        ['0', 'x'] ++ blocText content.toList ++ ['\n']) ∧
    ((∀ other : Sector,
        (∀ b ∈ other.toList, b.toNat < 0x80) →
        blocText other.toList = blocText content.toList →
        other = content) ↔
      (∀ b ∈ content.toList, b.toNat < 0x10) ∨
        content.toList.IsChain (Separates 7)) := by
  have hText := blocText_eq_hexText hPlain
  constructor
  · rintro view rfl
    rw [displayBuffer_one, hText]
  · rw [← sector_identified_iff (by decide) hPlain, hText]
    apply forall₂_congr
    intro other hOther
    rw [blocText_eq_hexText hOther]

/- Bytes of one and of two digits, each one separate. -/
def separateBytes : List UInt8 :=
  [0x08, 0x41, 0x2a, 0x09]

/- A sector of these bytes. -/
def separateSector : Sector :=
  ⟨(List.replicate 64 separateBytes).flatten, by
    simp only [List.length_flatten, List.map_replicate,
      List.sum_replicate]
    rfl⟩

theorem mem_separateSector
    {b : UInt8}
    (hMem : b ∈ separateSector.toList) :
    b ∈ separateBytes := by
  rcases List.mem_flatten.mp hMem with ⟨bytes, hBytes, hb⟩
  rwa [← List.eq_of_mem_replicate hBytes]

theorem separateSector_isChain :
    separateSector.toList.IsChain (Separates 7) := by
  have hNonempty :
      [] ∉ List.replicate 64 separateBytes := by
    intro hMem
    cases List.eq_of_mem_replicate hMem
  refine (List.isChain_flatten hNonempty).mpr ⟨?_, ?_⟩
  · intro bytes hBytes
    rw [List.eq_of_mem_replicate hBytes]
    unfold separateBytes Separates Leads
    decide
  · apply List.isChain_replicate_of_rel
    intro b hLast next hNext
    cases hLast
    cases hNext
    unfold Separates Leads
    decide

/- A sector of separate bytes is identified by its dump. -/
theorem blocText_identified_separate :
    (∀ view : HdaView, view.master 0 = separateSector →
      displayBuffer 1 view =
        ['0', 'x'] ++ blocText separateSector.toList ++
          ['\n']) ∧
    ∀ other : Sector,
      (∀ b ∈ other.toList, b.toNat < 0x80) →
      blocText other.toList =
        blocText separateSector.toList →
      other = separateSector := by
  have hPlain : ∀ b ∈ separateBytes, b.toNat < 0x80 := by
    simp [separateBytes]
  rcases blocText_identified_iff separateSector
      (fun b hMem => hPlain b (mem_separateSector hMem)) with
    ⟨hBuffer, hIdentified⟩
  exact ⟨hBuffer,
    hIdentified.mpr (Or.inr separateSector_isChain)⟩

/- 01 12 and 11 02 are printed alike. -/
theorem dumps_coincide :
    ¬ ((∀ content other : Sector, content ≠ other →
        blocText content.toList ≠ blocText other.toList) ∧
      ∀ (content : Sector) (view : HdaView),
        view.master 0 = content →
        displayBuffer 1 view =
          ['0', 'x'] ++ blocText content.toList ++
            ['\n']) := by
  rintro ⟨hDifferent, _⟩
  let zeros : Sector := List.Vector.replicate 256 0
  have hSector :
      Sector.memcpy zeros [0x01, 0x12] ≠
        Sector.memcpy zeros [0x11, 0x02] := by
    intro hEq
    have hHeads := congrArg (fun s => s.toList.head?) hEq
    cases hHeads
  apply hDifferent _ _ hSector
  have hHeads :
      blocText [0x01, 0x12] = blocText [0x11, 0x02] := by
    decide
  change
    blocText ([0x01, 0x12] ++ zeros.toList.drop 2) =
      blocText ([0x11, 0x02] ++ zeros.toList.drop 2)
  unfold blocText at hHeads ⊢
  rw [List.flatMap_append, List.flatMap_append, hHeads]

end AsaKernel
