import AsaKernel.Foundations.Scanning
import AsaKernel.Frmt.Dumps
import AsaKernel.Frmt.FormatCommands

/-
  The program frmt (frmt.c), on any controller that obeys the
  register protocol.

  With one argument it fills every sector of the disk; with
  three it fills one sector, reads it back and prints it; with
  any other number it only complains.

  Main declarations:
    * `readSectorFrmt`, `formatAllSector`, `atoi`, `frmt`
    * `Controller.sectors_formateSector`
    * `frmtDisk`, `frmt_fills`
    * `frmt_identifies_iff`
-/

------------------------------------------------------------
-- The Program
------------------------------------------------------------

namespace AsaKernel

open Scanning

/- read_sector_frmt -/
def readSectorFrmt
    (cyl sect nbSect : Int32) : List PortOp :=
  doSeek cyl.toUInt32 sect.toUInt32 ++
    genericWrSector nbSect cmdRead

/- format_all_sector -/
def formatAllSector
    (value : Int32) : List PortOp :=
  (List.range hdaMaxCylinder).flatMap fun cyl =>
    (List.range hdaMaxSector).flatMap fun sect =>
      formateSector (Int32.ofNat cyl) (Int32.ofNat sect) 1
        value

/- atoi, for a number that an `int` can hold -/
def atoi
    (arg : List UInt8) : Int32 :=
  Int32.ofInt ((number arg).1.getD 0)

/- EXIT_SUCCESS and EXIT_FAILURE -/
inductive ExitStatus where
  | success
  | failure
deriving DecidableEq, Repr

/- How a program ends, what it printed, and the controller. -/
structure Finished (K : Controller) where
  status : ExitStatus
  output : List UInt8
  state : K.State

/- main of frmt.c, with the arguments after its name -/
def frmt
    (K : Controller)
    (args : List (List UInt8))
    (s : K.State) : Finished K :=
  match args with
  | [value] =>
      { status := .success
        output := []
        state :=
          K.perform (formatAllSector (atoi value)) s }
  | [cyl, sec, value] =>
      let s :=
        K.perform
          (formateSector (atoi cyl) (atoi sec) 1
            (atoi value)) s
      let s :=
        K.perform
          (readSectorFrmt (atoi cyl) (atoi sec) 1) s
      { status := .success
        output :=
          text "\n...... FORMATAGE ......\n\n" ++
            text "Cylindre n°" ++
            integer (atoi cyl).toInt ++ text ", secteur n°" ++
            integer (atoi sec).toInt ++ text " :\n" ++
            (displayBuffer 1 (K.view s)).flatMap
              String.utf8EncodeChar
        state := s }
  | _ =>
      { status := .failure
        output := text "Please, give 1 or 3 arguments.\n"
        state := s }

------------------------------------------------------------
-- One Sector
------------------------------------------------------------

/- The sector that a pair of numbers is sent as. -/
def sentAddr
    (cyl sect : Int32) : SectorAddr :=
  (cyl.toUInt32.toUInt16, sect.toUInt32.toUInt16)

/- The count 1, in its two bytes. -/
theorem word16_oneSector :
    word16 (lowByte (((1 : Int32) <<< 8) &&& 0xFF))
      (lowByte ((1 : Int32) &&& 0xFF)) = 1 := by
  decide

/- The four bytes of the value, as `formate_sector` cuts it. -/
theorem pattern_sent
    (value : Int32) :
    Sector.pattern (lowByte ((value >>> 24) &&& 0xFF))
        (lowByte ((value >>> 16) &&& 0xFF))
        (lowByte ((value >>> 8) &&& 0xFF))
        (lowByte (value &&& 0xFF)) =
      Sector.filled value.toUInt32 := by
  have hHigh :
      lowByte ((value >>> 24) &&& 0xFF) =
        (value.toUInt32 >>> 24).toUInt8 :=
    lowByte_shiftRight_mask value.toUInt32 (k := 24)
      (by decide)
  have hThird :
      lowByte ((value >>> 16) &&& 0xFF) =
        (value.toUInt32 >>> 16).toUInt8 :=
    lowByte_shiftRight_mask value.toUInt32 (k := 16)
      (by decide)
  have hSecond :
      lowByte ((value >>> 8) &&& 0xFF) =
        (value.toUInt32 >>> 8).toUInt8 :=
    lowByte_shiftRight_mask value.toUInt32 (k := 8)
      (by decide)
  have hLow :
      lowByte (value &&& 0xFF) = value.toUInt32.toUInt8 :=
    lowByte_mask value.toUInt32
  rw [hHigh, hThird, hSecond, hLow, Sector.filled]

namespace Controller

variable (K : Controller)

/- The registers hold the count of one sector. -/
theorem view_oneSector
    (s : K.State) :
    let ready :=
      K.view (K.perform
        [.out hdaDataRegs (((1 : Int32) <<< 8) &&& 0xFF),
          .out (hdaDataRegs + 1) ((1 : Int32) &&& 0xFF)] s)
    ready.sectors = (K.view s).sectors ∧
      ready.head = (K.view s).head ∧
      ready.master = (K.view s).master ∧
      ready.word 0 = 1 := by
  simpa [view_firstData, view_data, HdaView.setReg, HdaView.word]
    using word16_oneSector

/- The registers hold the value too, before CMD_FORMAT. -/
theorem view_sent
    (value : Int32)
    (s : K.State) :
    let ready :=
      K.view (K.perform
        [.out (hdaDataRegs + 2) ((value >>> 24) &&& 0xFF),
          .out (hdaDataRegs + 3) ((value >>> 16) &&& 0xFF),
          .out (hdaDataRegs + 4) ((value >>> 8) &&& 0xFF),
          .out (hdaDataRegs + 5) (value &&& 0xFF),
          .out hdaDataRegs (((1 : Int32) <<< 8) &&& 0xFF),
          .out (hdaDataRegs + 1) ((1 : Int32) &&& 0xFF)] s)
    ready.sectors = (K.view s).sectors ∧
      ready.head = (K.view s).head ∧
      ready.word 0 = 1 ∧
      Sector.pattern (ready.regs 2) (ready.regs 3)
          (ready.regs 4) (ready.regs 5) =
        Sector.filled value.toUInt32 := by
  simpa [view_firstData, view_data, HdaView.setReg, HdaView.word,
    word16_oneSector] using pattern_sent value

/- `formate_sector` fills the sector that it seeks. -/
theorem sectors_formateSector
    (cyl sect value : Int32)
    (s : K.State) :
    (K.view
        (K.perform (formateSector cyl sect 1 value)
          s)).sectors =
      Function.update (K.view s).sectors (sentAddr cyl sect)
        (Sector.filled value.toUInt32) := by
  rcases K.view_doSeek cyl.toUInt32 sect.toUInt32 s with
    ⟨hSectors, _, hHead⟩
  unfold formateSector genericWrSector issue
  rw [K.perform_append, K.perform_append, K.perform_append]
  generalize
    K.perform (doSeek cyl.toUInt32 sect.toUInt32) s =
      sought at *
  rcases K.view_sent value sought with
    ⟨hSectors', hHead', hCount, hFill⟩
  simp only [perform_cons, perform_nil]
    at hSectors' hHead' hCount hFill ⊢
  rw [K.sectors_format, hSectors', hHead', hCount, hFill,
    hSectors, hHead]
  exact congrArg
    (fun addr => Function.update _ addr _)
    (K.consecutive_zero _)

/- `read_sector_frmt` leaves the sector in MASTERBUFFER. -/
theorem view_readSectorFrmt
    (cyl sect : Int32)
    (s : K.State) :
    let after :=
      K.view (K.perform (readSectorFrmt cyl sect 1) s)
    after.sectors = (K.view s).sectors ∧
      after.master 0 =
        (K.view s).sectors (sentAddr cyl sect) := by
  rcases K.view_doSeek cyl.toUInt32 sect.toUInt32 s with
    ⟨hSectors, _, hHead⟩
  unfold readSectorFrmt genericWrSector issue
  rw [K.perform_append, K.perform_append]
  generalize
    K.perform (doSeek cyl.toUInt32 sect.toUInt32) s =
      sought at *
  rcases K.view_oneSector sought with
    ⟨hSectors', hHead', _, hCount⟩
  simp only [perform_cons, perform_nil]
    at hSectors' hHead' hCount ⊢
  refine ⟨?_, ?_⟩
  · rw [K.sectors_read, hSectors', hSectors]
  · have hOne : 0 < (1 : UInt16).toNat := by decide
    rw [K.master_read]
    dsimp only
    rw [hCount, if_pos hOne, hSectors', hSectors, hHead',
      hHead, K.consecutive_zero]
    rfl

------------------------------------------------------------
-- The Whole Disk
------------------------------------------------------------

/- Filling sectors one after the other fills those sectors. -/
theorem sectors_formateSectors
    (value : Int32)
    (pairs : List (Int32 × Int32))
    (s : K.State)
    (addr : SectorAddr) :
    (K.view
        (K.perform
          (pairs.flatMap fun p =>
            formateSector p.1 p.2 1 value) s)).sectors addr =
      if addr ∈ pairs.map fun p => sentAddr p.1 p.2 then
        Sector.filled value.toUInt32
      else (K.view s).sectors addr := by
  induction pairs generalizing s with
  | nil => rfl
  | cons p pairs ih =>
      rw [List.flatMap_cons, K.perform_append, ih,
        K.sectors_formateSector, List.map_cons]
      by_cases hLater :
          addr ∈ pairs.map fun p => sentAddr p.1 p.2
      · rw [if_pos hLater,
          if_pos (List.mem_cons_of_mem _ hLater)]
      · rw [if_neg hLater]
        by_cases hHere : addr = sentAddr p.1 p.2
        · subst hHere
          rw [Function.update_self,
            if_pos List.mem_cons_self]
        · have hNeither :
              addr ∉ sentAddr p.1 p.2 ::
                pairs.map fun p => sentAddr p.1 p.2 := by
            rw [List.mem_cons]
            exact fun h => h.elim hHere hLater
          rw [Function.update_of_ne hHere, if_neg hNeither]

end Controller

/- The pairs of numbers that `format_all_sector` runs over. -/
def allSectors : List (Int32 × Int32) :=
  (List.range hdaMaxCylinder).flatMap fun cyl =>
    (List.range hdaMaxSector).map fun sect =>
      (Int32.ofNat cyl, Int32.ofNat sect)

/- Its two loops are one loop over these pairs. -/
theorem formatAllSector_eq
    (value : Int32) :
    formatAllSector value =
      allSectors.flatMap fun p =>
        formateSector p.1 p.2 1 value := by
  unfold formatAllSector allSectors
  rw [List.flatMap_assoc]
  apply List.flatMap_congr
  intro cyl _
  rw [List.flatMap_map]

/- They are sent as the sectors of the disk. -/
theorem mem_allSectors_iff
    (addr : SectorAddr) :
    (addr ∈ allSectors.map fun p => sentAddr p.1 p.2) ↔
      addr.OnDisk := by
  have hSent :
      ∀ cyl : Fin hdaMaxCylinder, ∀ sect : Fin hdaMaxSector,
        sentAddr (Int32.ofNat cyl) (Int32.ofNat sect) =
          (UInt16.ofNat cyl, UInt16.ofNat sect) := by
    decide
  constructor
  · intro hMem
    rcases List.mem_map.mp hMem with ⟨p, hp, rfl⟩
    rcases List.mem_flatMap.mp hp with ⟨cyl, hCyl, hp⟩
    rcases List.mem_map.mp hp with ⟨sect, hSect, rfl⟩
    rw [List.mem_range] at hCyl hSect
    rw [hSent ⟨cyl, hCyl⟩ ⟨sect, hSect⟩]
    unfold SectorAddr.OnDisk
    rw [UInt16.toNat_ofNat', UInt16.toNat_ofNat']
    constructor
    · omega
    · omega
  · rintro ⟨hCyl, hSect⟩
    apply List.mem_map.mpr
    refine ⟨(Int32.ofNat addr.1.toNat,
      Int32.ofNat addr.2.toNat), ?_, ?_⟩
    · apply List.mem_flatMap.mpr
      refine ⟨addr.1.toNat, List.mem_range.mpr hCyl, ?_⟩
      exact List.mem_map.mpr
        ⟨addr.2.toNat, List.mem_range.mpr hSect, rfl⟩
    · rw [hSent ⟨_, hCyl⟩ ⟨_, hSect⟩, UInt16.ofNat_toNat,
        UInt16.ofNat_toNat]

------------------------------------------------------------
-- What the Program Does to the Disk
------------------------------------------------------------

instance
    (addr : SectorAddr) : Decidable addr.OnDisk :=
  inferInstanceAs (Decidable (_ ∧ _))

/-
  The disk with every sector filled for one argument, with the
  addressed one for three, if the disk has it, and as it was
  for any other number of arguments.
-/
def frmtDisk
    (args : List (List UInt8))
    (disk : Disk)
    (addr : SectorAddr) : Sector :=
  match args with
  | [value] =>
      if addr.OnDisk then
        Sector.filled (atoi value).toUInt32
      else disk addr
  | [cyl, sec, value] =>
      if addr.OnDisk ∧
          addr = sentAddr (atoi cyl) (atoi sec) then
        Sector.filled (atoi value).toUInt32
      else disk addr
  | _ => disk addr

/-
  This is what the program leaves, unless its arguments
  address a sector that the disk does not have.
-/
theorem frmt_fills
    (K : Controller)
    (args : List (List UInt8))
    (hOnDisk :
      ∀ cyl sec value, args = [cyl, sec, value] →
        (sentAddr (atoi cyl) (atoi sec)).OnDisk)
    (s : K.State) :
    (K.view (frmt K args s).state).sectors =
      frmtDisk args (K.view s).sectors := by
  funext addr
  unfold frmt frmtDisk
  split
  next value =>
    dsimp only
    rw [formatAllSector_eq, K.sectors_formateSectors]
    simp only [mem_allSectors_iff]
  next cyl sec value =>
    have hAddressed :
        (addr.OnDisk ∧
            addr = sentAddr (atoi cyl) (atoi sec)) ↔
          addr = sentAddr (atoi cyl) (atoi sec) := by
      rw [and_iff_right_iff_imp]
      rintro rfl
      exact hOnDisk cyl sec value rfl
    dsimp only
    rw [(K.view_readSectorFrmt _ _ _).1,
      K.sectors_formateSector, Function.update_apply]
    simp only [hAddressed]
  next => rfl

/- `frmt 15 3 -2` fills sector (15,3) and not the next one. -/
theorem frmt_fills_sample :
    let after :=
      (frmt Controller.linear
        [text "15", text "3", text "-2"]
        Controller.staleView).state
    after.sectors (15, 3) = Sector.filled 0xFFFFFFFE ∧
      after.sectors (15, 4) = Sector.filled 0 := by
  have hFilled :=
    frmt_fills Controller.linear
      [text "15", text "3", text "-2"]
      (by rintro _ _ _ ⟨⟩; decide) Controller.staleView
  have hValue : (atoi (text "-2")).toUInt32 = 0xFFFFFFFE := by
    decide
  constructor
  · refine (congrFun hFilled (15, 3)).trans ?_
    rw [frmtDisk, if_pos (by decide), hValue]
  · refine (congrFun hFilled (15, 4)).trans ?_
    rw [frmtDisk, if_neg (by decide)]
    rfl

------------------------------------------------------------
-- What the Program Prints
------------------------------------------------------------

/- The bytes of a value, the high one first. -/
def valueBytes
    (value : Int32) : List UInt8 :=
  [(value.toUInt32 >>> 24).toUInt8,
    (value.toUInt32 >>> 16).toUInt8,
    (value.toUInt32 >>> 8).toUInt8, value.toUInt32.toUInt8]

theorem valueBytes_inj
    {value other : Int32}
    (hBytes : valueBytes value = valueBytes other) :
    value = other := by
  simp only [valueBytes, List.cons.injEq, and_true] at hBytes
  rcases hBytes with ⟨hHigh, hThird, hSecond, hLow⟩
  have hWord := word32_bytes value.toUInt32
  rw [hHigh, hThird, hSecond, hLow, word32_bytes] at hWord
  have hSame := congrArg UInt32.toInt32 hWord
  rw [Int32.toInt32_toUInt32, Int32.toInt32_toUInt32]
    at hSame
  exact hSame.symm

/- A byte of a word is a digit of its number in base 256. -/
theorem shiftRight_eq_byte
    {x k : UInt32}
    {b : UInt8}
    (hDigit :
      x.toNat / 2 ^ (k.toNat % 32) % 256 = b.toNat) :
    (x >>> k).toUInt8 = b := by
  apply UInt8.toNat_inj.mp
  rw [UInt32.toNat_toUInt8, UInt32.toNat_shiftRight,
    Nat.shiftRight_eq_div_pow]
  exact hDigit

/- Any four bytes are those of a value. -/
theorem valueBytes_surjective
    (b₀ b₁ b₂ b₃ : UInt8) :
    ∃ value, valueBytes value = [b₀, b₁, b₂, b₃] := by
  have h₀ := b₀.toNat_lt
  have h₁ := b₁.toNat_lt
  have h₂ := b₂.toNat_lt
  have h₃ := b₃.toNat_lt
  have hWord :
      (word32 b₀ b₁ b₂ b₃).toNat =
        ((b₀.toNat * 256 + b₁.toNat) * 256 + b₂.toNat) * 256 +
          b₃.toNat := by
    rw [word32, UInt32.toNat_ofNat']
    exact Nat.mod_eq_of_lt (by omega)
  refine ⟨(word32 b₀ b₁ b₂ b₃).toInt32, ?_⟩
  unfold valueBytes
  rw [UInt32.toUInt32_toInt32]
  congr
  · apply shiftRight_eq_byte
    rw [hWord]
    change _ / 16777216 % 256 = _
    omega
  · apply shiftRight_eq_byte
    rw [hWord]
    change _ / 65536 % 256 = _
    omega
  · apply shiftRight_eq_byte
    rw [hWord]
    change _ / 256 % 256 = _
    omega
  · apply UInt8.toNat_inj.mp
    rw [UInt32.toNat_toUInt8, hWord]
    omega

/- The digits of a filled sector are those of the value. -/
theorem hexText_filled
    (value : Int32) :
    hexText (Sector.filled value.toUInt32).toList =
      (List.replicate 64
        (hexText (valueBytes value))).flatten := by
  have hSector :
      (Sector.filled value.toUInt32).toList =
        (List.replicate 64 (valueBytes value)).flatMap id :=
    List.flatMap_id.symm
  unfold hexText
  rw [hSector, List.flatMap_assoc, List.flatMap_replicate]
  rfl

/- Texts that are repeated as often and agree are equal. -/
theorem repeated_inj
    {α : Type}
    {n : Nat}
    {one other : List α}
    (hSame :
      (List.replicate (n + 1) one).flatten =
        (List.replicate (n + 1) other).flatten) :
    one = other := by
  have hLength := congrArg List.length hSame
  rw [List.length_flatten, List.length_flatten,
    List.map_replicate, List.map_replicate,
    List.sum_replicate, List.sum_replicate] at hLength
  have hOne : one.length = other.length :=
    Nat.eq_of_mul_eq_mul_left n.succ_pos hLength
  rw [List.replicate_succ, List.replicate_succ,
    List.flatten_cons, List.flatten_cons] at hSame
  exact (List.append_inj hSame hOne).1

/- A text is identified by its bytes. -/
theorem encoded_inj
    {chars others : List Char}
    (hSame :
      chars.flatMap String.utf8EncodeChar =
        others.flatMap String.utf8EncodeChar) :
    chars = others := by
  apply String.ofList_injective
  apply String.toByteArray_inj.mp
  rw [String.toByteArray_ofList, String.toByteArray_ofList,
    List.utf8Encode, List.utf8Encode, hSame]

/- The argument that `%d` would print is read as its number. -/
theorem atoi_integer
    (value : Int32) :
    atoi (integer value.toInt) = value := by
  have hNone : ∀ c ∈ ([] : List UInt8), isSpace c = true := by
    intro c hc
    cases hc
  have hEnd : Ends isDigit [] := by
    intro c hc
    cases hc
  have hNumber :
      number ([] ++ (integer value.toInt ++ [])) =
        (some value.toInt, []) :=
    number_integer value.toInt hNone hEnd
  rw [List.nil_append, List.append_nil] at hNumber
  rw [atoi, hNumber]
  exact Int32.ofInt_toInt value

/- With three arguments, the dump is that of the value. -/
theorem frmt_output
    (K : Controller)
    (cyl sec value : List UInt8)
    (s : K.State) :
    (frmt K [cyl, sec, value] s).output =
      text "\n...... FORMATAGE ......\n\n" ++
        text "Cylindre n°" ++ integer (atoi cyl).toInt ++
        text ", secteur n°" ++ integer (atoi sec).toInt ++
        text " :\n" ++
        (['0', 'x'] ++
          (List.replicate 64
            (hexText (valueBytes (atoi value)))).flatten ++
          ['\n']).flatMap String.utf8EncodeChar := by
  unfold frmt
  dsimp only
  rw [displayBuffer_one, (K.view_readSectorFrmt _ _ _).2,
    K.sectors_formateSector, Function.update_self,
    hexText_filled]

/-
  The text that is printed tells the value, among all the
  values that the same sector can be filled with, if and only
  if its bytes have one digit each, or any two neighbours are
  separate.
-/
theorem frmt_identifies_iff
    (K : Controller)
    (cyl sec value : List UInt8)
    (s : K.State) :
    (∀ (other : List UInt8) (t : K.State),
        (frmt K [cyl, sec, other] t).output =
          (frmt K [cyl, sec, value] s).output →
        atoi other = atoi value) ↔
      (∀ b ∈ valueBytes (atoi value), b.toNat < 16) ∨
        (valueBytes (atoi value)).IsChain
          (Separates 15) := by
  have hAll (bytes : List UInt8) :
      ∀ b ∈ bytes, b.toNat < 16 * (15 + 1) :=
    fun b _ => b.toNat_lt
  have hOutput (other : List UInt8) (t : K.State) :
      (frmt K [cyl, sec, other] t).output =
          (frmt K [cyl, sec, value] s).output ↔
        hexText (valueBytes (atoi other)) =
          hexText (valueBytes (atoi value)) := by
    rw [frmt_output, frmt_output, List.append_right_inj]
    constructor
    · intro hSame
      have hDump := encoded_inj hSame
      rw [List.append_left_inj, List.append_right_inj]
        at hDump
      exact repeated_inj hDump
    · intro hSame
      rw [hSame]
  rw [← hexText_identified_iff (by decide) (hAll _)]
  simp only [hOutput]
  constructor
  · intro hOnly others _ hLength hText
    rcases others with _ | ⟨b₀, _ | ⟨b₁, _ | ⟨b₂, _ |
      ⟨b₃, _ | ⟨b₄, others⟩⟩⟩⟩⟩
    · cases hLength
    · cases hLength
    · cases hLength
    · cases hLength
    · rcases valueBytes_surjective b₀ b₁ b₂ b₃ with
        ⟨other, hOther⟩
      have hSame :=
        hOnly (integer other.toInt) s
          (by rw [atoi_integer, hOther, hText])
      rw [atoi_integer] at hSame
      rw [← hOther, hSame]
    · cases hLength
  · intro hOnly other _ hText
    exact valueBytes_inj (hOnly _ (hAll _) rfl hText)

end AsaKernel
