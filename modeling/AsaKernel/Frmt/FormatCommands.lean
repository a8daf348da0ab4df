import AsaKernel.Foundations.FixedWidth
import AsaKernel.Volume.FormatPorts

/-
  The three places that send the format command to the disk
  controller: `do_format` and the loop of `format_sector` in
  the driver (drive.c), and `formate_sector` in the tool frmt
  (frmt.c).

  Each splits the same two numbers into bytes by hand.  What
  they ask for is read back from the data registers as they
  are when the command is issued, high byte first.

  Main declarations:
    * `doFormat`, `genericWrSector`, `formateSector`
    * `formatRequests`
    * `EncodersAgree`, `encodersAgree_iff`
-/

------------------------------------------------------------
-- Encoders
------------------------------------------------------------

namespace AsaKernel

/- The operator `&&` of two numbers. -/
def logicalAnd
    (x y : UInt32) : Int32 :=
  if x ≠ 0 ∧ y ≠ 0 then 1 else 0

/- do_format -/
def doFormat
    (sec : UInt16)
    (val : UInt32) : List PortOp :=
  [.out hdaDataRegs (sec.toUInt32 >>> 8).toInt32,
    .out (hdaDataRegs + 1)
      (sec.toUInt32 &&& 0xFF).toInt32,
    .out (hdaDataRegs + 2) (val >>> 24).toInt32,
    .out (hdaDataRegs + 3) ((val >>> 16) &&& 0xFF).toInt32,
    .out (hdaDataRegs + 4) (logicalAnd (val >>> 8) 0xFF),
    .out (hdaDataRegs + 5) (val &&& 0xFF).toInt32] ++
  issue cmdFormat

/- generic_wr_sector -/
def genericWrSector
    (nbSect cmd : Int32) : List PortOp :=
  [.out hdaDataRegs ((nbSect <<< 8) &&& 0xFF),
    .out (hdaDataRegs + 1) (nbSect &&& 0xFF)] ++
  issue cmd

/- formate_sector -/
def formateSector
    (cyl sect nbSect value : Int32) : List PortOp :=
  doSeek cyl.toUInt32 sect.toUInt32 ++
  [.out (hdaDataRegs + 2) ((value >>> 24) &&& 0xFF),
    .out (hdaDataRegs + 3) ((value >>> 16) &&& 0xFF),
    .out (hdaDataRegs + 4) ((value >>> 8) &&& 0xFF),
    .out (hdaDataRegs + 5) (value &&& 0xFF)] ++
  genericWrSector nbSect cmdFormat

------------------------------------------------------------
-- Requests
------------------------------------------------------------

/- Four byte registers read together, high byte first. -/
def word32
    (b₀ b₁ b₂ b₃ : UInt8) : UInt32 :=
  UInt32.ofNat
    (((b₀.toNat * 256 + b₁.toNat) * 256 + b₂.toNat) * 256 +
      b₃.toNat)

/- The number of sectors and the value of a format command. -/
def HdaCommand.request? :
    HdaCommand → Option (UInt16 × UInt32)
| .format count b₀ b₁ b₂ b₃ =>
    some (count, word32 b₀ b₁ b₂ b₃)
| .seek _ | .other _ => none

/- What the format commands of port operations ask for. -/
def formatRequests
    (ops : List PortOp)
    (regs : Nat → UInt8) : List (UInt16 × UInt32) :=
  (received ops regs).filterMap HdaCommand.request?

/-
  Every encoder asks for `n` sectors of the value `v`, from
  any content of the registers.
-/
structure EncodersAgree
    (n : UInt16)
    (v : UInt32) : Prop where
  driver :
    ∀ regs, formatRequests (doFormat n v) regs = [(n, v)]
  tool :
    ∀ cyl sect regs,
      formatRequests
          (formateSector cyl sect n.toUInt32.toInt32
            v.toInt32) regs =
        [(n, v)]
  loop :
    n = 1 →
      ∀ newcyl newsect regs,
        formatRequests (formatOneOps newcyl newsect v) regs =
          [(n, v)]

------------------------------------------------------------
-- Bytes of a Word
------------------------------------------------------------

/- The word of four bytes, when the third one is in doubt. -/
theorem word32_eq_iff
    (v : UInt32)
    (b : UInt8) :
    word32 (v >>> 24).toUInt8 (v >>> 16).toUInt8 b
        v.toUInt8 = v ↔
      b.toNat = v.toNat / 256 % 256 := by
  have hRange := v.toNat_lt
  have hByte := b.toNat_lt
  rw [← UInt32.toNat_inj]
  simp only [word32, UInt32.toNat_ofNat',
    UInt32.toNat_toUInt8, UInt32.toNat_shiftRight,
    Nat.shiftRight_eq_div_pow]
  simp
  omega

/- The whole word, when no byte is in doubt. -/
theorem word32_bytes
    (v : UInt32) :
    word32 (v >>> 24).toUInt8 (v >>> 16).toUInt8
      (v >>> 8).toUInt8 v.toUInt8 = v := by
  rw [word32_eq_iff]
  simp [UInt32.toNat_shiftRight, Nat.shiftRight_eq_div_pow]

/- A signed value is sent by the bytes of its bits. -/
theorem lowByte_shiftRight_mask
    (v : UInt32)
    {k : Nat}
    (hShift : k + 8 ≤ 32) :
    lowByte ((v.toInt32 >>> Int32.ofNat k) &&& 0xFF) =
      (v >>> UInt32.ofNat k).toUInt8 := by
  have hByte := FixedWidth.toNat_byte v.toInt32 hShift
  have hAmount : (UInt32.ofNat k).toNat % 32 = k := by
    rw [UInt32.toNat_ofNat']
    omega
  rw [UInt32.toUInt32_toInt32] at hByte
  apply UInt8.toNat_inj.mp
  unfold lowByte
  rw [hByte, UInt32.toNat_toUInt8, UInt32.toNat_shiftRight,
    hAmount, Nat.shiftRight_eq_div_pow]

theorem lowByte_logicalAnd
    (x : UInt32) :
    (lowByte (logicalAnd x 0xFF)).toNat =
      if x = 0 then 0 else 1 := by
  unfold logicalAnd
  by_cases hZero : x = 0
  · rw [if_pos hZero, if_neg (fun h => h.1 hZero)]
    rfl
  · rw [if_neg hZero, if_pos ⟨hZero, by decide⟩]
    rfl

------------------------------------------------------------
-- What the Encoders Ask For
------------------------------------------------------------

/- One iteration of `format_sector` asks for one sector. -/
theorem formatRequests_formatOneOps
    (newcyl newsect v : UInt32)
    (regs : Nat → UInt8) :
    formatRequests (formatOneOps newcyl newsect v) regs =
      [(1, v)] := by
  rcases received_formatOneOps newcyl newsect v [] regs with
    ⟨regs', hOne⟩
  rw [List.append_nil] at hOne
  have hWord := word32_bytes v
  unfold formatRequests
  rw [hOne]
  exact congrArg (fun word => [(1, word)]) hWord

/- The third byte that `do_format` sends is a truth value. -/
theorem received_doFormat
    (n : UInt16)
    (v : UInt32)
    (regs : Nat → UInt8) :
    received (doFormat n v) regs =
      [.format n (v >>> 24).toUInt8 (v >>> 16).toUInt8
        (lowByte (logicalAnd (v >>> 8) 0xFF))
        v.toUInt8] := by
  have hSeek : cmdFormat ≠ cmdSeek := by decide
  have hIssue := received_issue cmdFormat []
  rw [List.append_nil] at hIssue
  have hTop :
      lowByte (v >>> 24).toInt32 = (v >>> 24).toUInt8 := rfl
  simp only [doFormat, List.cons_append, List.nil_append,
    received_firstData, received_data 1 (by decide),
    received_data 2 (by decide), received_data 3 (by decide),
    received_data 4 (by decide), received_data 5 (by decide),
    hIssue]
  refine congrArg₂ List.cons ?_ rfl
  simpa [hdaCommand, hSeek]
    using ⟨word16_count n, hTop, lowByte_mask (v >>> 16),
      lowByte_mask v⟩

theorem formatRequests_doFormat
    (n : UInt16)
    (v : UInt32)
    (regs : Nat → UInt8) :
    formatRequests (doFormat n v) regs =
      [(n, word32 (v >>> 24).toUInt8 (v >>> 16).toUInt8
        (lowByte (logicalAnd (v >>> 8) 0xFF))
        v.toUInt8)] := by
  unfold formatRequests
  rw [received_doFormat]
  rfl

/- The bytes of the count, of which the high one is lost. -/
theorem word16_wrSector
    (n : UInt16) :
    word16
        (lowByte ((n.toUInt32.toInt32 <<< 8) &&& 0xFF))
        (lowByte (n.toUInt32.toInt32 &&& 0xFF)) =
      UInt16.ofNat (n.toNat % 256) := by
  have hShifted :
      (n.toUInt32.toInt32 <<< 8).toUInt32.toNat =
        n.toNat <<< 8 % 2 ^ 32 :=
    BitVec.toNat_shiftLeft
  have hHigh :
      lowByte ((n.toUInt32.toInt32 <<< 8) &&& 0xFF) = 0 := by
    have hMask :=
      FixedWidth.toNat_and_mask (n.toUInt32.toInt32 <<< 8)
        (w := 8) (by decide)
    rw [hShifted, Nat.shiftLeft_eq] at hMask
    apply UInt8.toNat_inj.mp
    refine (UInt32.toNat_toUInt8 _).trans ?_
    refine (congrArg (fun m => m % 2 ^ 8) hMask).trans ?_
    simp
  have hLow :
      lowByte (n.toUInt32.toInt32 &&& 0xFF) =
        n.toUInt32.toUInt8 :=
    lowByte_mask n.toUInt32
  rw [hHigh, hLow]
  apply UInt16.toNat_inj.mp
  simp [word16]

/- `formate_sector` asks for too few sectors above 255. -/
theorem received_formateSector
    (cyl sect : Int32)
    (n : UInt16)
    (v : UInt32)
    (regs : Nat → UInt8) :
    received
        (formateSector cyl sect n.toUInt32.toInt32 v.toInt32)
        regs =
      [.seek (cyl.toUInt32.toUInt16, sect.toUInt32.toUInt16),
        .format (UInt16.ofNat (n.toNat % 256))
          (v >>> 24).toUInt8 (v >>> 16).toUInt8
          (v >>> 8).toUInt8 v.toUInt8] := by
  have hSeek : cmdFormat ≠ cmdSeek := by decide
  have hIssue := received_issue cmdFormat []
  rw [List.append_nil] at hIssue
  unfold formateSector genericWrSector
  rw [List.append_assoc]
  rcases received_doSeek cyl.toUInt32 sect.toUInt32 _ regs
    with ⟨regs', hSought⟩
  rw [hSought]
  simp only [List.cons_append, List.nil_append,
    received_firstData, received_data 1 (by decide),
    received_data 2 (by decide), received_data 3 (by decide),
    received_data 4 (by decide), received_data 5 (by decide),
    hIssue]
  refine congrArg _ (congrArg₂ List.cons ?_ rfl)
  simpa [hdaCommand, hSeek]
    using ⟨word16_wrSector n,
      lowByte_shiftRight_mask v (k := 24) (by decide),
      lowByte_shiftRight_mask v (k := 16) (by decide),
      lowByte_shiftRight_mask v (k := 8) (by decide),
      lowByte_mask v⟩

theorem formatRequests_formateSector
    (cyl sect : Int32)
    (n : UInt16)
    (v : UInt32)
    (regs : Nat → UInt8) :
    formatRequests
        (formateSector cyl sect n.toUInt32.toInt32 v.toInt32)
        regs =
      [(UInt16.ofNat (n.toNat % 256), v)] := by
  have hWord := word32_bytes v
  unfold formatRequests
  rw [received_formateSector]
  exact congrArg
    (fun word => [(UInt16.ofNat (n.toNat % 256), word)])
    hWord

/-
  The encoders agree on the counts below 256 and the values
  whose second lowest byte is 0 in a value below 256, and 1
  in any other.
-/
theorem encodersAgree_iff
    (n : UInt16)
    (v : UInt32) :
    EncodersAgree n v ↔
      n.toNat < 256 ∧
        (v.toNat < 256 ∨ v.toNat / 256 % 256 = 1) := by
  have hCount :
      UInt16.ofNat (n.toNat % 256) = n ↔ n.toNat < 256 := by
    rw [← UInt16.toNat_inj, UInt16.toNat_ofNat']
    omega
  have hSmall : v >>> 8 = 0 ↔ v.toNat < 256 := by
    have hShifted : (v >>> 8).toNat = v.toNat / 256 := by
      simp [UInt32.toNat_shiftRight,
        Nat.shiftRight_eq_div_pow]
    rw [← UInt32.toNat_inj, hShifted, UInt32.toNat_zero]
    omega
  have hValue :
      word32 (v >>> 24).toUInt8 (v >>> 16).toUInt8
          (lowByte (logicalAnd (v >>> 8) 0xFF))
          v.toUInt8 = v ↔
        v.toNat < 256 ∨ v.toNat / 256 % 256 = 1 := by
    rw [word32_eq_iff, lowByte_logicalAnd]
    split_ifs with hZero
    · rw [hSmall] at hZero
      omega
    · rw [hSmall] at hZero
      omega
  rw [← hCount, ← hValue]
  constructor
  · intro hAgree
    have hTool := hAgree.tool 0 0 fun _ => 0
    have hDriver := hAgree.driver fun _ => 0
    rw [formatRequests_formateSector] at hTool
    rw [formatRequests_doFormat] at hDriver
    simp only [List.cons.injEq, Prod.mk.injEq, and_true,
      true_and] at hTool hDriver
    exact ⟨hTool, hDriver⟩
  · rintro ⟨hTool, hDriver⟩
    constructor
    · intro regs
      rw [formatRequests_doFormat, hDriver]
    · intro cyl sect regs
      rw [formatRequests_formateSector, hTool]
    · rintro rfl newcyl newsect regs
      exact formatRequests_formatOneOps newcyl newsect v regs

/-
  256 sectors of the value 0x200: the driver asks for the
  value 0x100, and the tool for no sector.
-/
theorem encoders_disagree :
    formatRequests (doFormat 256 0x200) (fun _ => 0) =
        [(256, 0x100)] ∧
      formatRequests
          (formateSector 0 0 (256 : UInt16).toUInt32.toInt32
            (0x200 : UInt32).toInt32) (fun _ => 0) =
        [(0, 0x200)] ∧
      ¬ ∀ n v, EncodersAgree n v := by
  have hDriver :
      formatRequests (doFormat 256 0x200) (fun _ => 0) =
        [(256, 0x100)] := by
    decide
  refine ⟨hDriver, by decide, ?_⟩
  intro hAll
  have hAgree := (hAll 256 0x200).driver fun _ => 0
  rw [hDriver] at hAgree
  exact absurd hAgree (by decide)

end AsaKernel
