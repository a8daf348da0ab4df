import AsaKernel.Drive.Transfers
import AsaKernel.Volume.Formatting

/-
  Formatting a volume, at the ports of the disk controller
  (drive.c, volume.c).

  `format_sector` steps from one sector to the next with a
  carry into the cylinder, and `cytToSect` divides.  Both find
  the same sectors: the driver seeks the blocks of the volume
  in their order and formats one sector at each of them.

  Main declarations:
    * `formatSectorOps`, `received`
    * `Controller.sectors_formatLoop`
    * `received_formatSectorOps`
    * `Mbr.formatVol_seeks_blocks`
-/

------------------------------------------------------------
-- Port Operations of the Loop
------------------------------------------------------------

namespace AsaKernel

/- The operations of the loop of `format_sector`. -/
def formatSectorOps
    (value : UInt32) :
    Nat → (newcyl newsect : UInt32) → List PortOp
| 0, _, _ => []
| k + 1, newcyl, newsect =>
    let next := (newsect + 1) % UInt32.ofNat hdaMaxSector
    formatOneOps newcyl newsect value ++
      formatSectorOps value k
        (if next = 0 then newcyl + 1 else newcyl) next

/-
  A command as the controller receives it: the head is moved,
  or a number of sectors is filled with four bytes.
-/
inductive HdaCommand where
  | seek (addr : SectorAddr)
  | format (count : UInt16) (b₀ b₁ b₂ b₃ : UInt8)
  | other (cmd : Int32)
deriving DecidableEq, Repr

/- The command with the data registers as they are. -/
def hdaCommand
    (cmd : Int32)
    (regs : Nat → UInt8) : HdaCommand :=
  if cmd = cmdSeek then
    .seek (word16 (regs 0) (regs 1),
      word16 (regs 2) (regs 3))
  else if cmd = cmdFormat then
    .format (word16 (regs 0) (regs 1)) (regs 2) (regs 3)
      (regs 4) (regs 5)
  else .other cmd

/- The commands that port operations send, in order. -/
def received :
    List PortOp → (Nat → UInt8) → List HdaCommand
| [], _ => []
| .out port value :: ops, regs =>
    if port = hdaCmdReg then
      hdaCommand value regs :: received ops regs
    else
      received ops
        (Function.update regs (port - hdaDataRegs)
          (lowByte value))
| .sleep _ :: ops, regs => received ops regs
| .toMaster _ :: ops, regs => received ops regs

/-
  The head is moved to a sector, and this one sector is filled
  with the four bytes of the value, the high one first.
-/
def formatAt
    (value : UInt32)
    (addr : SectorAddr) : List HdaCommand :=
  [.seek addr,
    .format 1 (value >>> 24).toUInt8 (value >>> 16).toUInt8
      (value >>> 8).toUInt8 value.toUInt8]

/- A byte that is masked before it is sent arrives whole. -/
theorem lowByte_mask
    (x : UInt32) :
    lowByte (x &&& 0xFF).toInt32 = x.toUInt8 := by
  have hMask : (x &&& (0xFF : UInt32)).toNat =
      x.toNat % 256 := by
    rw [UInt32.toNat_and]
    exact Nat.and_two_pow_sub_one_eq_mod x.toNat 8
  apply UInt8.toNat_inj.mp
  rw [lowByte, UInt32.toUInt32_toInt32,
    UInt32.toNat_toUInt8, UInt32.toNat_toUInt8, hMask]
  omega

theorem received_data
    (i : Nat)
    (hData : i < 16)
    (value : Int32)
    (ops : List PortOp)
    (regs : Nat → UInt8) :
    received (.out (hdaDataRegs + i) value :: ops) regs =
      received ops
        (Function.update regs i (lowByte value)) := by
  have hPort : hdaDataRegs + i ≠ hdaCmdReg := by
    simp only [hdaDataRegs, hdaCmdReg]
    omega
  rw [received, if_neg hPort, Nat.add_sub_cancel_left]

theorem received_firstData
    (value : Int32)
    (ops : List PortOp)
    (regs : Nat → UInt8) :
    received (.out hdaDataRegs value :: ops) regs =
      received ops
        (Function.update regs 0 (lowByte value)) :=
  received_data 0 (by decide) value ops regs

theorem received_issue
    (cmd : Int32)
    (ops : List PortOp)
    (regs : Nat → UInt8) :
    received (issue cmd ++ ops) regs =
      hdaCommand cmd regs :: received ops regs := rfl

/- A seek sends the low 16 bits of both numbers. -/
theorem received_doSeek
    (cyl sect : UInt32)
    (ops : List PortOp)
    (regs : Nat → UInt8) :
    ∃ regs',
      received (doSeek cyl sect ++ ops) regs =
        .seek (cyl.toUInt16, sect.toUInt16) ::
          received ops regs' := by
  simp only [doSeek, List.cons_append, List.nil_append,
    received_firstData, received_data 1 (by decide),
    received_data 2 (by decide), received_data 3 (by decide),
    received_issue]
  refine ⟨_, congrArg₂ List.cons ?_ rfl⟩
  simpa [hdaCommand]
    using ⟨word16_lowByte cyl, word16_lowByte sect⟩

/- One iteration seeks a sector and formats it. -/
theorem received_formatOneOps
    (newcyl newsect value : UInt32)
    (ops : List PortOp)
    (regs : Nat → UInt8) :
    ∃ regs',
      received (formatOneOps newcyl newsect value ++ ops)
          regs =
        formatAt value
            (newcyl.toUInt16, newsect.toUInt16) ++
          received ops regs' := by
  unfold formatOneOps
  rw [List.append_assoc, List.append_assoc]
  rcases received_doSeek newcyl newsect _ regs with
    ⟨regs', hSeek⟩
  rw [hSeek]
  simp only [List.cons_append, List.nil_append, received_firstData,
    received_data 1 (by decide), received_data 2 (by decide),
    received_data 3 (by decide), received_data 4 (by decide),
    received_data 5 (by decide), received_issue]
  refine ⟨_, congrArg _ (congrArg₂ List.cons ?_ rfl)⟩
  have hSeek : cmdFormat ≠ cmdSeek := by decide
  have hOne : word16 (lowByte 0) (lowByte 1) = 1 := by decide
  simpa [hdaCommand, hSeek, hOne]
    using ⟨lowByte_mask (value >>> 24),
      lowByte_mask (value >>> 16),
      lowByte_mask (value >>> 8), lowByte_mask value⟩

/- The loop formats the sectors of its trail. -/
theorem received_formatSectorOps
    (value : UInt32)
    (k : Nat)
    (newcyl newsect : UInt32)
    (regs : Nat → UInt8) :
    received (formatSectorOps value k newcyl newsect) regs =
      (formatTrail k newcyl newsect).flatMap
        (formatAt value) := by
  induction k generalizing newcyl newsect regs with
  | zero => rfl
  | succ k ih =>
      rw [formatSectorOps, formatTrail, List.flatMap_cons]
      rcases received_formatOneOps newcyl newsect value
          (formatSectorOps value k _ _) regs with
        ⟨regs', hOne⟩
      rw [hOne, ih]

------------------------------------------------------------
-- The Disk Behind the Controller
------------------------------------------------------------

namespace Controller

variable (K : Controller)

/- The loop performs these operations. -/
theorem formatLoop_eq_perform
    (value : UInt32)
    (k : Nat)
    (newcyl newsect : UInt32)
    (s : K.State) :
    Drive.formatLoop value k newcyl newsect s =
      K.perform (formatSectorOps value k newcyl newsect)
        s := by
  induction k generalizing newcyl newsect s with
  | zero => rfl
  | succ k ih =>
      rw [formatSectorOps, K.perform_append]
      exact ih _ _ _

/- The registers hold what is sent before CMD_FORMAT. -/
theorem view_fill
    (value : UInt32)
    (s : K.State) :
    let ready :=
      K.view (K.perform
        [.out (hdaDataRegs + 2)
            ((value >>> 24) &&& 0xFF).toInt32,
          .out (hdaDataRegs + 3)
            ((value >>> 16) &&& 0xFF).toInt32,
          .out (hdaDataRegs + 4)
            ((value >>> 8) &&& 0xFF).toInt32,
          .out (hdaDataRegs + 5) (value &&& 0xFF).toInt32,
          .out hdaDataRegs 0,
          .out (hdaDataRegs + 1) 1] s)
    ready.sectors = (K.view s).sectors ∧
      ready.head = (K.view s).head ∧
      ready.word 0 = 1 ∧
      Sector.pattern (ready.regs 2) (ready.regs 3)
          (ready.regs 4) (ready.regs 5) =
        Sector.filled value := by
  have hOne : word16 (lowByte 0) (lowByte 1) = 1 := by decide
  have hFill :
      Sector.pattern
          (lowByte ((value >>> 24) &&& 0xFF).toInt32)
          (lowByte ((value >>> 16) &&& 0xFF).toInt32)
          (lowByte ((value >>> 8) &&& 0xFF).toInt32)
          (lowByte (value &&& 0xFF).toInt32) =
        Sector.filled value := by
    simp only [lowByte_mask, Sector.filled]
  simpa [view_firstData, view_data, HdaView.setReg, HdaView.word,
    hOne] using hFill

/- One iteration fills the sector that it seeks. -/
theorem sectors_formatOne
    (newcyl newsect value : UInt32)
    (s : K.State) :
    (K.view
        (K.perform (formatOneOps newcyl newsect value)
          s)).sectors =
      Function.update (K.view s).sectors
        (newcyl.toUInt16, newsect.toUInt16)
        (Sector.filled value) := by
  rcases K.view_doSeek newcyl newsect s with
    ⟨hSectors, _, hHead⟩
  unfold formatOneOps issue
  rw [K.perform_append, K.perform_append]
  generalize K.perform (doSeek newcyl newsect) s =
    sought at *
  rcases K.view_fill value sought with
    ⟨hSectors', hHead', hCount, hFill⟩
  simp only [perform_cons, perform_nil]
    at hSectors' hHead' hCount hFill ⊢
  rw [K.sectors_format, hSectors', hHead', hCount, hFill,
    hSectors, hHead]
  exact congrArg
    (fun addr => Function.update _ addr _)
    (K.consecutive_zero _)

/- The loop does what the sector-level disk does. -/
theorem sectors_formatLoop
    (value : UInt32)
    (k : Nat)
    (newcyl newsect : UInt32)
    (s : K.State) :
    (K.view
        (Drive.formatLoop value k newcyl newsect
          s)).sectors =
      Drive.formatLoop value k newcyl newsect
        (K.view s).sectors := by
  induction k generalizing newcyl newsect s with
  | zero => rfl
  | succ k ih =>
      unfold Drive.formatLoop
      dsimp only
      rw [ih]
      exact congrArg _
        (K.sectors_formatOne newcyl newsect value s)

end Controller

------------------------------------------------------------
-- Formatting a Volume
------------------------------------------------------------

/- The operations of `format_vol` for a table entry. -/
def formatVolOps
    (v : Volume)
    (value : UInt32) : List PortOp :=
  formatSectorOps value v.nbBlocs.toUInt32.toNat
    v.debutCyl.toUInt32 v.debutSect.toUInt32

/- The two 16-bit numbers are the whole pair. -/
theorem Volume.Addressable.sectorAddr_exact
    {v : Volume}
    {b : UInt32}
    (hAddressable : v.Addressable)
    (hBlock : (b.toNat : Int) < v.nbBlocs.toInt) :
    ((sectorAddr (v.locate b)).1.toNat : Int) =
        (v.locate b).1.toInt ∧
      ((sectorAddr (v.locate b)).2.toNat : Int) =
        (v.locate b).2.toInt := by
  rcases hAddressable.locate_range hBlock with
    ⟨hLow, hHigh, _, hSect⟩
  have hSectLow := Int.emod_nonneg
    (v.debutSect.toInt + b.toNat) (b := 16) (by decide)
  have hSectHigh := Int.emod_lt_of_pos
    (v.debutSect.toInt + b.toNat) (b := 16) (by decide)
  exact ⟨toNat_toUShort hLow hHigh,
    toNat_toUShort (by omega) (by omega)⟩

namespace Mbr

/-
  `format_vol` seeks the sectors that `cytToSect` finds for
  the blocks 0, ..., n - 1, each once and in this order, and
  formats one sector at each.  No other sector is changed.
-/
theorem formatVol_seeks_blocks
    (K : Controller)
    (mbr : Mbr)
    (vol value : UInt32)
    (v : Volume)
    (s : K.State)
    (hSlot : mbr.volume? vol.toNat = some v)
    (hAddressable : v.Addressable) :
    ∃ addrs : List (Int32 × Int32),
      (addrs.map some =
        (List.range v.nbBlocs.toInt.toNat).map fun b =>
          mbr.cytToSect vol (UInt32.ofNat b)) ∧
      (∀ p ∈ addrs,
        ((sectorAddr p).1.toNat : Int) = p.1.toInt ∧
          ((sectorAddr p).2.toNat : Int) = p.2.toInt) ∧
      (addrs.map sectorAddr).Nodup ∧
      mbr.formatVol vol value s =
        some (K.perform (formatVolOps v value) s) ∧
      (∀ regs,
        received (formatVolOps v value) regs =
          (addrs.map sectorAddr).flatMap
            (formatAt value)) ∧
      ∀ addr,
        (K.view
            (K.perform (formatVolOps v value) s)).sectors
              addr =
          if addr ∈ addrs.map sectorAddr then
            Sector.filled value
          else (K.view s).sectors addr := by
  have hRange := FixedWidth.toInt_range v.nbBlocs
  have hIndex {j : Nat}
      (hj : j ∈ List.range v.nbBlocs.toInt.toNat) :
      (UInt32.ofNat j).toNat = j ∧
        ((UInt32.ofNat j).toNat : Int) <
          v.nbBlocs.toInt := by
    rw [List.mem_range] at hj
    have hSame : (UInt32.ofNat j).toNat = j := by
      rw [UInt32.toNat_ofNat']
      exact Nat.mod_eq_of_lt (by omega)
    exact ⟨hSame, by omega⟩
  let addrs :=
    (List.range v.nbBlocs.toInt.toNat).map fun j =>
      v.locate (UInt32.ofNat j)
  have hTrail :
      addrs.map sectorAddr = formatted v := by
    rw [formatted_eq_locate hAddressable]
    exact List.map_map
  refine ⟨addrs, ?_, ?_, ?_, ?_, ?_, ?_⟩
  · rw [List.map_map]
    apply List.map_congr_left
    intro j _
    exact (cytToSect_eq hSlot _).symm
  · intro p hp
    rcases List.mem_map.mp hp with ⟨j, hj, rfl⟩
    exact hAddressable.sectorAddr_exact (hIndex hj).2
  · rw [List.map_map]
    refine (List.nodup_map_iff_inj_on
      List.nodup_range).mpr ?_
    intro i hi j hj hEq
    have hBlock :=
      hAddressable.sectorAddr_inj (hIndex hi).2
        (hIndex hj).2 hEq
    rw [← (hIndex hi).1, ← (hIndex hj).1, hBlock]
  · unfold formatVol
    rw [hSlot]
    exact congrArg some
      (K.formatLoop_eq_perform value _ _ _ s)
  · intro regs
    rw [hTrail]
    exact received_formatSectorOps value _ _ _ regs
  · intro addr
    rw [hTrail]
    unfold formatVolOps
    rw [← K.formatLoop_eq_perform, K.sectors_formatLoop]
    exact formatLoop_apply value _ _ _ _ addr

/- Five blocks from the last but one sector of a cylinder. -/
theorem formatVol_seeks_blocks_carry :
    ∃ addrs : List (Int32 × Int32),
      (addrs.map some =
        (List.range 5).map fun b =>
          cytToSect
            ⟨1, Vector.replicate 8 ⟨TypeE.base, 0, 14, 5⟩⟩
            0 (UInt32.ofNat b)) ∧
      received (formatVolOps ⟨TypeE.base, 0, 14, 5⟩ 7)
          (fun _ => 0) =
        (addrs.map sectorAddr).flatMap (formatAt 7) := by
  have hCyl : (0 : Int32).toInt = 0 := rfl
  have hSect : (14 : Int32).toInt = 14 := rfl
  have hSize : (5 : Int32).toInt = 5 := rfl
  have hAddressable :
      Volume.Addressable ⟨TypeE.base, 0, 14, 5⟩ := by
    refine ⟨⟨by decide, by decide, by decide⟩, by decide,
      by decide, ?_⟩
    intro b hLow hHigh
    dsimp only at hHigh ⊢
    omega
  rcases formatVol_seeks_blocks Controller.linear
      ⟨1, Vector.replicate 8 ⟨TypeE.base, 0, 14, 5⟩⟩ 0 7
      ⟨TypeE.base, 0, 14, 5⟩ Controller.staleView rfl
      hAddressable with
    ⟨addrs, hAddrs, _, _, _, hReceived, _⟩
  exact ⟨addrs, hAddrs, hReceived _⟩

end Mbr

end AsaKernel
