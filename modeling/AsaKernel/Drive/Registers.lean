import AsaKernel.Drive.Sectors
import AsaKernel.Foundations.FixedWidth

/-
  The functions of drive.c as sequences of port operations,
  and the register protocol of the disk controller.

  The driver never reads a port, so each of its functions is
  the list of operations it performs.  The controller itself
  comes as a compiled library: `Controller` is any machine
  with the observable registers below that obeys the protocol
  the driver relies on.  A transfer of `n` sectors moves the
  sectors `consecutive head 0, ..., consecutive head (n - 1)`;
  which sector follows the last one of a cylinder is left to
  the controller.

  The library obeys the protocol for transfers of one sector
  of the disk.  Beyond them it does not: it transfers one
  sector for a count of 0, has one sector of buffer for all
  the sectors of a transfer, and does not end a seek off the
  disk.

  Main declarations:
    * `PortOp`, `doSeek`, `doRead`, `doWrite`
    * `Controller`
    * `Controller.readSector`, `Controller.writeSector`
-/

------------------------------------------------------------
-- Port Operations of the Driver
------------------------------------------------------------

namespace AsaKernel

/- HDA_CMDREG -/
abbrev hdaCmdReg : Nat := 0x3F6

/- HDA_DATAREGS -/
abbrev hdaDataRegs : Nat := 0x110

/- HDA_IRQ -/
abbrev hdaIrq : Nat := 14

/- CMD_SEEK -/
abbrev cmdSeek : Int32 := 0x02

/- CMD_READ -/
abbrev cmdRead : Int32 := 0x04

/- CMD_WRITE -/
abbrev cmdWrite : Int32 := 0x06

/- CMD_FORMAT -/
abbrev cmdFormat : Int32 := 0x08

/-
  One operation of the driver: `_out(port, value)`,
  `_sleep(irq)`, or the copy of a buffer of one sector to the
  start of MASTERBUFFER.
-/
inductive PortOp where
  | out (port : Nat) (value : Int32)
  | sleep (irq : Nat)
  | toMaster (buffer : Sector)
deriving DecidableEq

/- Issue a command and wait for its interrupt. -/
def issue
    (cmd : Int32) : List PortOp :=
  [.out hdaCmdReg cmd, .sleep hdaIrq]

/- do_seek -/
def doSeek
    (cyl sect : UInt32) : List PortOp :=
  [.out hdaDataRegs ((cyl >>> 8) &&& 0xFF).toInt32,
    .out (hdaDataRegs + 1) (cyl &&& 0xFF).toInt32,
    .out (hdaDataRegs + 2) ((sect >>> 8) &&& 0xFF).toInt32,
    .out (hdaDataRegs + 3) (sect &&& 0xFF).toInt32] ++
  issue cmdSeek

/-
  The common body of `do_read` and `do_write`: the number of
  sectors goes to P0:P1, then the command is issued.
-/
def doTransfer
    (cmd : Int32)
    (nbSec : UInt16) : List PortOp :=
  [.out hdaDataRegs (nbSec.toUInt32 >>> 8).toInt32,
    .out (hdaDataRegs + 1)
      (nbSec.toUInt32 &&& 0xFF).toInt32] ++
  issue cmd

/- do_read -/
def doRead
    (nbSec : UInt16) : List PortOp :=
  doTransfer cmdRead nbSec

/- do_write -/
def doWrite
    (nbSec : UInt16) : List PortOp :=
  doTransfer cmdWrite nbSec

/- The operations of `read_sector` before its final copy. -/
def readSectorOps
    (ncyl nsect : UInt16) : List PortOp :=
  doSeek ncyl.toUInt32 nsect.toUInt32 ++ doRead nsect

/- write_sector -/
def writeSectorOps
    (ncyl nsect : UInt16)
    (buffer : Sector) : List PortOp :=
  doSeek ncyl.toUInt32 nsect.toUInt32 ++
    [.toMaster buffer] ++ doWrite nsect

/-
  The operations of one iteration of `format_sector`: the
  fill value goes to P2..P5 and the count 1 to P0:P1.
-/
def formatOneOps
    (newcyl newsect value : UInt32) : List PortOp :=
  doSeek newcyl newsect ++
  [.out (hdaDataRegs + 2)
      ((value >>> 24) &&& 0xFF).toInt32,
    .out (hdaDataRegs + 3)
      ((value >>> 16) &&& 0xFF).toInt32,
    .out (hdaDataRegs + 4) ((value >>> 8) &&& 0xFF).toInt32,
    .out (hdaDataRegs + 5) (value &&& 0xFF).toInt32,
    .out hdaDataRegs 0,
    .out (hdaDataRegs + 1) 1] ++
  issue cmdFormat

------------------------------------------------------------
-- Observable State of a Controller
------------------------------------------------------------

/- The byte that a register keeps of an `int` value. -/
def lowByte
    (value : Int32) : UInt8 :=
  value.toUInt32.toUInt8

/- Two byte registers read together, high byte first. -/
def word16
    (hi lo : UInt8) : UInt16 :=
  UInt16.ofNat (hi.toNat * 256 + lo.toNat)

/- A 32-bit word sent by its two low bytes arrives mod 2^16. -/
theorem word16_lowByte
    (x : UInt32) :
    word16 (lowByte ((x >>> 8) &&& 0xFF).toInt32)
      (lowByte (x &&& 0xFF).toInt32) = x.toUInt16 := by
  have hMask (y : UInt32) :
      (y &&& (0xFF : UInt32)).toNat = y.toNat % 256 := by
    rw [UInt32.toNat_and]
    exact Nat.and_two_pow_sub_one_eq_mod y.toNat 8
  have hShift : (x >>> 8).toNat = x.toNat / 256 := by
    simp [UInt32.toNat_shiftRight,
      Nat.shiftRight_eq_div_pow]
  apply UInt16.toNat_inj.mp
  simp only [word16, lowByte, UInt32.toUInt32_toInt32,
    UInt32.toNat_toUInt8, hMask, hShift,
    UInt16.toNat_ofNat', UInt32.toNat_toUInt16]
  omega

/- The count sent by `do_read` and `do_write` arrives whole. -/
theorem word16_count
    (n : UInt16) :
    word16 (lowByte (n.toUInt32 >>> 8).toInt32)
      (lowByte (n.toUInt32 &&& 0xFF).toInt32) = n := by
  have hShift :
      (n.toUInt32 >>> 8) &&& (0xFF : UInt32) =
        n.toUInt32 >>> 8 := by
    apply UInt32.toNat_inj.mp
    rw [UInt32.toNat_and]
    refine (Nat.and_two_pow_sub_one_eq_mod _ 8).trans ?_
    apply Nat.mod_eq_of_lt
    have hRange := n.toNat_lt
    simp only [UInt32.toNat_shiftRight,
      UInt16.toNat_toUInt32, Nat.shiftRight_eq_div_pow]
    simp
    omega
  have hWord := word16_lowByte n.toUInt32
  rw [hShift] at hWord
  simpa using hWord

/- What the protocol lets one observe of a controller. -/
structure HdaView where
  sectors : Disk
  head : SectorAddr
  regs : Nat → UInt8
  master : Nat → Sector

namespace HdaView

/- The 16-bit number in the registers `i` and `i + 1`. -/
def word
    (view : HdaView)
    (i : Nat) : UInt16 :=
  word16 (view.regs i) (view.regs (i + 1))

def setReg
    (view : HdaView)
    (i : Nat)
    (value : Int32) : HdaView :=
  { view with
    regs := Function.update view.regs i (lowByte value) }

def setMaster
    (view : HdaView)
    (buffer : Sector) : HdaView :=
  { view with
    master := Function.update view.master 0 buffer }

end HdaView

/-
  Store `n` sectors of `source` one after the other at the
  addresses that `target` lists.
-/
def Disk.transfer
    (disk : Disk)
    (target : Nat → SectorAddr)
    (source : Nat → Sector) :
    Nat → Disk
| 0 => disk
| n + 1 =>
    Function.update (disk.transfer target source n)
      (target n) (source n)

/- The addresses of the sectors that exist on the disk. -/
def SectorAddr.OnDisk
    (addr : SectorAddr) : Prop :=
  addr.1.toNat < hdaMaxCylinder ∧
    addr.2.toNat < hdaMaxSector

------------------------------------------------------------
-- Controllers
------------------------------------------------------------

/-
  A controller that obeys the register protocol.  A command
  takes effect between its issue and the interrupt that
  `_sleep` waits for, so the laws speak of the pair.
-/
structure Controller where
  State : Type
  apply : PortOp → State → State
  view : State → HdaView
  consecutive : SectorAddr → Nat → SectorAddr
  consecutive_zero : ∀ addr, consecutive addr 0 = addr
  consecutive_inj :
    ∀ addr : SectorAddr, addr.OnDisk →
      ∀ i j, i < hdaMaxSector → j < hdaMaxSector →
        consecutive addr i = consecutive addr j → i = j
  view_data :
    ∀ i value s, i < 16 →
      view (apply (.out (hdaDataRegs + i) value) s) =
        (view s).setReg i value
  view_toMaster :
    ∀ buffer s,
      view (apply (.toMaster buffer) s) =
        (view s).setMaster buffer
  view_seek :
    ∀ s,
      view (apply (.sleep hdaIrq)
          (apply (.out hdaCmdReg cmdSeek) s)) =
        { view s with
          head := ((view s).word 0, (view s).word 2) }
  sectors_read :
    ∀ s,
      (view (apply (.sleep hdaIrq)
          (apply (.out hdaCmdReg cmdRead) s))).sectors =
        (view s).sectors
  master_read :
    ∀ s,
      (view (apply (.sleep hdaIrq)
          (apply (.out hdaCmdReg cmdRead) s))).master =
        fun i =>
          if i < ((view s).word 0).toNat then
            (view s).sectors
              (consecutive (view s).head i)
          else (view s).master i
  sectors_write :
    ∀ s,
      (view (apply (.sleep hdaIrq)
          (apply (.out hdaCmdReg cmdWrite) s))).sectors =
        (view s).sectors.transfer
          (consecutive (view s).head)
          (view s).master ((view s).word 0).toNat
  sectors_format :
    ∀ s,
      (view (apply (.sleep hdaIrq)
          (apply (.out hdaCmdReg cmdFormat) s))).sectors =
        (view s).sectors.transfer
          (consecutive (view s).head)
          (fun _ =>
            Sector.pattern ((view s).regs 2)
              ((view s).regs 3) ((view s).regs 4)
              ((view s).regs 5))
          ((view s).word 0).toNat

namespace Controller

variable (K : Controller)

/- Perform the operations of the driver in order. -/
def perform
    (ops : List PortOp)
    (s : K.State) : K.State :=
  ops.foldl (fun s op => K.apply op s) s

@[simp] theorem perform_nil
    (s : K.State) :
    K.perform [] s = s := rfl

@[simp] theorem perform_cons
    (op : PortOp)
    (ops : List PortOp)
    (s : K.State) :
    K.perform (op :: ops) s =
      K.perform ops (K.apply op s) := rfl

theorem perform_append
    (first second : List PortOp)
    (s : K.State) :
    K.perform (first ++ second) s =
      K.perform second (K.perform first s) := by
  simp [perform, List.foldl_append]

/- read_sector -/
def readSector
    (ncyl nsect : UInt16)
    (s : K.State) : Sector × K.State :=
  let s := K.perform (readSectorOps ncyl nsect) s
  ((K.view s).master 0, s)

/- write_sector -/
def writeSector
    (ncyl nsect : UInt16)
    (buffer : Sector)
    (s : K.State) : K.State :=
  K.perform (writeSectorOps ncyl nsect buffer) s

/- The drive that the driver makes of a controller. -/
instance : Drive K.State where
  readSector := K.readSector
  writeSector := K.writeSector
  formatOne cylinder sector value s :=
    K.perform (formatOneOps cylinder sector value) s

/- The first data register, which is written without `+ 0`. -/
theorem view_firstData
    (value : Int32)
    (s : K.State) :
    K.view (K.apply (.out hdaDataRegs value) s) =
      (K.view s).setReg 0 value :=
  K.view_data 0 value s (by decide)

/- A seek leaves the head on the addressed sector. -/
theorem view_doSeek
    (cyl sect : UInt32)
    (s : K.State) :
    let after := K.view (K.perform (doSeek cyl sect) s)
    after.sectors = (K.view s).sectors ∧
      after.master = (K.view s).master ∧
      after.head = (cyl.toUInt16, sect.toUInt16) := by
  simp only [doSeek, issue, List.cons_append,
    List.nil_append, perform_cons, perform_nil, view_seek]
  simpa [view_firstData, view_data, HdaView.setReg, HdaView.word]
    using ⟨word16_lowByte cyl, word16_lowByte sect⟩

/- The registers hold the count when the command is issued. -/
theorem view_count
    (nbSec : UInt16)
    (s : K.State) :
    let ready :=
      K.view (K.perform
        [.out hdaDataRegs (nbSec.toUInt32 >>> 8).toInt32,
          .out (hdaDataRegs + 1)
            (nbSec.toUInt32 &&& 0xFF).toInt32] s)
    ready.sectors = (K.view s).sectors ∧
      ready.master = (K.view s).master ∧
      ready.head = (K.view s).head ∧
      ready.word 0 = nbSec := by
  simpa [view_firstData, view_data, HdaView.setReg, HdaView.word]
    using word16_count nbSec

end Controller

end AsaKernel
