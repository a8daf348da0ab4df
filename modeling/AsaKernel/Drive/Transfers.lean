import AsaKernel.Drive.Registers

/-
  Transfers of one sector through the driver.

  `read_sector` and `write_sector` send their sector number
  where `do_read` and `do_write` expect a number of sectors,
  so an access to sector `s` transfers `s` sectors.

  Main declarations:
    * `Controller.sectors_writeSector`
    * `Controller.readSector_eq`
    * `Controller.SingleSector`, `Controller.Harmless`
    * `Controller.singleSector_iff`
-/

------------------------------------------------------------
-- Runs of Sectors
------------------------------------------------------------

namespace AsaKernel

namespace Disk

variable (disk : Disk)
variable {target : Nat → SectorAddr}
variable (source : Nat → Sector)
variable {n : Nat}

theorem transfer_of_ne
    {addr : SectorAddr}
    (hNe : ∀ i < n, target i ≠ addr) :
    disk.transfer target source n addr = disk addr := by
  induction n with
  | zero => rfl
  | succ n ih =>
      have hLast : addr ≠ target n :=
        (hNe n (by omega)).symm
      rw [transfer, Function.update_of_ne hLast]
      exact ih fun i hi => hNe i (by omega)

theorem transfer_target
    (hInj :
      ∀ i < n, ∀ j < n, target i = target j → i = j)
    {i : Nat}
    (hi : i < n) :
    disk.transfer target source n (target i) =
      source i := by
  induction n with
  | zero => omega
  | succ n ih =>
      unfold transfer
      by_cases hLast : i = n
      · rw [hLast, Function.update_self]
      · have hNe : target i ≠ target n := fun hEq =>
          hLast (hInj i hi n (by omega) hEq)
        rw [Function.update_of_ne hNe]
        exact ih
          (fun j hj k hk =>
            hInj j (by omega) k (by omega))
          (by omega)

/-
  A run that starts with one new sector and otherwise rewrites
  what is already there is the write of that sector alone.
-/
theorem transfer_eq_update_iff
    (hInj :
      ∀ i < n, ∀ j < n, target i = target j → i = j)
    (hPos : 0 < n) :
    disk.transfer target source n =
        Function.update disk (target 0) (source 0) ↔
      ∀ i, 1 ≤ i → i < n →
        disk (target i) = source i := by
  constructor
  · intro hEq i hLow hHigh
    have hNe : target i ≠ target 0 := fun hSame =>
      absurd (hInj i hHigh 0 hPos hSame) (by omega)
    have hAt := congrFun hEq (target i)
    rw [disk.transfer_target source hInj hHigh,
      Function.update_of_ne hNe] at hAt
    exact hAt.symm
  · intro hSame
    funext addr
    by_cases hHit : ∃ i < n, target i = addr
    · rcases hHit with ⟨i, hi, rfl⟩
      rw [disk.transfer_target source hInj hi]
      by_cases hFirst : i = 0
      · rw [hFirst, Function.update_self]
      · have hNe : target i ≠ target 0 := fun hEq =>
          hFirst (hInj i hi 0 hPos hEq)
        rw [Function.update_of_ne hNe]
        exact (hSame i (by omega) hi).symm
    · have hNe : ∀ i < n, target i ≠ addr :=
        fun i hi hEq => hHit ⟨i, hi, hEq⟩
      rw [disk.transfer_of_ne source hNe,
        Function.update_of_ne (hNe 0 hPos).symm]

end Disk

------------------------------------------------------------
-- Effect of the Driver Functions
------------------------------------------------------------

namespace Controller

variable (K : Controller)
variable (ncyl nsect : UInt16)
variable (buffer : Sector)
variable (s : K.State)

/- `write_sector` stores `nsect` sectors of MASTERBUFFER. -/
theorem sectors_writeSector :
    (K.view (K.writeSector ncyl nsect buffer s)).sectors =
      (K.view s).sectors.transfer
        (K.consecutive (ncyl, nsect))
        (Function.update (K.view s).master 0 buffer)
        nsect.toNat := by
  rcases K.view_doSeek ncyl.toUInt32 nsect.toUInt32 s with
    ⟨hSectors, hMaster, hHead⟩
  simp only [writeSector, writeSectorOps, doWrite,
    doTransfer, issue, perform_append]
  generalize
    K.perform (doSeek ncyl.toUInt32 nsect.toUInt32) s =
      sought at *
  rcases K.view_count nsect
      (K.perform [.toMaster buffer] sought) with
    ⟨hSectors', hMaster', hHead', hCount⟩
  simp only [perform_cons, perform_nil, view_toMaster,
    HdaView.setMaster] at hSectors' hMaster' hHead' hCount ⊢
  rw [K.sectors_write, hSectors', hMaster', hHead', hCount,
    hSectors, hMaster, hHead]
  simp

/-
  `read_sector` changes nothing on the disk and returns the
  addressed sector, unless its number is 0: then no sector is
  transferred and the old MASTERBUFFER is returned.
-/
theorem readSector_eq :
    (K.readSector ncyl nsect s).1 =
        (if nsect = 0 then (K.view s).master 0
          else (K.view s).sectors (ncyl, nsect)) ∧
      (K.view (K.readSector ncyl nsect s).2).sectors =
        (K.view s).sectors := by
  rcases K.view_doSeek ncyl.toUInt32 nsect.toUInt32 s with
    ⟨hSectors, hMaster, hHead⟩
  simp only [readSector, readSectorOps, doRead,
    doTransfer, issue, perform_append]
  generalize
    K.perform (doSeek ncyl.toUInt32 nsect.toUInt32) s =
      sought at *
  rcases K.view_count nsect sought with
    ⟨hSectors', hMaster', hHead', hCount⟩
  simp only [perform_cons, perform_nil]
    at hSectors' hMaster' hHead' hCount ⊢
  rw [K.sectors_read, K.master_read, hSectors', hMaster',
    hHead', hCount, hSectors, hMaster, hHead]
  refine ⟨?_, rfl⟩
  have hZero : nsect = 0 ↔ nsect.toNat = 0 := by
    rw [← UInt16.toNat_inj]
    simp
  by_cases hSector : nsect.toNat = 0
  · simp [hZero, hSector]
  · have hPos : 0 < nsect.toNat := by omega
    simp [hZero, hSector, hPos, K.consecutive_zero]

------------------------------------------------------------
-- The Single-Sector Contract
------------------------------------------------------------

/-
  Both functions act on the addressed sector alone:
  `write_sector` sets it and changes no other one,
  `read_sector` returns it and changes nothing on the disk.
-/
def SingleSector : Prop :=
  (K.view (K.writeSector ncyl nsect buffer s)).sectors =
      Function.update (K.view s).sectors (ncyl, nsect)
        buffer ∧
    (K.readSector ncyl nsect s).1 =
      (K.view s).sectors (ncyl, nsect) ∧
    (K.view (K.readSector ncyl nsect s).2).sectors =
      (K.view s).sectors

/-
  What the miscounted transfers leave out or do in excess
  makes no difference: with sector number 0 both the buffer
  to write and MASTERBUFFER already equal the sector, and the
  further sectors that a larger number covers already hold
  the rest of MASTERBUFFER.
-/
def Harmless : Prop :=
  (nsect = 0 →
    (K.view s).sectors (ncyl, nsect) = buffer ∧
      (K.view s).sectors (ncyl, nsect) =
        (K.view s).master 0) ∧
  ∀ i, 1 ≤ i → i < nsect.toNat →
    (K.view s).sectors (K.consecutive (ncyl, nsect) i) =
      (K.view s).master i

/- The contract holds exactly when the miscount is harmless. -/
theorem singleSector_iff
    (hCyl : ncyl.toNat < hdaMaxCylinder)
    (hSect : nsect.toNat < hdaMaxSector) :
    K.SingleSector ncyl nsect buffer s ↔
      K.Harmless ncyl nsect buffer s := by
  rcases K.readSector_eq ncyl nsect s with ⟨hRead, hKept⟩
  simp only [SingleSector, Harmless, hRead, hKept,
    K.sectors_writeSector, and_true]
  by_cases hZero : nsect = 0
  · -- No sector is transferred in either direction.
    subst hZero
    have hWrite :
        (K.view s).sectors.transfer
            (K.consecutive (ncyl, 0))
            (Function.update (K.view s).master 0 buffer)
            (0 : UInt16).toNat =
          (K.view s).sectors := rfl
    have hNone :
        ∀ i, 1 ≤ i → i < (0 : UInt16).toNat →
          (K.view s).sectors (K.consecutive (ncyl, 0) i) =
            (K.view s).master i := by
      intro i hLow hHigh
      exact absurd hHigh (by simp)
    rw [hWrite, if_pos rfl]
    constructor
    · rintro ⟨hUpdate, hMaster⟩
      have hBuffer := congrFun hUpdate (ncyl, 0)
      rw [Function.update_self] at hBuffer
      exact ⟨fun _ => ⟨hBuffer, hMaster.symm⟩, hNone⟩
    · rintro ⟨hSame, _⟩
      rcases hSame rfl with ⟨hBuffer, hMaster⟩
      refine ⟨?_, hMaster.symm⟩
      rw [← hBuffer, Function.update_eq_self]
  · have hPos : 0 < nsect.toNat := by
      have hNe : nsect.toNat ≠ 0 := fun hEq =>
        hZero (UInt16.toNat_inj.mp hEq)
      omega
    have hInj :
        ∀ i < nsect.toNat, ∀ j < nsect.toNat,
          K.consecutive (ncyl, nsect) i =
              K.consecutive (ncyl, nsect) j → i = j := by
      intro i hi j hj
      exact K.consecutive_inj (ncyl, nsect)
        ⟨hCyl, hSect⟩ i j (hi.trans hSect) (hj.trans hSect)
    have hRun :=
      (K.view s).sectors.transfer_eq_update_iff
        (Function.update (K.view s).master 0 buffer)
        hInj hPos
    rw [K.consecutive_zero, Function.update_self] at hRun
    simp only [hRun, hZero, if_false, false_implies,
      true_and, and_true]
    apply forall_congr'
    intro i
    apply imp_congr_right
    intro hLow
    rw [Function.update_of_ne (by omega)]

------------------------------------------------------------
-- A Concrete Controller
------------------------------------------------------------

/- The sectors of the disk in linear order. -/
def linearSector
    (addr : SectorAddr)
    (i : Nat) : SectorAddr :=
  if i = 0 then addr
  else
    let lin :=
      addr.1.toNat * hdaMaxSector + addr.2.toNat + i
    (UInt16.ofNat (lin / hdaMaxSector),
      UInt16.ofNat (lin % hdaMaxSector))

theorem linearSector_inj
    (addr : SectorAddr)
    (hAddr : addr.OnDisk)
    (i j : Nat)
    (hi : i < hdaMaxSector)
    (hj : j < hdaMaxSector)
    (hEq : linearSector addr i = linearSector addr j) :
    i = j := by
  rcases addr with ⟨c, s⟩
  rcases hAddr with ⟨hc, hs⟩
  simp only [hdaMaxCylinder, hdaMaxSector]
    at hc hs hi hj
  -- On the disk the linear number determines the address.
  have hLinear (k : Nat) (hk : k < 16) :
      (linearSector (c, s) k).1.toNat * 16 +
          (linearSector (c, s) k).2.toNat =
        c.toNat * 16 + s.toNat + k := by
    by_cases hZero : k = 0
    · simp [linearSector, hZero]
    · simp only [linearSector, hZero, if_false,
        hdaMaxSector, UInt16.toNat_ofNat']
      omega
  have hLeft := hLinear i hi
  rw [hEq, hLinear j hj] at hLeft
  omega

/- The effect of a command register write on the state. -/
def command
    (view : HdaView)
    (cmd : Int32) : HdaView :=
  if cmd = cmdSeek then
    { view with head := (view.word 0, view.word 2) }
  else if cmd = cmdRead then
    { view with
      master := fun i =>
        if i < (view.word 0).toNat then
          view.sectors (linearSector view.head i)
        else view.master i }
  else if cmd = cmdWrite then
    { view with
      sectors :=
        view.sectors.transfer (linearSector view.head)
          view.master (view.word 0).toNat }
  else if cmd = cmdFormat then
    { view with
      sectors :=
        view.sectors.transfer (linearSector view.head)
          (fun _ =>
            Sector.pattern (view.regs 2) (view.regs 3)
              (view.regs 4) (view.regs 5))
          (view.word 0).toNat }
  else view

/-
  A controller whose state is what can be observed of it and
  whose commands take effect at once.
-/
def linear : Controller where
  State := HdaView
  apply
    | .out port value, view =>
        if port = hdaCmdReg then command view value
        else view.setReg (port - hdaDataRegs) value
    | .sleep _, view => view
    | .toMaster buffer, view => view.setMaster buffer
  view := id
  consecutive := linearSector
  consecutive_zero _ := if_pos rfl
  consecutive_inj := linearSector_inj
  view_data i value view hi := by
    have hPort : hdaDataRegs + i ≠ hdaCmdReg := by
      simp only [hdaDataRegs, hdaCmdReg]
      omega
    simp only [if_neg hPort, Nat.add_sub_cancel_left, id]
  view_toMaster _ _ := rfl
  view_seek _ := rfl
  sectors_read _ := rfl
  master_read _ := rfl
  sectors_write _ := rfl
  sectors_format _ := rfl

/- A zeroed disk, with another pattern left in MASTERBUFFER. -/
def staleView : HdaView where
  sectors _ := Sector.filled 0
  head := (0, 0)
  regs _ := 0
  master _ := Sector.filled 7

theorem singleSector_iff_linear :
    ((0 : UInt16).toNat < hdaMaxCylinder ∧
        (1 : UInt16).toNat < hdaMaxSector) ∧
      (linear.SingleSector 0 1 (Sector.filled 0)
          staleView ↔
        linear.Harmless 0 1 (Sector.filled 0) staleView) :=
  ⟨by decide,
    linear.singleSector_iff 0 1 (Sector.filled 0) staleView
      (by decide) (by decide)⟩

/- Writing sector (0,2) overwrites sector (0,3) as well. -/
theorem writeSector_overruns :
    ¬ linear.SingleSector 0 2 (Sector.filled 1)
      staleView := by
  rintro ⟨hWrite, _⟩
  have hNext := congrFun hWrite (linearSector (0, 2) 1)
  have hEffect :=
    congrFun
      (linear.sectors_writeSector 0 2 (Sector.filled 1)
        staleView)
      (linearSector (0, 2) 1)
  have hStored :
      staleView.sectors.transfer (linearSector (0, 2))
          (Function.update staleView.master 0
            (Sector.filled 1))
          2 (linearSector (0, 2) 1) =
        Sector.filled 7 := by
    rw [Disk.transfer, Function.update_self]
    rfl
  have hKept :
      Function.update staleView.sectors (0, 2)
          (Sector.filled 1) (linearSector (0, 2) 1) =
        Sector.filled 0 :=
    Function.update_of_ne (by decide) _ _
  have hSame : Sector.filled 7 = Sector.filled 0 :=
    hStored.symm.trans
      (hEffect.symm.trans (hNext.trans hKept))
  exact absurd hSame (by decide)

end Controller

end AsaKernel
