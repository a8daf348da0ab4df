import AsaKernel.Vm.Saving
import AsaKernel.Volume.Deletion

/-
  The indices with which the commands access the array
  `mbr->volumes`, for any table that the disk may hold.

  The count of volumes comes from a sector that may never have
  been written, and nothing compares it with the size of the
  array.  `Command.Accesses` lists the indices that the source
  computes; a command that nothing else stops runs to its end
  exactly when all of them are indices of the array.

  Main declarations:
    * `Command.Accesses`, `Command.InBounds`
    * `Command.Unhindered`, `Command.exec_isSome_iff`
    * `Command.Bounded`, `Command.inBounds_iff`
    * `Session.in_bounds_in_every_run_iff`
    * `Session.carried_out_in_every_run_iff`
-/

------------------------------------------------------------
-- Indices
------------------------------------------------------------

namespace AsaKernel

open Transition

variable {δ : Type} [Drive δ]

namespace Command

/-
  The command accesses `mbr->volumes[i]`, directly or in a
  function that it calls.  The block functions take the number
  of the volume as an unsigned word.
-/
def Accesses
    (s : Session δ)
    (i : Int) : Command → Prop
| .list => 0 ≤ i ∧ i < s.mbr.count.toInt
| .read vol _ => i = vol.toUInt32.toNat
| .write vol _ _ => i = vol.toUInt32.toNat
| .format vol _ => i = vol.toUInt32.toNat
| .loadVol choice => i = choice.toUInt32.toNat
| .saveVol =>
    s.currentSuperbloc.isSome ∧
      i = s.currentVol.toUInt32.toNat
| .delVol _ =>
    s.currentSuperbloc.isSome ∧ i = s.currentVol.toInt
| .new _ =>
    s.mbr.count.toInt < 8 ∧
      (s.mbr.count ≠ 0 ∧ i = (s.mbr.count - 1).toInt ∨
        s.mbr.count ≠ 0 ∧
          i = (s.mbr.count - 1).toUInt32.toNat ∨
        i = s.mbr.count.toInt)
| .del vol =>
    0 < s.mbr.count.toInt ∧
      ∃ j, (vol + 1).toInt ≤ j ∧ j < s.mbr.count.toInt ∧
        (i = j ∨ i = j - 1)
| .listVol | .newVol | .save => False

/- Every index is one of the array. -/
def InBounds
    (s : Session δ)
    (cmd : Command) : Prop :=
  ∀ i, cmd.Accesses s i → 0 ≤ i ∧ i < 8

end Command

/- The unsigned reading of an index of the array. -/
theorem toUInt32_lt_eight
    {vol : Int32} :
    ((vol.toUInt32.toNat : Int) < 8) ↔
      0 ≤ vol.toInt ∧ vol.toInt < 8 := by
  have hValue := FixedWidth.toNat_toUInt32 vol
  have hRange := FixedWidth.toInt_range vol
  omega

------------------------------------------------------------
-- Accesses to the Array
------------------------------------------------------------

namespace Mbr

variable {mbr : Mbr}

theorem setVolume?_isSome_iff
    {i : Int}
    {v : Volume} :
    (mbr.setVolume? i v).isSome ↔ 0 ≤ i ∧ i < 8 := by
  unfold setVolume?
  split
  · next hBounds =>
      refine iff_of_true rfl ?_
      omega
  · next hOutside =>
      refine iff_of_false Bool.false_ne_true ?_
      omega

/- The block functions access the entry of their volume. -/
theorem cytToSect_isSome_iff
    (mbr : Mbr)
    (vol b : UInt32) :
    (mbr.cytToSect vol b).isSome ↔ (vol.toNat : Int) < 8 := by
  have hEntry :
      (mbr.volume? vol.toNat).isSome ↔
        (vol.toNat : Int) < 8 := by
    rw [volume?_isSome_iff]
    omega
  rw [← hEntry, cytToSect]
  cases mbr.volume? vol.toNat with
  | none => exact Iff.rfl
  | some v => exact Iff.rfl

/- A shift stays inside if it starts behind entry 0. -/
theorem shiftLoop_isSome_iff
    (k : Nat)
    (vol : Int32)
    (mbr : Mbr) :
    (shiftLoop k vol mbr).isSome ↔
      k = 0 ∨ 1 ≤ vol.toInt ∧ vol.toInt + k ≤ 8 := by
  induction k generalizing vol mbr with
  | zero => exact iff_of_true rfl (Or.inl rfl)
  | succ k ih =>
      by_cases hStart : vol.toInt ≤ 0
      · rw [shiftLoop_outside hStart k]
        refine iff_of_false Bool.false_ne_true ?_
        omega
      by_cases hEnd : 8 ≤ vol.toInt
      · have hNone : mbr.volume? vol.toInt = none := by
          rw [← Option.not_isSome_iff_eq_none,
            volume?_isSome_iff]
          omega
        unfold shiftLoop
        rw [hNone]
        refine iff_of_false Bool.false_ne_true ?_
        omega
      · -- The entry is copied, and the shift goes on.
        have hOne : (1 : Int32).toInt = 1 := rfl
        have hNext : (vol + 1).toInt = vol.toInt + 1 := by
          rw [FixedWidth.toInt_add] <;> rw [hOne]
          all_goals omega
        have hPrev : (vol - 1).toInt = vol.toInt - 1 := by
          rw [FixedWidth.toInt_sub] <;> rw [hOne]
          all_goals omega
        have hRead : (mbr.volume? vol.toInt).isSome := by
          rw [volume?_isSome_iff]
          omega
        rcases Option.isSome_iff_exists.mp hRead with
          ⟨tmpPart, hTmp⟩
        have hWrite :
            (mbr.setVolume? (vol - 1).toInt
              tmpPart).isSome := by
          rw [setVolume?_isSome_iff]
          omega
        rcases Option.isSome_iff_exists.mp hWrite with
          ⟨mid, hMid⟩
        have hRest := ih (vol + 1) mid
        unfold shiftLoop
        simp only [hTmp, hMid, Option.bind_eq_bind,
          Option.bind_some, hRest]
        omega

/- The start of a volume that fits behind the others. -/
theorem nextCylSect_isSome
    (hLow : 0 ≤ mbr.count.toInt)
    (hHigh : mbr.count.toInt < 8) :
    mbr.nextCylSect.isSome := by
  unfold nextCylSect
  by_cases hFilled : mbr.count ≠ 0
  · rw [if_pos hFilled]
    have hPos : mbr.count.toInt ≠ 0 := fun hZero =>
      hFilled (Int32.toInt_inj.mp hZero)
    have hOne : (1 : Int32).toInt = 1 := rfl
    have hPred :
        (mbr.count - 1).toInt = mbr.count.toInt - 1 := by
      rw [FixedWidth.toInt_sub] <;> rw [hOne]
      all_goals omega
    have hUnsigned :=
      FixedWidth.toNat_toUInt32_of_nonneg
        (x := mbr.count - 1) (by omega)
    have hRead :
        (mbr.volume? (mbr.count - 1).toInt).isSome := by
      rw [volume?_isSome_iff]
      omega
    rcases Option.isSome_iff_exists.mp hRead with
      ⟨lastPart, hLast⟩
    rw [hLast, Option.bind_eq_bind, Option.bind_some,
      cytToSect_isSome_iff]
    omega
  · rw [if_neg hFilled]
    rfl

/- `new` fails on a table with a negative count. -/
theorem new_isSome_iff
    {nbloc : Int32} :
    (mbr.new nbloc).isSome ↔ 0 ≤ mbr.count.toInt := by
  have hEight : (8 : Int32).toInt = 8 := rfl
  unfold new
  by_cases hFull : 8 ≤ mbr.count
  · rw [if_pos hFull]
    rw [Int32.le_iff_toInt_le, hEight] at hFull
    refine iff_of_true rfl ?_
    omega
  rw [if_neg hFull]
  rw [Int32.le_iff_toInt_le, hEight] at hFull
  by_cases hNegative : mbr.count.toInt < 0
  · have hSet :
        ∀ v, mbr.setVolume? mbr.count.toInt v = none := by
      intro v
      rw [← Option.not_isSome_iff_eq_none,
        setVolume?_isSome_iff]
      omega
    refine iff_of_false ?_ (by omega)
    cases mbr.nextCylSect with
    | none => exact Bool.false_ne_true
    | some cylSect =>
        simp only [hSet, Option.bind_eq_bind,
          Option.bind_some, Option.bind_none]
        exact Bool.false_ne_true
  · have hNext :=
      mbr.nextCylSect_isSome (by omega) (by omega)
    rcases Option.isSome_iff_exists.mp hNext with
      ⟨cylSect, hStart⟩
    have hWrite :
        (mbr.setVolume? mbr.count.toInt
          { type := TypeE.base
            debutCyl := cylSect.1
            debutSect := cylSect.2
            nbBlocs := nbloc }).isSome := by
      rw [setVolume?_isSome_iff]
      omega
    rcases Option.isSome_iff_exists.mp hWrite with
      ⟨mid, hMid⟩
    refine iff_of_true ?_ (by omega)
    simp only [hStart, hMid, Option.bind_eq_bind,
      Option.bind_some, Option.isSome_some]

/- `del` shifts the entries behind the answer, if any. -/
theorem del_isSome_iff
    {vol : Int32} :
    (mbr.del vol).isSome ↔
      mbr.count.toInt ≤ 0 ∨
        mbr.count.toInt ≤ (vol + 1).toInt ∨
        1 ≤ (vol + 1).toInt ∧ mbr.count.toInt ≤ 8 := by
  have hZero : (0 : Int32).toInt = 0 := rfl
  unfold del
  by_cases hEmpty : mbr.count ≤ 0
  · rw [if_pos hEmpty]
    rw [Int32.le_iff_toInt_le, hZero] at hEmpty
    exact iff_of_true rfl (Or.inl hEmpty)
  rw [if_neg hEmpty]
  rw [Int32.le_iff_toInt_le, hZero] at hEmpty
  have hShift :
      (shiftLoop
          (mbr.count.toInt - (vol + 1).toInt).toNat (vol + 1)
          mbr).isSome ↔
        mbr.count.toInt ≤ (vol + 1).toInt ∨
          1 ≤ (vol + 1).toInt ∧ mbr.count.toInt ≤ 8 := by
    rw [shiftLoop_isSome_iff]
    omega
  rw [or_iff_right hEmpty, ← hShift]
  dsimp only
  cases shiftLoop
      (mbr.count.toInt - (vol + 1).toInt).toNat (vol + 1)
      mbr with
  | none => exact Iff.rfl
  | some mid => exact Iff.rfl

end Mbr

------------------------------------------------------------
-- The Exact Condition
------------------------------------------------------------

namespace Command

variable {libc : Libc} {s t : Session δ}

/-
  The numbers that make the command stay inside the array, in
  terms of the count of volumes and of the typed number.
-/
def Bounded
    (s : Session δ) : Command → Prop
| .list => s.mbr.count.toInt ≤ 8
| .read vol _ => 0 ≤ vol.toInt ∧ vol.toInt < 8
| .write vol _ _ => 0 ≤ vol.toInt ∧ vol.toInt < 8
| .format vol _ => 0 ≤ vol.toInt ∧ vol.toInt < 8
| .loadVol choice => 0 ≤ choice.toInt ∧ choice.toInt < 8
| .new _ => 0 ≤ s.mbr.count.toInt
| .del vol =>
    s.mbr.count.toInt ≤ 0 ∨
      s.mbr.count.toInt ≤ (vol + 1).toInt ∨
      1 ≤ (vol + 1).toInt ∧ s.mbr.count.toInt ≤ 8
| .saveVol | .listVol | .newVol | .delVol _ | .save => True

instance (s : Session δ) (cmd : Command) :
    Decidable (cmd.Bounded s) :=
  match cmd with
  | .list | .new _ => inferInstanceAs (Decidable (_ ≤ _))
  | .read _ _ | .write _ _ _ | .format _ _ | .loadVol _ =>
      inferInstanceAs (Decidable (_ ∧ _))
  | .del _ => inferInstanceAs (Decidable (_ ∨ _ ∨ _ ∧ _))
  | .saveVol | .listVol | .newVol | .delVol _ | .save =>
      isTrue trivial

omit [Drive δ] in
theorem inBounds_iff_of_index
    {cmd : Command}
    {vol : Int32}
    (hIndex :
      ∀ i, cmd.Accesses s i ↔ i = vol.toUInt32.toNat) :
    cmd.InBounds s ↔ 0 ≤ vol.toInt ∧ vol.toInt < 8 := by
  rw [← toUInt32_lt_eight]
  constructor
  · intro hBounds
    exact (hBounds _ ((hIndex _).mpr rfl)).2
  · intro hVol i hAccess
    have hValue := (hIndex i).mp hAccess
    omega

omit [Drive δ] in
theorem inBounds_list_iff :
    Command.list.InBounds s ↔ s.mbr.count.toInt ≤ 8 := by
  constructor
  · intro hBounds
    by_contra hNot
    have hNinth := hBounds 8 ⟨by omega, by omega⟩
    omega
  · rintro hCount i ⟨hLow, hHigh⟩
    omega

omit [Drive δ] in
theorem inBounds_new_iff
    {nbloc : Int32} :
    (Command.new nbloc).InBounds s ↔
      0 ≤ s.mbr.count.toInt := by
  have hOne : (1 : Int32).toInt = 1 := rfl
  constructor
  · intro hBounds
    by_contra hNegative
    have hRoom : s.mbr.count.toInt < 8 := by omega
    have hLast :=
      hBounds s.mbr.count.toInt
        ⟨hRoom, Or.inr (Or.inr rfl)⟩
    omega
  · rintro hCount i ⟨hRoom, hIndex⟩
    by_cases hEmpty : s.mbr.count = 0
    · rcases hIndex with ⟨hNe, _⟩ | ⟨hNe, _⟩ | rfl
      · exact absurd hEmpty hNe
      · exact absurd hEmpty hNe
      · omega
    · have hPos : s.mbr.count.toInt ≠ 0 := by
        intro hZero
        apply hEmpty
        apply Int32.toInt_inj.mp
        rw [hZero]
        rfl
      have hPred :
          (s.mbr.count - 1).toInt =
            s.mbr.count.toInt - 1 := by
        rw [FixedWidth.toInt_sub] <;> rw [hOne]
        all_goals omega
      have hUnsigned :=
        FixedWidth.toNat_toUInt32_of_nonneg
          (x := s.mbr.count - 1) (by omega)
      omega

omit [Drive δ] in
theorem inBounds_del_iff
    {vol : Int32} :
    (Command.del vol).InBounds s ↔
      (Command.del vol).Bounded s := by
  constructor
  · intro hBounds
    by_contra hNot
    simp only [Bounded, not_or, not_and] at hNot
    rcases hNot with ⟨hFilled, hShift, hEnds⟩
    have hFirst :=
      hBounds ((vol + 1).toInt - 1)
        ⟨by omega, (vol + 1).toInt, by omega, by omega,
          Or.inr rfl⟩
    have hLast :=
      hBounds (s.mbr.count.toInt - 1)
        ⟨by omega, s.mbr.count.toInt - 1, by omega,
          by omega, Or.inl rfl⟩
    omega
  · rintro hBounded i ⟨hFilled, j, hLow, hHigh, hIndex⟩
    unfold Bounded at hBounded
    omega

/- The numbers decide whether a command leaves the array. -/
omit [Drive δ] in
theorem inBounds_iff
    (hAnchored : s.Anchored)
    (cmd : Command) :
    cmd.InBounds s ↔ cmd.Bounded s := by
  cases cmd with
  | list => exact inBounds_list_iff
  | read vol bloc =>
      exact inBounds_iff_of_index fun _ => Iff.rfl
  | write vol bloc word =>
      exact inBounds_iff_of_index fun _ => Iff.rfl
  | format vol value =>
      exact inBounds_iff_of_index fun _ => Iff.rfl
  | loadVol choice =>
      exact inBounds_iff_of_index fun _ => Iff.rfl
  | new nbloc => exact inBounds_new_iff
  | del vol => exact inBounds_del_iff
  | saveVol =>
      refine iff_of_true ?_ trivial
      rintro i ⟨hLoaded, hIndex⟩
      have hSlot :=
        Mbr.volume?_isSome_iff.mp (hAnchored hLoaded)
      have hValue := toUInt32_lt_eight.mpr hSlot
      omega
  | delVol choice =>
      refine iff_of_true ?_ trivial
      rintro i ⟨hLoaded, rfl⟩
      exact Mbr.volume?_isSome_iff.mp (hAnchored hLoaded)
  | listVol | newVol | save =>
      exact iff_of_true (fun _ hAccess => hAccess.elim)
        trivial

------------------------------------------------------------
-- Commands That Are Carried Out
------------------------------------------------------------

/-
  Nothing but an access to the array stops the command: the
  word fits into the buffer, what is saved is loaded, the list
  in memory ends where it is followed, and memory is left.
-/
def Unhindered
    (libc : Libc)
    (s : Session δ) : Command → Prop
| .write _ _ word => word.length < hdaSectorSize
| .loadVol choice =>
    ∀ v ∈ s.mbr.volume? choice.toInt,
      s.heap.size + max v.nbBlocs.toInt 2 ≤
        libc.nodes.capacity
| .saveVol => s.currentSuperbloc.isSome
| .listVol => s.displayCurrentVol.isSome
| .newVol => s.newBloc.isSome
| .delVol choice =>
    s.heap.size < libc.nodes.capacity ∧
      ∀ sb ∈ s.currentSuperbloc,
        (Session.isListed s.heap choice.toUInt32
          (s.heap.size + 1) sb.first).isSome
| .list | .read _ _ | .format _ _ | .new _ | .del _
| .save => True

/- The block functions need the entry of their volume. -/
omit [Drive δ] in
theorem inBounds_iff_cytToSect
    {cmd : Command}
    {vol : Int32}
    (hIndex :
      ∀ i, cmd.Accesses s i ↔ i = vol.toUInt32.toNat)
    (b : UInt32) :
    cmd.InBounds s ↔
      (s.mbr.cytToSect vol.toUInt32 b).isSome := by
  rw [Mbr.cytToSect_isSome_iff, toUInt32_lt_eight]
  exact inBounds_iff_of_index hIndex

/- A load needs the first block, and memory for a list. -/
theorem loadVol_isSome_iff
    {choice : Int32}
    (hFree : (Command.loadVol choice).Unhindered libc s) :
    (s.loadVol libc choice).isSome ↔
      (s.mbr.cytToSect choice.toUInt32 0).isSome := by
  constructor
  · intro hLoad
    rcases Option.isSome_iff_exists.mp hLoad with
      ⟨after, hAfter⟩
    rcases Session.loadVol_cases hAfter with
      ⟨_, _, hRead, _⟩
    rcases Option.bind_eq_some_iff.mp hRead with
      ⟨p, hAddr, _⟩
    exact Option.isSome_iff_exists.mpr ⟨p, hAddr⟩
  intro hAddr
  rcases Option.isSome_iff_exists.mp hAddr with ⟨p, hp⟩
  rcases Option.bind_eq_some_iff.mp hp with ⟨v, hSlot, _⟩
  have hRead :
      ∃ image dev,
        s.mbr.readBloc choice.toUInt32 0 s.dev =
          some (image, dev) :=
    ⟨_, _, by rw [Mbr.readBloc, hp]; rfl⟩
  rcases hRead with ⟨image, dev, hRead⟩
  have hRoom := hFree v (by
    rw [← Mbr.volume?_toUInt32]
    exact hSlot)
  by_cases hMagic :
      (Superbloc.layout.decode image.toList).magic ≠
        magicNumber
  · have hInit :
        ∃ init, Session.initVolume libc choice.toUInt32
          { s with
            currentSuperbloc :=
              some (Superbloc.layout.decode image.toList)
            heap := s.heap.scratch.scratch
            dev := dev } = some init := by
      apply Session.initVolume_defined
      · exact hSlot
      · exact hRoom
    rcases hInit with ⟨init, hInit⟩
    simp only [Session.loadVol, Session.loadSuper, hRead,
      if_pos hMagic, hInit, Option.bind_eq_bind,
      Option.bind_some, Option.isSome_some]
  · simp only [Session.loadVol, Session.loadSuper, hRead,
      if_neg hMagic, Option.bind_eq_bind, Option.bind_some,
      Option.isSome_some]

/- A save needs the first block of the loaded volume. -/
theorem saveVol_isSome_iff
    (hLoaded : s.currentSuperbloc.isSome) :
    (s.saveSuper libc).isSome ↔
      Command.saveVol.InBounds s := by
  have hIndex (i : Int) :
      Command.saveVol.Accesses s i ↔
        i = s.currentVol.toUInt32.toNat :=
    and_iff_right hLoaded
  rw [inBounds_iff_cytToSect hIndex 0]
  rcases Option.isSome_iff_exists.mp hLoaded with ⟨sb, hSb⟩
  simp only [Session.saveSuper, hSb, Mbr.writeBloc]
  cases s.mbr.cytToSect s.currentVol.toUInt32 0 with
  | none => exact Iff.rfl
  | some cylSect => exact Iff.rfl

omit [Drive δ] in
theorem inBounds_delVol_iff
    {choice : Int32} :
    (Command.delVol choice).InBounds s ↔
      (s.currentSuperbloc.isSome →
        (s.mbr.volume? s.currentVol.toInt).isSome) := by
  rw [Mbr.volume?_isSome_iff]
  constructor
  · exact fun hBounds hLoaded => hBounds _ ⟨hLoaded, rfl⟩
  · rintro hEntry i ⟨hLoaded, rfl⟩
    exact hEntry hLoaded

/- `free_bloc` needs the entry of the loaded volume. -/
omit [Drive δ] in
theorem freeBloc_isSome_iff
    {choice : Int32}
    (hFree : (Command.delVol choice).Unhindered libc s) :
    (s.freeBloc libc choice.toUInt32).isSome ↔
      (s.currentSuperbloc.isSome →
        (s.mbr.volume? s.currentVol.toInt).isSome) := by
  rcases hFree with ⟨hRoom, hEnds⟩
  cases hSb : s.currentSuperbloc with
  | none =>
      rw [Session.freeBloc, hSb]
      exact iff_of_true rfl fun hLoaded =>
        absurd hLoaded Bool.false_ne_true
  | some sb =>
      simp only [Session.freeBloc, hSb, Option.isSome_some,
        true_implies]
      cases hSlot : s.mbr.volume? s.currentVol.toInt with
      | none => exact Iff.rfl
      | some v =>
          refine iff_of_true ?_ rfl
          rcases Option.isSome_iff_exists.mp
              (hEnds sb hSb) with ⟨found, hFound⟩
          rcases Option.ne_none_iff_exists'.mp
              (Session.createList_ne_none hRoom
                choice.toUInt32) with
            ⟨⟨p, heap₁⟩, hCreate⟩
          rcases Session.createList_linked hCreate sb.first with
            ⟨heap₂, hCell, hStore, _⟩
          simp only [Option.bind_eq_bind, Option.bind_some,
            hFound, hCreate, hCell, hStore]
          split_ifs <;> rfl

/-
  A command that nothing else stops is carried out exactly
  when it stays inside the array.
-/
theorem exec_isSome_iff
    {cmd : Command}
    (hFree : cmd.Unhindered libc s) :
    (cmd.exec libc s).isSome ↔ cmd.InBounds s := by
  cases cmd with
  | list =>
      have hEight : (8 : Int32).toInt = 8 := rfl
      rw [inBounds_list_iff, ← hEight,
        ← Int32.le_iff_toInt_le, exec]
      split
      · next hCount => exact iff_of_true rfl hCount
      · next hCount =>
          exact iff_of_false Bool.false_ne_true hCount
  | read vol bloc =>
      rw [inBounds_iff_cytToSect (fun _ => Iff.rfl)
        bloc.toUInt32]
      simp only [exec, Mbr.readBloc]
      cases s.mbr.cytToSect vol.toUInt32 bloc.toUInt32 with
      | none => exact Iff.rfl
      | some cylSect => exact Iff.rfl
  | write vol bloc word =>
      rw [inBounds_iff_cytToSect (fun _ => Iff.rfl)
        bloc.toUInt32]
      have hWord : word.length < hdaSectorSize := hFree
      simp only [exec, Mbr.writeBloc, scanWord,
        if_pos hWord]
      cases s.mbr.cytToSect vol.toUInt32 bloc.toUInt32 with
      | none => exact Iff.rfl
      | some cylSect => exact Iff.rfl
  | format vol value =>
      rw [inBounds_iff_cytToSect (fun _ => Iff.rfl) 0]
      simp only [exec, Mbr.formatVol, Mbr.cytToSect]
      cases s.mbr.volume? vol.toUInt32.toNat with
      | none => exact Iff.rfl
      | some v => exact Iff.rfl
  | loadVol choice =>
      rw [inBounds_iff_cytToSect (fun _ => Iff.rfl) 0]
      exact loadVol_isSome_iff hFree
  | saveVol => exact saveVol_isSome_iff hFree
  | listVol =>
      exact iff_of_true hFree fun _ hAccess => hAccess.elim
  | newVol =>
      refine iff_of_true ?_ fun _ hAccess => hAccess.elim
      rcases Option.isSome_iff_exists.mp hFree with
        ⟨after, hAfter⟩
      simp only [exec, hAfter]
      rfl
  | delVol choice =>
      rw [inBounds_delVol_iff, ← freeBloc_isSome_iff hFree,
        exec]
      cases s.freeBloc libc choice.toUInt32 with
      | none => exact Iff.rfl
      | some after => exact Iff.rfl
  | new nbloc =>
      rw [inBounds_new_iff, ← Mbr.new_isSome_iff, exec]
      cases s.mbr.new nbloc with
      | none => exact Iff.rfl
      | some mbr => exact Iff.rfl
  | del vol =>
      rw [inBounds_del_iff, Bounded, ← Mbr.del_isSome_iff,
        exec]
      cases s.mbr.del vol with
      | none => exact Iff.rfl
      | some mbr => exact Iff.rfl
  | save =>
      exact iff_of_true rfl fun _ hAccess => hAccess.elim

end Command

------------------------------------------------------------
-- Runs
------------------------------------------------------------

namespace Session

/-
  From any disk and with any answers, the commands of a run
  index inside the array exactly when each of them finds such
  numbers.
-/
theorem in_bounds_in_every_run_iff
    (libc : Libc)
    (calls : Nat)
    (dev : δ)
    (cmds : List Command) :
    Always (Command.exec libc) (boot libc calls dev) cmds
        (fun t cmd => cmd.InBounds t) ↔
      Always (Command.exec libc) (boot libc calls dev) cmds
        fun t cmd => cmd.Bounded t := by
  refine always_iff_of_invariant Anchored ?_ ?_ ?_
  · intro hSome
    exact absurd hSome Bool.false_ne_true
  · intro t cmd u hAnchored hExec
    exact hAnchored.exec hExec
  · intro t cmd hAnchored
    exact Command.inBounds_iff hAnchored cmd

/-
  Inside the array nothing is left undefined: in every run, a
  command that nothing else stops is carried out exactly when
  it finds such numbers.
-/
theorem carried_out_in_every_run_iff
    (libc : Libc)
    (calls : Nat)
    (dev : δ)
    (cmds : List Command) :
    Always (Command.exec libc) (boot libc calls dev) cmds
      fun t cmd =>
        cmd.Unhindered libc t →
          ((cmd.exec libc t).isSome ↔ cmd.Bounded t) := by
  intro t cmd hPerforms hFree
  have hAnchored : t.Anchored := by
    refine reached_invariant Anchored ?_ ?_ hPerforms.reached
    · intro hSome
      exact absurd hSome Bool.false_ne_true
    · intro t' cmd' u _ hInv hExec
      exact hInv.exec hExec
  rw [Command.exec_isSome_iff hFree]
  exact Command.inBounds_iff hAnchored cmd

/- A disk that was never given a table. -/
def scrapDisk : Disk :=
  fun _ => Sector.filled 0x01010101

/-
  `list` on such a disk counts 16843009 volumes and accesses
  the ninth entry.
-/
theorem list_leaves_array :
    ¬ Always (Command.exec sampleLibc)
        (boot sampleLibc 0 scrapDisk) [.list]
        fun t cmd => cmd.InBounds t := by
  intro hAll
  have hPerforms :
      Performs (Command.exec sampleLibc)
        (boot sampleLibc 0 scrapDisk) [.list]
        (boot sampleLibc 0 scrapDisk) .list :=
    ⟨[], [], rfl, rfl⟩
  have hNinth :=
    hAll _ _ hPerforms 8 ⟨by decide, by decide⟩
  omega

end Session

end AsaKernel
