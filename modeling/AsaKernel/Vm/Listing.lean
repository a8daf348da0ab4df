import AsaKernel.Vm.DialogRuns
import AsaKernel.Volume.Deletion

/-
  What the command `list` shows of the table (vm.c).

  The numbers of a line are separated, and a line ends, by
  bytes that belong to no number.  The text therefore tells
  everything about the volumes that exist: their number, their
  starts, their sizes and their types.

  Main declarations:
    * `Mbr.listing_eq`
    * `volumeLine_append_inj`
    * `Talk.list_identifies_iff`
-/

------------------------------------------------------------
-- The Text of a Table
------------------------------------------------------------

namespace AsaKernel

open Scanning

/- Looking every index up gives the list. -/
theorem mapM_range
    {α : Type}
    (l : List α)
    (f : Nat → Option α)
    (hAgree : ∀ i < l.length, f i = l[i]?) :
    (List.range l.length).mapM f = some l := by
  induction l using List.reverseRecOn with
  | nil => rfl
  | append_singleton l a ih =>
      have hFront : (List.range l.length).mapM f = some l := by
        apply ih
        intro i hi
        rw [hAgree i (by simp; omega),
          List.getElem?_append_left hi]
      have hLast : f l.length = some a := by
        rw [hAgree l.length (by simp), List.getElem?_concat_length]
      rw [List.length_append, List.length_singleton,
        List.range_succ, List.mapM_append, hFront]
      simp [hLast]

namespace Mbr

/- One line for each volume, in the order of the table. -/
theorem listing_eq
    {mbr : Mbr}
    (hCount : mbr.nbVolume.toNat ≤ 8) :
    mbr.listing =
      some (integer mbr.nbVolume.toNat ++
        text " partition(s) on HDD\n" ++
        text "# cylinder\t# sector\tnb sector\ttype\n" ++
        mbr.entries.flatMap volumeLine) := by
  have hLength := length_entries hCount
  have hVolumes :
      (List.range mbr.nbVolume.toNat).mapM
        (fun i : Nat => mbr.volume? (i : Int)) =
          some mbr.entries := by
    rw [← hLength]
    apply mapM_range
    intro i hi
    rw [volume?_natCast, entries_getElem? (by omega)]
  unfold listing
  rw [count_toInt hCount, Int.toNat_natCast, hVolumes]
  rfl

end Mbr

------------------------------------------------------------
-- Reading the Text Back
------------------------------------------------------------

/- A tab and a line feed belong to no number. -/
theorem ends_tabs
    (rest : List UInt8) :
    Ends isDigit (text "\t\t" ++ rest) := by
  intro c hc
  cases hc
  rfl

theorem ends_lineFeed
    (rest : List UInt8) :
    Ends isDigit (text "\n" ++ rest) := by
  intro c hc
  cases hc
  rfl

/- A line gives the volume, and where the next line starts. -/
theorem volumeLine_append_inj
    {v w : Volume}
    {rest rest' : List UInt8}
    (hEq : volumeLine v ++ rest = volumeLine w ++ rest') :
    v = w ∧ rest = rest' := by
  simp only [volumeLine, List.append_assoc] at hEq
  rcases integer_append_inj (ends_tabs _) (ends_tabs _) hEq
    with ⟨hCyl, hEq⟩
  rcases integer_append_inj (ends_tabs _) (ends_tabs _)
    (List.append_cancel_left hEq) with ⟨hSect, hEq⟩
  rcases integer_append_inj (ends_tabs _) (ends_tabs _)
    (List.append_cancel_left hEq) with ⟨hSize, hEq⟩
  rcases integer_append_inj (ends_lineFeed _)
    (ends_lineFeed _) (List.append_cancel_left hEq) with
    ⟨hType, hEq⟩
  refine ⟨?_, List.append_cancel_left hEq⟩
  cases v with
  | mk type cyl sect size =>
      cases w with
      | mk type' cyl' sect' size' =>
          have hWord :=
            congrArg Int32.toUInt32 (Int32.toInt_inj.mp hType)
          rw [UInt32.toUInt32_toInt32,
            UInt32.toUInt32_toInt32] at hWord
          rw [Volume.mk.injEq]
          exact ⟨hWord, Int32.toInt_inj.mp hCyl,
            Int32.toInt_inj.mp hSect,
            Int32.toInt_inj.mp hSize⟩

/- As many lines give as many volumes. -/
theorem volumeLines_inj
    {volumes volumes' : List Volume}
    (hLength : volumes.length = volumes'.length)
    (hEq :
      volumes.flatMap volumeLine =
        volumes'.flatMap volumeLine) :
    volumes = volumes' := by
  induction volumes generalizing volumes' with
  | nil => exact (List.length_eq_zero_iff.mp hLength.symm).symm
  | cons v volumes ih =>
      cases volumes' with
      | nil => cases hLength
      | cons w volumes' =>
          rw [List.flatMap_cons, List.flatMap_cons] at hEq
          rcases volumeLine_append_inj hEq with ⟨rfl, hRest⟩
          rw [ih (Nat.succ.inj hLength) hRest]

/- Two tables with one text have the same volumes. -/
theorem Mbr.listing_inj
    {mbr mbr' : Mbr}
    (hCount : mbr.nbVolume.toNat ≤ 8)
    (hCount' : mbr'.nbVolume.toNat ≤ 8)
    (hEq : mbr.listing = mbr'.listing) :
    mbr.nbVolume = mbr'.nbVolume ∧
      mbr.entries = mbr'.entries := by
  have hEnds (rest : List UInt8) :
      Ends isDigit
        (text " partition(s) on HDD\n" ++ rest) := by
    intro c hc
    cases hc
    rfl
  rw [listing_eq hCount, listing_eq hCount',
    Option.some.injEq] at hEq
  simp only [List.append_assoc] at hEq
  rcases integer_append_inj (hEnds _) (hEnds _) hEq with
    ⟨hNumber, hRest⟩
  have hSame : mbr.nbVolume = mbr'.nbVolume := by
    apply UInt32.toNat_inj.mp
    omega
  refine ⟨hSame, volumeLines_inj ?_ ?_⟩
  · rw [length_entries hCount, length_entries hCount', hSame]
  · exact List.append_cancel_left
      (List.append_cancel_left hRest)

------------------------------------------------------------
-- The Command
------------------------------------------------------------

namespace Talk

variable {δ : Type}

/- What `list` prints behind the earlier output. -/
theorem list_output
    (c : Cmd)
    {d : Dialog δ}
    (hCount : d.session.mbr.nbVolume.toNat ≤ 8) :
    ∃ listing,
      d.session.mbr.listing = some listing ∧
      (list c).run d = some
        ((), { d with
          output :=
            d.output ++ listing ++
              (c.title ++ text " done\n") }) := by
  have hListing := Mbr.listing_eq hCount
  refine ⟨_, hListing, ?_⟩
  simp [list, hListing]

/-
  What `list` prints tells the table: after the same output,
  two sessions print the same text exactly when they have the
  same volumes.
-/
theorem list_identifies_iff
    (c : Cmd)
    (d d' : Dialog δ)
    (hOutput : d.output = d'.output)
    (hCount : d.session.mbr.nbVolume.toNat ≤ 8)
    (hCount' : d'.session.mbr.nbVolume.toNat ≤ 8) :
    ((list c).run d).map (fun r => r.2.output) =
        ((list c).run d').map (fun r => r.2.output) ↔
      d.session.mbr.nbVolume = d'.session.mbr.nbVolume ∧
        d.session.mbr.entries = d'.session.mbr.entries := by
  rcases list_output c hCount with ⟨listing, hText, hList⟩
  rcases list_output c hCount' with
    ⟨listing', hText', hList'⟩
  rw [hList, hList', Option.map_some, Option.map_some,
    Option.some.injEq, hOutput, List.append_assoc,
    List.append_assoc, List.append_right_inj,
    List.append_left_inj]
  constructor
  · intro hSame
    apply Mbr.listing_inj hCount hCount'
    rw [hText, hText', hSame]
  · rintro ⟨hNumber, hEntries⟩
    rw [Mbr.listing_eq hCount, Option.some.injEq] at hText
    rw [Mbr.listing_eq hCount', Option.some.injEq] at hText'
    rw [← hText, ← hText', hNumber, hEntries]

/- The dialog after the first prompt. -/
def listDialog
    (mbr : Mbr) : Dialog Disk where
  session := Session.blankSession mbr
  reader := { input := [], asked := 0 }
  output := text "> "

theorem list_identifies_two :
    let c : Cmd := ⟨some "list", .list, ""⟩
    ((list c).run (listDialog Mbr.twoVolumes)).map
        (fun r => r.2.output) ≠
      ((list c).run (listDialog Mbr.emptyTable)).map
        (fun r => r.2.output) := by
  intro c hSame
  have hTables :=
    (list_identifies_iff c (listDialog Mbr.twoVolumes)
      (listDialog Mbr.emptyTable) rfl (by decide)
      (by decide)).mp hSame
  exact absurd hTables.1 (by decide)

end Talk

end AsaKernel
