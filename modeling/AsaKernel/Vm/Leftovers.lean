import AsaKernel.Vm.Saving

/-
  What the command `write` stores (vm.c).

  All words are typed into one global buffer, which `malloc`
  has returned at the start.  A word and its terminating zero
  replace the first bytes, and the whole buffer is written to
  the block.  Two processes on any two disks that leave the
  same table are compared: `write` stores the same bytes in
  both exactly when their earlier words leave the same bytes
  behind the new one.

  Main declarations:
    * `Command.typed`, `overlay`
    * `Command.run_buffer`
    * `StoredAlike`
    * `stored_alike_iff`
-/

------------------------------------------------------------
-- The Buffer
------------------------------------------------------------

namespace AsaKernel

open Transition

/- The buffer after words have been typed into it. -/
def overlay
    (buffer : Sector)
    (words : List (List UInt8)) : Sector :=
  words.foldl
    (fun buffer word => buffer.memcpy (word ++ [0])) buffer

namespace Command

/- The words that a command types into the buffer. -/
def typed : Command → List (List UInt8)
| .write _ _ word => [word]
| _ => []

variable {δ : Type} [Drive δ]
variable {libc : Libc} {s after : Session δ}

/- A write replaces the buffer and one block. -/
theorem exec_write
    {vol bloc : Int32}
    {word : List UInt8}
    (hExec : exec libc s (.write vol bloc word) = some after) :
    ∃ buffer dev,
      scanWord word s.buffer = some buffer ∧
      s.mbr.writeBloc vol.toUInt32 bloc.toUInt32 buffer
        s.dev = some dev ∧
      after = { s with buffer := buffer, dev := dev } := by
  rcases Option.bind_eq_some_iff.mp hExec with
    ⟨buffer, hScan, hRest⟩
  rcases Option.bind_eq_some_iff.mp hRest with
    ⟨dev, hWrite, hAfter⟩
  exact ⟨buffer, dev, hScan, hWrite,
    (Option.some.inj hAfter).symm⟩

/- No other command assigns the buffer. -/
theorem exec_buffer
    {cmd : Command}
    (hExec : cmd.exec libc s = some after) :
    after.buffer = overlay s.buffer cmd.typed := by
  cases cmd with
  | write vol bloc word =>
      rcases exec_write hExec with
        ⟨buffer, dev, hScan, _, rfl⟩
      unfold scanWord at hScan
      by_cases hLength : word.length < hdaSectorSize
      · rw [if_pos hLength] at hScan
        exact (Option.some.inj hScan).symm
      · rw [if_neg hLength] at hScan
        cases hScan
  | list => rw [exec_list hExec]; rfl
  | listVol => rw [exec_listVol hExec]; rfl
  | read _ _ | format _ _ =>
      simp only [exec, Option.bind_eq_bind,
        Option.bind_eq_some_iff, Option.some.injEq] at hExec
      grind [typed, overlay]
  | loadVol choice =>
      rcases Session.loadVol_frame hExec with
        ⟨_, _, _, _, rfl⟩
      rfl
  | saveVol =>
      rcases Session.saveSuper_frame hExec with ⟨_, _, rfl⟩
      rfl
  | newVol =>
      rcases exec_newVol hExec with ⟨res, hCall⟩
      rcases Session.newBloc_cases hCall with
        rfl | ⟨_, _, _, _, _, _, rfl⟩ <;> rfl
  | delVol choice =>
      rcases exec_delVol hExec with ⟨res, hCall⟩
      rcases Session.freeBloc_cases hCall with
        rfl | ⟨_, _, _, _, _, _, _, _, _, _, _, rfl⟩ <;> rfl
  | new nbloc =>
      rcases exec_new hExec with ⟨_, _, rfl⟩
      rfl
  | del vol =>
      rcases exec_del hExec with ⟨_, _, rfl⟩
      rfl
  | save =>
      cases hExec
      rfl

/- The buffer holds what the words of a run leave in it. -/
theorem run_buffer
    {cmds : List Command}
    (hRun : run (exec libc) s cmds = some after) :
    after.buffer =
      overlay s.buffer (cmds.flatMap typed) := by
  induction cmds generalizing s with
  | nil =>
      cases hRun
      rfl
  | cons cmd cmds ih =>
      rw [run_cons, Option.bind_eq_some_iff] at hRun
      rcases hRun with ⟨mid, hExec, hRest⟩
      rw [ih hRest, exec_buffer hExec, List.flatMap_cons]
      unfold overlay
      rw [List.foldl_append]

end Command

------------------------------------------------------------
-- Two Processes
------------------------------------------------------------

/-
  The command `write` is executed in both states, and then the
  block is read with the same result.
-/
def StoredAlike
    (libc libc' : Libc)
    (s s' : Session Disk)
    (vol bloc : Int32)
    (word : List UInt8) : Prop :=
  ∃ after after' content,
    Command.exec libc s (.write vol bloc word) =
      some after ∧
    Command.exec libc' s' (.write vol bloc word) =
      some after' ∧
    after.mbr.readBloc vol.toUInt32 bloc.toUInt32 after.dev =
      some (content, after.dev) ∧
    after'.mbr.readBloc vol.toUInt32 bloc.toUInt32
        after'.dev =
      some (content, after'.dev)

variable {libc : Libc} {s : Session Disk}
variable {vol bloc : Int32} {word : List UInt8}

/- A block holds the whole buffer after a write. -/
theorem write_stores
    (libc : Libc)
    (hBlock :
      s.mbr.HasBlock vol.toUInt32 bloc.toUInt32)
    (hWord : word.length ≤ 255) :
    ∃ after,
      Command.exec libc s (.write vol bloc word) =
        some after ∧
      after.mbr.readBloc vol.toUInt32 bloc.toUInt32
          after.dev =
        some (s.buffer.memcpy (word ++ [0]), after.dev) := by
  rcases hBlock with ⟨_, v, hSlot, _⟩
  have hAddr :
      s.mbr.cytToSect vol.toUInt32 bloc.toUInt32 =
        some (v.locate bloc.toUInt32) :=
    Mbr.cytToSect_eq hSlot _
  have hScan :
      scanWord word s.buffer =
        some (s.buffer.memcpy (word ++ [0])) :=
    if_pos (Nat.lt_succ_of_le hWord)
  let content := s.buffer.memcpy (word ++ [0])
  let addr := sectorAddr (v.locate bloc.toUInt32)
  let after : Session Disk :=
    { s with
      buffer := content
      dev := Function.update s.dev addr content }
  refine ⟨after, ?_, ?_⟩
  · have hWrite :=
      Mbr.writeBloc_eq hAddr s.dev content
    exact Option.bind_eq_some_iff.mpr ⟨content, hScan,
      Option.bind_eq_some_iff.mpr ⟨_, hWrite, rfl⟩⟩
  · have hRead := Mbr.readBloc_eq hAddr after.dev
    rwa [show after.dev addr = content from
      Function.update_self _ _ _] at hRead

/- What the two buffers hold behind the new word decides. -/
theorem storedAlike_iff_buffers
    {libc' : Libc}
    {s' : Session Disk}
    (hTable : s.mbr = s'.mbr)
    (hBlock :
      s.mbr.HasBlock vol.toUInt32 bloc.toUInt32)
    (hWord : word.length ≤ 255) :
    StoredAlike libc libc' s s' vol bloc word ↔
      s.buffer.toList.drop (word.length + 1) =
        s'.buffer.toList.drop (word.length + 1) := by
  rcases write_stores libc hBlock hWord with
    ⟨after, hExec, hRead⟩
  rw [hTable] at hBlock
  rcases write_stores libc' hBlock hWord with
    ⟨after', hExec', hRead'⟩
  have hLength : (word ++ [0]).length = word.length + 1 :=
    List.length_append
  rw [← hLength, ← Sector.memcpy_eq_iff]
  unfold StoredAlike
  constructor
  · rintro ⟨t, t', content, ht, ht', hStored, hStored'⟩
    cases hExec.symm.trans ht
    cases hExec'.symm.trans ht'
    rw [hRead] at hStored
    rw [hRead'] at hStored'
    cases hStored
    exact (Prod.mk.inj (Option.some.inj hStored')).1.symm
  · intro hSame
    rw [← hSame] at hRead'
    exact ⟨after, after', _, hExec, hExec', hRead, hRead'⟩

/-
  The block is the same in both processes exactly when the
  words typed before, and the bytes that the buffer held at
  first, are the same behind the new word.
-/
theorem stored_alike_iff
    (libc libc' : Libc)
    (calls calls' : Nat)
    (disk disk' : Disk)
    (cmds cmds' : List Command)
    (s s' : Session Disk)
    (vol bloc : Int32)
    (word : List UInt8)
    (hRun :
      run (Command.exec libc) (boot libc calls disk) cmds =
        some s)
    (hRun' :
      run (Command.exec libc') (boot libc' calls' disk')
        cmds' = some s')
    (hTable : s.mbr = s'.mbr)
    (hBlock :
      s.mbr.HasBlock vol.toUInt32 bloc.toUInt32)
    (hWord : word.length ≤ 255) :
    StoredAlike libc libc' s s' vol bloc word ↔
      (overlay (libc.garbage calls)
          (cmds.flatMap Command.typed)).toList.drop
          (word.length + 1) =
        (overlay (libc'.garbage calls')
          (cmds'.flatMap Command.typed)).toList.drop
          (word.length + 1) := by
  have hBuffer :
      s.buffer = overlay (libc.garbage calls)
        (cmds.flatMap Command.typed) :=
    Command.run_buffer hRun
  have hBuffer' :
      s'.buffer = overlay (libc'.garbage calls')
        (cmds'.flatMap Command.typed) :=
    Command.run_buffer hRun'
  rw [storedAlike_iff_buffers hTable hBlock hWord, hBuffer,
    hBuffer']

/- The word "secret". -/
def secret : List UInt8 :=
  [115, 101, 99, 114, 101, 116]

/- One volume, without and with an earlier word. -/
theorem secret_typed :
    ∃ s s',
      run (Command.exec Session.sampleLibc)
          (boot Session.sampleLibc 0 Session.blankDisk)
          [.new 4] = some s ∧
      run (Command.exec Session.sampleLibc)
          (boot Session.sampleLibc 0 Session.blankDisk)
          [.new 4, .write 0 0 secret] = some s' ∧
      s.mbr = s'.mbr ∧ s.mbr.HasBlock 0 1 := by
  have hRuns :
      ∃ s ∈ run (Command.exec Session.sampleLibc)
          (boot Session.sampleLibc 0 Session.blankDisk)
          [.new 4],
        ∃ s' ∈ run (Command.exec Session.sampleLibc)
            (boot Session.sampleLibc 0 Session.blankDisk)
            [.new 4, .write 0 0 secret],
          s.mbr = s'.mbr ∧ s.mbr.nbVolume = 1 ∧
            s.mbr.volume? 0 = some ⟨TypeE.base, 0, 1, 4⟩ := by
    decide
  rcases hRuns with
    ⟨s, hRun, s', hRun', hTable, hCount, hSlot⟩
  refine ⟨s, s', hRun, hRun', hTable, ?_, _, hSlot, ?_⟩
  · rw [hCount]
    decide
  · decide

/- A longer word hides the earlier one. -/
theorem stored_alike_iff_secret :
    ∃ s s',
      run (Command.exec Session.sampleLibc)
          (boot Session.sampleLibc 0 Session.blankDisk)
          [.new 4] = some s ∧
      run (Command.exec Session.sampleLibc)
          (boot Session.sampleLibc 0 Session.blankDisk)
          [.new 4, .write 0 0 secret] = some s' ∧
      StoredAlike Session.sampleLibc Session.sampleLibc s s'
        0 1 [65, 66, 67, 68, 69, 70, 71] := by
  rcases secret_typed with
    ⟨s, s', hRun, hRun', hTable, hBlock⟩
  have hIff :=
    stored_alike_iff _ _ _ _ _ _ _ _ s s' 0 1
      [65, 66, 67, 68, 69, 70, 71] hRun hRun' hTable hBlock
      (by decide)
  exact ⟨s, s', hRun, hRun', hIff.mpr (by decide +kernel)⟩

/-
  After "A" the block holds the rest of the word "secret" that
  was written to another block.
-/
theorem secret_left_over :
    ¬ ∀ libc libc' calls calls' disk disk' cmds cmds' s s'
        vol bloc word,
      run (Command.exec libc) (boot libc calls disk) cmds =
          some s →
      run (Command.exec libc') (boot libc' calls' disk')
          cmds' = some s' →
      s.mbr = s'.mbr →
      s.mbr.HasBlock vol.toUInt32 bloc.toUInt32 →
      word.length ≤ 255 →
        StoredAlike libc libc' s s' vol bloc word := by
  intro hAll
  rcases secret_typed with
    ⟨s, s', hRun, hRun', hTable, hBlock⟩
  have hAlike :=
    hAll _ _ _ _ _ _ _ _ s s' 0 1 [65] hRun hRun' hTable
      hBlock (by decide)
  have hBuffers :
      StoredAlike Session.sampleLibc Session.sampleLibc s s'
          0 1 [65] ↔
        s.buffer.toList.drop 2 = s'.buffer.toList.drop 2 :=
    storedAlike_iff_buffers hTable hBlock (by decide)
  have hBehind := hBuffers.mp hAlike
  rw [Command.run_buffer hRun, Command.run_buffer hRun']
    at hBehind
  exact absurd (congrArg List.head? hBehind) (by decide)

end AsaKernel
