import AsaKernel.Vm.Scripts
import AsaKernel.Vm.ShelfRuns

/-
  From a typed word to a printed dump (vm.c).

  A word that is typed to `write` is what a later `read` of
  the block prints, although the volume may have another
  number by then.  This is about the whole program: the loop,
  its answers, the table, the blocks and the dump.

  Main declarations:
    * `transcript_concat`
    * `Watched.exec`, `read_after_write`
    * `Talk.typed_word_is_printed`
-/

------------------------------------------------------------
-- The Last Command of a Script
------------------------------------------------------------

namespace AsaKernel

open Scanning Transition

variable {δ : Type} [Drive δ]
variable {libc : Libc}

/- A transcript ends with the text of the last command. -/
theorem transcript_concat
    {s t : Session δ}
    {cmds : List Command}
    {cmd : Command}
    {said : List UInt8}
    (hRun : run (Command.exec libc) s cmds = some t)
    (hSaid : transcript libc s (cmds ++ [cmd]) = some said) :
    ∃ front reply,
      cmd.reply libc t = some reply ∧
        said = front ++ (text "> " ++ reply) := by
  induction cmds generalizing s said with
  | nil =>
      cases hRun
      rcases Option.bind_eq_some_iff.mp hSaid with
        ⟨reply, hReply, hRest⟩
      rcases Option.bind_eq_some_iff.mp hRest with
        ⟨after, _, hEnd⟩
      cases hEnd
      exact ⟨[], reply, hReply, List.append_nil _⟩
  | cons first cmds ih =>
      rw [run_cons] at hRun
      rcases Option.bind_eq_some_iff.mp hRun with
        ⟨u, hExec, hRun⟩
      rw [List.cons_append] at hSaid
      rcases Option.bind_eq_some_iff.mp hSaid with
        ⟨firstReply, _, hRest⟩
      rcases Option.bind_eq_some_iff.mp hRest with
        ⟨u', hExec', hRest⟩
      cases hExec'.symm.trans hExec
      rcases Option.bind_eq_some_iff.mp hRest with
        ⟨rest, hLater, hEnd⟩
      cases hEnd
      rcases ih hRun hLater with ⟨front, reply, hReply, rfl⟩
      refine ⟨text "> " ++ firstReply ++ front, reply,
        hReply, ?_⟩
      rw [List.append_assoc _ front]

/- What `read` prints of a block. -/
theorem reply_read
    {s : Session δ}
    {vol bloc : Int32}
    {content : Sector}
    {dev : δ}
    {reply : List UInt8}
    (hRead :
      s.mbr.readBloc vol.toUInt32 bloc.toUInt32 s.dev =
        some (content, dev))
    (hReply :
      (Command.read vol bloc).reply libc s = some reply) :
    reply =
      text "Which Volum? : " ++ text "Which Bloc? : " ++
        text "0x" ++
        (blocText content.toList).flatMap
          String.utf8EncodeChar ++
        text "\n" ++ (text "read" ++ text " done\n") := by
  have hDump := Mbr.displayBloc_of_readBloc hRead
  have hLookup :
      lookup (Command.read vol bloc).fn.title =
        some ⟨some "read", .read,
          "read specific partition's bloc"⟩ := rfl
  have hAction :
      (Command.read vol bloc).action s =
        .command (.read vol bloc) := by
    unfold Command.action
    rw [if_neg (by simp)]
    exact if_pos trivial
  simp only [Command.reply, hLookup, hAction, Action.printed,
    hDump, Option.bind_eq_bind, Option.bind_some,
    Option.some.injEq] at hReply
  exact hReply.symm

------------------------------------------------------------
-- Commands on Watched Volumes
------------------------------------------------------------

namespace Watched

/- A command, and what it does to the number of a volume. -/
def exec
    (libc : Libc)
    (w : Watched)
    (cmd : Command) : Option Watched :=
  step libc w (.command cmd)

theorem session_exec
    (libc : Libc)
    (w : Watched)
    (cmd : Command) :
    cmd.exec libc w.session =
      (exec libc w cmd).map Watched.session := by
  have hStep :
      Event.step libc w.session (.command cmd) =
        cmd.exec libc w.session := rfl
  unfold exec step
  rw [hStep]
  cases cmd.exec libc w.session with
  | none => rfl
  | some t => rfl

/- The sessions of a watched run are a run. -/
theorem run_session
    (libc : Libc)
    (w : Watched)
    (cmds : List Command) :
    run (Command.exec libc) w.session cmds =
      (run (exec libc) w cmds).map Watched.session := by
  have hRun :=
    run_projected (g := id) (session_exec libc) w cmds
  rw [List.map_id] at hRun
  exact hRun

/- Commands that leave a block alone keep what is in it. -/
theorem block?_of_commands
    {w w' : Watched}
    {bloc : Nat}
    {content : Sector}
    (hHealthy : w.session.Healthy)
    (hBlock :
      w.session.shelf.block? w.vol bloc = some content)
    {cmds : List Command}
    (hLeaves :
      Always (exec libc) w cmds fun u cmd =>
        (Event.command cmd).Careful u.session ∧
          (Event.command cmd).Leaves u.session.shelf u.vol
            bloc)
    (hRun : run (exec libc) w cmds = some w') :
    w'.session.Healthy ∧
      w'.session.shelf.block? w'.vol bloc = some content := by
  have hStep (u : Watched) (cmd : Command) :
      step libc u (.command cmd) =
        (exec libc u cmd).map id :=
    Option.map_id.symm ▸ rfl
  have hEvents :
      run (step libc) w (cmds.map Event.command) =
        some w' := by
    have hSame := run_projected (f := id) hStep w cmds
    rw [hRun] at hSame
    exact hSame
  refine block?_of_run hHealthy hBlock ?_ hEvents
  exact
    (always_projected_iff (f := id) hStep w cmds _).mpr
      hLeaves

end Watched

------------------------------------------------------------
-- What Is Typed Is Printed
------------------------------------------------------------

/- A block is written, and read in the next state. -/
theorem Command.exec_write_read
    {s t : Session Disk}
    {vol bloc : Int32}
    {word : List UInt8}
    (hExec :
      Command.exec libc s (.write vol bloc word) = some t) :
    t.mbr = s.mbr ∧
      t.mbr.readBloc vol.toUInt32 bloc.toUInt32 t.dev =
        some (s.buffer.memcpy (word ++ [0]), t.dev) := by
  rcases Option.bind_eq_some_iff.mp hExec with
    ⟨buffer, hScan, hRest⟩
  rcases Option.bind_eq_some_iff.mp hRest with
    ⟨dev, hWrite, hAfter⟩
  cases hAfter
  rcases Option.bind_eq_some_iff.mp hWrite with
    ⟨p, hAddr, _⟩
  rw [Mbr.writeBloc_eq hAddr, Option.some.injEq] at hWrite
  subst hWrite
  refine ⟨rfl, ?_⟩
  rw [Mbr.readBloc_eq hAddr]
  dsimp only
  rw [Function.update_self]
  unfold scanWord at hScan
  split_ifs at hScan
  rw [Option.some.inj hScan]

section Script

variable {start s t : Session Disk} {w : Watched}
variable {cmds before between : List Command}
variable {vol bloc later : Int32} {word : List UInt8}

variable (hBefore :
  run (Command.exec libc) start before = some s)
variable (hWrite :
  Command.exec libc s (.write vol bloc word) = some t)

include hBefore hWrite

/- The states after the write are those of the watched run. -/
theorem run_along
    {front : List Command}
    {u : Watched}
    (hFront :
      run (Watched.exec libc) ⟨t, vol.toInt.toNat⟩ front =
        some u) :
    run (Command.exec libc) start
        (before ++ .write vol bloc word :: front) =
      some u.session := by
  have hSessions :=
    Watched.run_session libc ⟨t, vol.toInt.toNat⟩ front
  rw [hFront] at hSessions
  rw [run_append, hBefore, Option.bind_some, run_cons,
    hWrite, Option.bind_some]
  exact hSessions

/-
  A block that was written is read back under the number that
  its volume has in the end.
-/
theorem read_after_write
    (hHealthy : start.Healthy)
    (hCmds :
      cmds =
        before ++ .write vol bloc word :: between ++
          [.read later bloc])
    (hCareful :
      Always (Command.exec libc) start cmds
        fun u cmd => (Event.command cmd).Careful u)
    (hBetween :
      run (Watched.exec libc) ⟨t, vol.toInt.toNat⟩ between =
        some w)
    (hLeaves :
      Always (Watched.exec libc) ⟨t, vol.toInt.toNat⟩ between
        fun w cmd =>
          (Event.command cmd).Leaves w.session.shelf w.vol
            bloc.toInt.toNat)
    (hLater : later.toInt = w.vol) :
    w.session.mbr.readBloc later.toUInt32 bloc.toUInt32
        w.session.dev =
      some (s.buffer.memcpy (word ++ [0]),
        w.session.dev) := by
  have hNothing :
      run (Watched.exec libc) ⟨t, vol.toInt.toNat⟩ [] =
        some ⟨t, vol.toInt.toNat⟩ := rfl
  have hReached :
      Reached (Command.exec libc) start cmds t := by
    refine ⟨before ++ [.write vol bloc word],
      between ++ [.read later bloc], ?_,
      run_along hBefore hWrite hNothing⟩
    rw [hCmds, List.append_assoc, List.append_assoc]
    rfl
  have hAfter : t.Healthy := by
    refine reached_invariant Session.Healthy hHealthy ?_
      hReached
    intro u cmd u' hPerforms hu hNext
    exact hu.exec
      (Session.careful_valid (hCareful u cmd hPerforms))
      hNext
  rcases Command.exec_write_read hWrite with
    ⟨hTable, hWritten⟩
  have hAddresses : t.mbr.Addresses vol bloc := by
    rw [hTable]
    have hFirst :
        Performs (Command.exec libc) start cmds s
          (.write vol bloc word) := by
      refine ⟨before, between ++ [.read later bloc], ?_,
        hBefore⟩
      rw [hCmds, List.append_assoc, List.cons_append]
    exact (hCareful _ _ hFirst).1
  have hHolds :
      t.shelf.block? vol.toInt.toNat bloc.toInt.toNat =
        some (s.buffer.memcpy (word ++ [0])) := by
    rcases Session.shelf_block? hAddresses with
      ⟨content, hRead, hBlock⟩
    cases hRead.symm.trans hWritten
    exact hBlock
  have hKept :
      w.session.Healthy ∧
        w.session.shelf.block? w.vol bloc.toInt.toNat =
          some (s.buffer.memcpy (word ++ [0])) := by
    refine Watched.block?_of_commands hAfter hHolds ?_
      hBetween
    rintro u cmd ⟨front, back, hBack, hFront⟩
    refine ⟨hCareful u.session cmd ?_,
      hLeaves u cmd ⟨front, back, hBack, hFront⟩⟩
    refine ⟨before ++ .write vol bloc word :: front,
      back ++ [.read later bloc], ?_,
      run_along hBefore hWrite hFront⟩
    rw [hCmds, hBack]
    simp
  rcases hAddresses.2 with ⟨v, _, hLow, _⟩
  have hVol : later.toInt.toNat = w.vol := by omega
  rw [← Watched.ofNat_toNat_of_nonneg (by omega), hVol,
    ← Watched.ofNat_toNat_of_nonneg hLow]
  exact Session.readBloc_of_block? hKept.1.disk hKept.2

end Script

namespace Talk

variable {stdio : Stdio}

/-
  The word that is typed to `write` is in the text of a later
  `read` of the block, if no command in between puts something
  else into it.
-/
theorem typed_word_is_printed
    {calls : Nat}
    {dev : Disk}
    (hDisk : (loadMbr dev).1.DiskPacked)
    {cmds before between : List Command}
    {vol bloc later : Int32}
    {word : List UInt8}
    (hCmds :
      cmds =
        before ++ .write vol bloc word :: between ++
          [.read later bloc])
    (hTypable : ∀ cmd ∈ cmds, cmd.Typable)
    (hCareful :
      Always (Command.exec libc) (boot libc calls dev) cmds
        fun u cmd => (Event.command cmd).Careful u)
    (hNamed :
      Always (Command.exec libc) (boot libc calls dev) cmds
        fun u cmd => cmd = .listVol → u.Named)
    {s t : Session Disk}
    (hBefore :
      run (Command.exec libc) (boot libc calls dev) before =
        some s)
    (hWrite :
      Command.exec libc s (.write vol bloc word) = some t)
    {w : Watched}
    (hBetween :
      run (Watched.exec libc) ⟨t, vol.toInt.toNat⟩ between =
        some w)
    (hLeaves :
      Always (Watched.exec libc) ⟨t, vol.toInt.toNat⟩ between
        fun w cmd =>
          (Event.command cmd).Leaves w.session.shelf w.vol
            bloc.toInt.toNat)
    (hLater : later.toInt = w.vol) :
    ∃ front d,
      vm libc stdio calls
          (script libc .exit (boot libc calls dev) cmds) dev =
        some (.exit, d) ∧
      d.output =
        front ++
          (text "0x" ++
            (blocText
              (s.buffer.memcpy (word ++ [0])).toList).flatMap
                String.utf8EncodeChar ++
            text "\n" ++ (text "read" ++ text " done\n")) ++
          text "> " := by
  have hHealthy : (boot libc calls dev).Healthy :=
    ⟨hDisk, fun _ hSb => by cases hSb⟩
  have hRead :=
    read_after_write hBefore hWrite hHealthy hCmds hCareful
      hBetween hLeaves hLater
  have hEarlier := run_along hBefore hWrite hBetween
  have hFinal :
      run (Command.exec libc) (boot libc calls dev) cmds =
        some w.session := by
    rw [hCmds, run_append, hEarlier, Option.bind_some,
      run_cons, Command.exec, hRead]
    rfl
  have hNone : ∀ c ∈ ([] : List UInt8), isSpace c = true := by
    intro c hc
    cases hc
  let start : Dialog Disk :=
    { session := boot libc calls dev
      reader :=
        ⟨script libc .exit (boot libc calls dev) cmds, 0⟩
      output := [] }
  have hInput :
      start.reader.input =
        [] ++ script libc .exit start.session cmds := rfl
  rcases loop_script stdio hNone hInput hTypable hFinal hNamed
      rfl with ⟨said, d, hSaid, hVm, _, hOutput⟩
  rw [hCmds] at hSaid
  rcases transcript_concat hEarlier hSaid with
    ⟨front, reply, hReply, rfl⟩
  rw [reply_read hRead hReply] at hOutput
  refine ⟨front ++ text "> " ++ text "Which Volum? : " ++
    text "Which Bloc? : ", d, hVm, ?_⟩
  rw [hOutput]
  simp [start, Ending.reply]

/- The volume with the word is 1, and then 0. -/
theorem typed_word_is_printed_renumbered :
    let dev : Disk := fun _ => Sector.filled 0
    let start := boot Session.sampleLibc 0 dev
    let cmds : List Command :=
      [.new 5, .new 4, .write 1 2 [72, 105], .del 0,
        .read 0 2]
    ∃ s front d,
      run (Command.exec Session.sampleLibc) start
          [.new 5, .new 4] = some s ∧
        vm Session.sampleLibc ⟨fun _ => 0, fun _ => 0⟩ 0
            (script Session.sampleLibc .exit start cmds)
            dev =
          some (.exit, d) ∧
        d.output =
          front ++
            (text "0x" ++
              (blocText
                (s.buffer.memcpy
                  ([72, 105] ++ [0])).toList).flatMap
                  String.utf8EncodeChar ++
              text "\n" ++ (text "read" ++ text " done\n")) ++
            text "> " := by
  intro dev start cmds
  have hDisk : (loadMbr dev).1.DiskPacked :=
    Mbr.diskPacked_of_empty (by decide)
  have hTypable : ∀ cmd ∈ cmds, cmd.Typable := by decide
  have hNamed :=
    always_named Session.sampleLibc start
      (show .listVol ∉ cmds by decide)
  have hDefined :
      (run (Command.exec Session.sampleLibc) start
        [.new 5, .new 4]).isSome := by
    decide
  rcases Option.isSome_iff_exists.mp hDefined with
    ⟨s, hBefore⟩
  have hNext :
      ∀ s ∈ run (Command.exec Session.sampleLibc) start
          [.new 5, .new 4],
        (Command.exec Session.sampleLibc s
          (.write 1 2 [72, 105])).isSome := by
    decide
  rcases Option.isSome_iff_exists.mp (hNext s hBefore) with
    ⟨t, hWrite⟩
  have hAfter :
      t ∈ run (Command.exec Session.sampleLibc) start
        [.new 5, .new 4, .write 1 2 [72, 105]] :=
    (run_concat_eq_some [.new 5, .new 4]).mpr
      ⟨s, hBefore, hWrite⟩
  have hWatched :
      ∀ t ∈ run (Command.exec Session.sampleLibc) start
          [.new 5, .new 4, .write 1 2 [72, 105]],
        (run (Watched.exec Session.sampleLibc)
            ⟨t, (1 : Int32).toInt.toNat⟩ [.del 0]).map
            Watched.vol =
          some 0 ∧
        Always (Watched.exec Session.sampleLibc)
          ⟨t, (1 : Int32).toInt.toNat⟩ [.del 0]
          fun w cmd =>
            (Event.command cmd).Leaves w.session.shelf w.vol
              (2 : Int32).toInt.toNat := by
    decide
  rcases hWatched t hAfter with ⟨hVol, hLeaves⟩
  rcases Option.map_eq_some_iff.mp hVol with
    ⟨w, hBetween, hZero⟩
  have hLater : (0 : Int32).toInt = w.vol := by
    rw [hZero]
    rfl
  have hCmds :
      cmds =
        [.new 5, .new 4] ++
          .write 1 2 [72, 105] :: [.del 0] ++ [.read 0 2] :=
    rfl
  rcases typed_word_is_printed hDisk hCmds hTypable
      (by decide) hNamed hBefore hWrite hBetween
      hLeaves hLater with ⟨front, d, hVm, hOutput⟩
  exact ⟨s, front, d, hBefore, hVm, hOutput⟩

end Talk

end AsaKernel
