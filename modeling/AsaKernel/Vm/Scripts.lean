import AsaKernel.Superbloc.Conservation
import AsaKernel.Vm.DialogRuns

/-
  Commands typed by a user, one word on a line (vm.c).

  The name of a command is typed, and then each answer that it
  asks for: `new` on a full table and `del` on an empty one
  ask for none.  Typed in this way, commands are executed as
  they are meant, nothing of the input is taken for something
  else, and what is printed is known.

  Main declarations:
    * `lines`, `Command.typedText`, `script`
    * `Command.reply`, `transcript`
    * `CmdFun.ask_typed`
    * `vm_runs_script`
-/

------------------------------------------------------------
-- Scripts
------------------------------------------------------------

namespace AsaKernel

open Scanning Transition

/- Each field on a line of its own. -/
def lines
    (fields : List (List UInt8)) : List UInt8 :=
  fields.flatMap fun field => field ++ text "\n"

/- The name that the table gives to a function. -/
def CmdFun.title
    (fn : CmdFun) : List UInt8 :=
  ((commands.find? fun c => c.fn = fn).map
    Cmd.title).getD []

/- What a user types to end the process. -/
def Ending.fn : Ending → CmdFun
| .quit => .quit
| .exit => .xit

namespace Command

def fn : Command → CmdFun
| .list => .list
| .read _ _ => .read
| .write _ _ _ => .write
| .format _ _ => .format
| .loadVol _ => .loadVol
| .saveVol => .saveVol
| .listVol => .listVol
| .newVol => .newVol
| .delVol _ => .delVol
| .new _ => .new
| .del _ => .del
| .save => .save

/- The answers, as they are typed. -/
def answers : Command → List (List UInt8)
| .read vol bloc => [integer vol.toInt, integer bloc.toInt]
| .write vol bloc word =>
    [integer vol.toInt, integer bloc.toInt, word]
| .format vol value =>
    [integer vol.toInt, integer value.toInt]
| .loadVol choice | .delVol choice => [integer choice.toInt]
| .new nbloc => [integer nbloc.toInt]
| .del vol => [integer vol.toInt]
| .list | .saveVol | .listVol | .newVol | .save => []

variable {δ : Type}

/- The command asks for its answers. -/
def Asks
    (s : Session δ) : Command → Prop
| .new _ => ¬ 8 ≤ s.mbr.count
| .del _ => ¬ s.mbr.count ≤ 0
| _ => True

instance (s : Session δ) (cmd : Command) :
    Decidable (cmd.Asks s) :=
  match cmd with
  | .new _ => inferInstanceAs (Decidable (¬ _))
  | .del _ => inferInstanceAs (Decidable (¬ _))
  | .list | .read _ _ | .write _ _ _ | .format _ _
  | .loadVol _ | .saveVol | .listVol | .newVol
  | .delVol _ | .save => isTrue trivial

/- The answers that are typed in a state of the program. -/
def asked
    (s : Session δ)
    (cmd : Command) : List (List UInt8) :=
  if cmd.Asks s then cmd.answers else []

/- A command, as it is typed. -/
def typedText
    (s : Session δ)
    (cmd : Command) : List UInt8 :=
  lines (cmd.fn.title :: cmd.asked s)

/- The word that `write` stores can be typed. -/
def Typable : Command → Prop
| .write _ _ word =>
    word ≠ [] ∧ ∀ c ∈ word, isSpace c = false
| _ => True

instance (cmd : Command) : Decidable cmd.Typable :=
  match cmd with
  | .write _ _ word =>
      @instDecidableAnd _ _ inferInstance
        (List.decidableBAll (fun c => isSpace c = false) word)
  | .list | .read _ _ | .format _ _ | .loadVol _ | .saveVol
  | .listVol | .newVol | .delVol _ | .new _ | .del _
  | .save => isTrue trivial

/- What the typed command does to the globals. -/
def action
    (s : Session δ)
    (cmd : Command) : Action :=
  if cmd = .listVol then .display
  else if cmd.Asks s then .command cmd
  else .idle

end Command

/- What is printed of a command, under the name it has. -/
def Command.reply
    {δ : Type}
    [Drive δ]
    (libc : Libc)
    (s : Session δ)
    (cmd : Command) : Option (List UInt8) := do
  let c ← lookup cmd.fn.title
  (cmd.action s).printed libc c s

/- What is printed of an end that was typed. -/
def Ending.reply : Ending → List UInt8
| .quit => text "quit" ++ text " done\n"
| .exit => []

/- The name of the loaded volume is a string. -/
def Session.Named
    {δ : Type}
    (s : Session δ) : Prop :=
  ∀ sb ∈ s.currentSuperbloc, 0 ∈ sb.name.toList

/- What is typed for commands and the end of the process. -/
def script
    {δ : Type}
    [Drive δ]
    (libc : Libc)
    (ending : Ending) :
    Session δ → List Command → List UInt8
| _, [] => lines [ending.fn.title]
| s, cmd :: cmds =>
    cmd.typedText s ++
      match cmd.exec libc s with
      | none => []
      | some t => script libc ending t cmds

/- What is printed of commands, each after a prompt. -/
def transcript
    {δ : Type}
    [Drive δ]
    (libc : Libc) :
    Session δ → List Command → Option (List UInt8)
| _, [] => some []
| s, cmd :: cmds => do
    let reply ← cmd.reply libc s
    let t ← cmd.exec libc s
    let rest ← transcript libc t cmds
    some (text "> " ++ reply ++ rest)

------------------------------------------------------------
-- Reading a Line
------------------------------------------------------------

/- What follows the newline that ends a field. -/
def newline
    (rest : List UInt8) : List UInt8 :=
  text "\n" ++ rest

theorem lines_cons
    (field : List UInt8)
    (fields : List (List UInt8))
    (rest : List UInt8) :
    lines (field :: fields) ++ rest =
      field ++ newline (lines fields ++ rest) := by
  unfold lines newline
  rw [List.flatMap_cons, List.append_assoc,
    List.append_assoc]

theorem newline_space :
    ∀ c ∈ text "\n", isSpace c = true := by
  have hAll : (text "\n").all isSpace = true := by
    decide
  exact List.all_eq_true.mp hAll

theorem ends_newline
    {p : UInt8 → Bool}
    (hNewline : p 10 = false)
    (rest : List UInt8) :
    Ends p (newline rest) := by
  intro c hc
  cases hc
  exact hNewline

namespace Reader

/- A word on a line is read, up to the end of its line. -/
theorem word_line
    {width : Option Nat}
    {space field : List UInt8}
    (rest : List UInt8)
    (count : Nat)
    (hSpace : ∀ c ∈ space, isSpace c = true)
    (hField : field ≠ [])
    (hRun : ∀ c ∈ field, isSpace c = false)
    (hWidth : ∀ w ∈ width, field.length ≤ w) :
    word width ⟨space ++ (field ++ newline rest), count⟩ =
      (some field, ⟨newline rest, count⟩) := by
  have hWord :=
    word_append hSpace hField hRun hWidth
      (ends_newline (by decide) rest)
  unfold word
  dsimp only
  rw [hWord]

/- So is a number. -/
theorem int_line
    (stdio : Stdio)
    (x : Int32)
    (rest : List UInt8)
    (count : Nat) :
    int stdio ⟨newline (integer x.toInt ++ newline rest),
        count⟩ =
      (x, ⟨newline rest, count + 1⟩) := by
  have hNumber :=
    number_integer x.toInt newline_space
      (ends_newline (p := isDigit) (by decide) rest)
  have hStore : stdio.store x.toInt = x := by
    have hRange := FixedWidth.toInt_range x
    unfold Stdio.store FixedWidth.ofInt?
    rw [if_pos hRange, Option.getD_some, Int32.ofInt_toInt]
  have hInput :
      number (newline (integer x.toInt ++ newline rest)) =
        (some x.toInt, newline rest) := hNumber
  unfold int
  dsimp only
  rw [hInput]
  exact congrArg (fun y => (y, _)) hStore

end Reader

namespace CmdFun

/- Each function but the last is found under its name. -/
theorem lookup_title
    {fn : CmdFun}
    (hNamed : fn ≠ .none) :
    (∃ c, lookup fn.title = some c ∧ c.fn = fn) ∧
      fn.title ≠ [] ∧ fn.title.length ≤ 62 ∧
      ∀ c ∈ fn.title, isSpace c = false := by
  have hVisible
      (hAll :
        fn.title.all (fun c => isSpace c = false) = true) :
      ∀ c ∈ fn.title, isSpace c = false := by
    intro c hc
    exact of_decide_eq_true (List.all_eq_true.mp hAll c hc)
  cases fn with
  | none => exact absurd rfl hNamed
  | list | read | write | format | loadVol | saveVol
  | listVol | newVol | delVol | new | del | save | quit
  | xit | help =>
      exact ⟨⟨_, rfl, rfl⟩, by decide, by decide,
        hVisible (by decide)⟩

section Answers

variable {δ : Type} (stdio : Stdio) (s : Session δ)

/- The answers of a typed command are read as its own. -/
theorem ask_typed
    {cmd : Command}
    (hTypable : cmd.Typable)
    (rest : List UInt8)
    (count : Nat) :
    ∃ count',
      cmd.fn.ask stdio s
          ⟨newline (lines (cmd.asked s) ++ rest), count⟩ =
        (cmd.action s, ⟨newline rest, count'⟩) := by
  have hOne (x : Int32) (count : Nat) :
      Reader.int stdio
          ⟨newline (lines [integer x.toInt] ++ rest),
            count⟩ =
        (x, ⟨newline rest, count + 1⟩) := by
    rw [lines_cons]
    exact Reader.int_line stdio x rest count
  have hFirst (x : Int32) (fields : List (List UInt8)) :
      Reader.int stdio
          ⟨newline (lines (integer x.toInt :: fields) ++
            rest), count⟩ =
        (x, ⟨newline (lines fields ++ rest), count + 1⟩) := by
    rw [lines_cons]
    exact Reader.int_line stdio x _ count
  cases cmd with
  | list | saveVol | listVol | newVol | save =>
      exact ⟨count, rfl⟩
  | read vol bloc =>
      refine ⟨count + 1 + 1, ?_⟩
      have hVol := hFirst vol [integer bloc.toInt]
      have hBloc := hOne bloc (count + 1)
      change CmdFun.read.ask stdio s
        ⟨newline (lines [integer vol.toInt,
          integer bloc.toInt] ++ rest), count⟩ = _
      simp only [ask, hVol, hBloc]
      rfl
  | format vol value =>
      refine ⟨count + 1 + 1, ?_⟩
      have hVol := hFirst vol [integer value.toInt]
      have hValue := hOne value (count + 1)
      change CmdFun.format.ask stdio s
        ⟨newline (lines [integer vol.toInt,
          integer value.toInt] ++ rest), count⟩ = _
      simp only [ask, hVol, hValue]
      rfl
  | write vol bloc word =>
      refine ⟨count + 1 + 1, ?_⟩
      have hVol := hFirst vol [integer bloc.toInt, word]
      have hBloc :
          Reader.int stdio
              ⟨newline (lines [integer bloc.toInt, word] ++
                rest), count + 1⟩ =
            (bloc, ⟨newline (lines [word] ++ rest),
              count + 1 + 1⟩) := by
        rw [lines_cons]
        exact Reader.int_line stdio bloc _ (count + 1)
      have hWord :
          Reader.word Option.none
              ⟨newline (lines [word] ++ rest),
                count + 1 + 1⟩ =
            (some word, ⟨newline rest, count + 1 + 1⟩) := by
        rw [lines_cons]
        exact Reader.word_line rest (count + 1 + 1)
          newline_space hTypable.1 hTypable.2
          (fun w hw => by cases hw)
      change CmdFun.write.ask stdio s
        ⟨newline (lines [integer vol.toInt,
          integer bloc.toInt, word] ++ rest), count⟩ = _
      simp only [ask, hVol, hBloc, hWord]
      rfl
  | loadVol choice =>
      refine ⟨count + 1, ?_⟩
      change CmdFun.loadVol.ask stdio s
        ⟨newline (lines [integer choice.toInt] ++ rest),
          count⟩ = _
      simp only [ask, hOne]
      rfl
  | delVol choice =>
      refine ⟨count + 1, ?_⟩
      change CmdFun.delVol.ask stdio s
        ⟨newline (lines [integer choice.toInt] ++ rest),
          count⟩ = _
      simp only [ask, hOne]
      rfl
  | new nbloc =>
      by_cases hFull : 8 ≤ s.mbr.count
      · refine ⟨count, ?_⟩
        simp only [Command.fn, Command.asked, Command.Asks,
          Command.action, ask, hFull]
        rfl
      · refine ⟨count + 1, ?_⟩
        simp only [Command.fn, Command.asked, Command.Asks,
          Command.action, Command.answers, ask, hFull]
        simp only [not_false_eq_true, if_true, if_false,
          reduceCtorEq, hOne]
  | del vol =>
      by_cases hEmpty : s.mbr.count ≤ 0
      · refine ⟨count, ?_⟩
        simp only [Command.fn, Command.asked, Command.Asks,
          Command.action, ask, hEmpty]
        rfl
      · refine ⟨count + 1, ?_⟩
        simp only [Command.fn, Command.asked, Command.Asks,
          Command.action, Command.answers, ask, hEmpty]
        simp only [not_false_eq_true, if_true, if_false,
          reduceCtorEq, hOne]

end Answers

end CmdFun

------------------------------------------------------------
-- Executing a Script
------------------------------------------------------------

variable {δ : Type} [Drive δ]
variable {libc : Libc} {stdio : Stdio}

/- A superblock with a name can be displayed. -/
omit [Drive δ] in
theorem Session.currentVolText_isSome
    {s : Session δ}
    (hNamed : s.Named)
    (hDisplay : s.displayCurrentVol.isSome) :
    s.currentVolText.isSome := by
  unfold displayCurrentVol at hDisplay
  unfold currentVolText
  cases hSb : s.currentSuperbloc with
  | none => rfl
  | some sb =>
      rw [hSb] at hDisplay
      have hName :
          cString? sb.name.toList =
            some (sb.name.toList.takeWhile fun c => c ≠ 0) :=
        if_pos (hNamed sb hSb)
      dsimp only at hDisplay ⊢
      rw [hName]
      cases hWalk :
          s.heap.walk ListBloc.next (s.heap.size + 1)
            sb.first with
      | none => simp [hWalk] at hDisplay
      | some nodes => rfl

/- `list_vol` is executed as the text that it prints. -/
omit [Drive δ] in
theorem Command.action_ne_listVol
    (cmd : Command)
    (s : Session δ) :
    cmd.action s ≠ .command .listVol := by
  unfold action
  split_ifs with hList
  · simp
  · simpa using hList
  · simp

/- Where `list_vol` is not typed, no name is displayed. -/
theorem always_named
    (libc : Libc)
    (s : Session δ)
    {cmds : List Command}
    (hNone : .listVol ∉ cmds) :
    Always (Command.exec libc) s cmds
      fun u cmd => cmd = .listVol → u.Named := by
  rintro u cmd hPerforms rfl
  exact absurd hPerforms.mem hNone

/- What is typed for a command executes it. -/
theorem Command.perform_action
    {s t : Session δ}
    {cmd : Command}
    (hExec : cmd.exec libc s = some t)
    (hNamed : cmd = .listVol → s.Named) :
    (cmd.action s).perform libc s = some (none, t) := by
  have hPlain (hAsks : cmd.Asks s) (hCmd : cmd ≠ .listVol) :
      (cmd.action s).perform libc s = some (none, t) := by
    unfold action
    rw [if_neg hCmd, if_pos hAsks]
    exact congrArg (Option.map _) hExec
  cases cmd with
  | listVol =>
      have hSame := exec_listVol hExec
      subst hSame
      have hDisplay : t.displayCurrentVol = some t := hExec
      have hText :=
        Session.currentVolText_isSome (hNamed rfl)
          (by rw [hDisplay]; rfl)
      rcases Option.isSome_iff_exists.mp hText with
        ⟨currentVol, hText⟩
      exact congrArg (Option.map _) hText
  | new nbloc =>
      by_cases hAsks : (Command.new nbloc).Asks s
      · exact hPlain hAsks (by simp)
      · have hFull : 8 ≤ s.mbr.count := not_not.mp hAsks
        rcases exec_new hExec with ⟨mbr, hNew, rfl⟩
        rw [Mbr.new, if_pos hFull] at hNew
        cases hNew
        unfold action
        rw [if_neg (by simp), if_neg hAsks]
        rfl
  | del vol =>
      by_cases hAsks : (Command.del vol).Asks s
      · exact hPlain hAsks (by simp)
      · have hEmpty : s.mbr.count ≤ 0 := not_not.mp hAsks
        rcases exec_del hExec with ⟨mbr, hDel, rfl⟩
        rw [Mbr.del, if_pos hEmpty] at hDel
        cases hDel
        unfold action
        rw [if_neg (by simp), if_neg hAsks]
        rfl
  | list | read _ _ | write _ _ _ | format _ _ | loadVol _
  | saveVol | newVol | delVol _ | save =>
      exact hPlain trivial (by simp)

namespace Talk

/- One iteration of the loop, on a typed line. -/
theorem loop_line
    {fn : CmdFun}
    {space rest said : List UInt8}
    {c : Cmd}
    {d : Dialog δ}
    {a : Action}
    {r : Reader}
    {result : Option Ending}
    {t : Session δ}
    (hSpace : ∀ c ∈ space, isSpace c = true)
    (hNamed : fn ≠ .none)
    (hLookup : lookup fn.title = some c)
    (hInput :
      d.reader.input = space ++ (fn.title ++ newline rest))
    (hAsk :
      fn.ask stdio d.session
          ⟨newline rest, d.reader.asked⟩ =
        (a, r))
    (hPerform : a.perform libc d.session = some (result, t))
    (hPrinted : a.printed libc c d.session = some said) :
    let next : Dialog δ :=
      ⟨t, r, d.output ++ text "> " ++ said⟩
    (loop libc stdio).run d =
      result.elim ((loop libc stdio).run next)
        fun ending => some (ending, next) := by
  intro next
  rcases CmdFun.lookup_title hNamed with
    ⟨⟨c', hLookup', rfl⟩, hTitle, hLength, hRun⟩
  cases hLookup'.symm.trans hLookup
  have hWord :
      d.reader.word (some 62) =
        (some c.fn.title,
          ⟨newline rest, d.reader.asked⟩) := by
    have hLine :
        Reader.word (some 62)
            ⟨space ++ (c.fn.title ++ newline rest),
              d.reader.asked⟩ =
          (some c.fn.title,
            ⟨newline rest, d.reader.asked⟩) :=
      Reader.word_line rest d.reader.asked hSpace hTitle hRun
        (fun w hw => by cases hw; exact hLength)
    rw [← hInput] at hLine
    exact hLine
  have hCall :
      (call libc stdio c).run
          { d with
            reader := ⟨newline rest, d.reader.asked⟩
            output := d.output ++ text "> " } =
        some (result, next) := by
    rw [call_run libc stdio c _]
    dsimp only
    rw [hAsk]
    simp only [hPerform, hPrinted, Option.bind_eq_bind,
      Option.bind_some, next]
  rw [loop_eq]
  simp only [StateT.run_bind, run_printf, run_scanfName,
    hWord, Option.bind_eq_bind, Option.bind_some, execute,
    hLookup]
  have hLift :
      (liftM (some c) : Talk δ Cmd).run
          { d with
            reader := ⟨newline rest, d.reader.asked⟩
            output := d.output ++ text "> " } =
        some (c,
          { d with
            reader := ⟨newline rest, d.reader.asked⟩
            output := d.output ++ text "> " }) := rfl
  rw [hLift, Option.bind_some]
  dsimp only
  rw [hCall, Option.bind_some]
  cases result with
  | none => rfl
  | some ending => rfl

/- The loop executes a script, whatever space precedes it. -/
theorem loop_script
    (stdio : Stdio)
    {cmds : List Command}
    {ending : Ending}
    {d : Dialog δ}
    {space : List UInt8}
    {s t : Session δ}
    (hSpace : ∀ c ∈ space, isSpace c = true)
    (hInput :
      d.reader.input =
        space ++ script libc ending d.session cmds)
    (hTypable : ∀ cmd ∈ cmds, cmd.Typable)
    (hRun :
      run (Command.exec libc) d.session cmds = some s)
    (hNamed :
      Always (Command.exec libc) d.session cmds
        fun u cmd => cmd = .listVol → u.Named)
    (hEnd :
      (Action.leave ending).perform libc s =
        some (some ending, t)) :
    ∃ said d',
      transcript libc d.session cmds = some said ∧
        (loop libc stdio).run d = some (ending, d') ∧
        d'.session = t ∧
        d'.output =
          d.output ++ said ++ (text "> " ++ ending.reply) := by
  induction cmds generalizing d space with
  | nil =>
      cases hRun
      have hNewline : lines [ending.fn.title] =
          ending.fn.title ++ newline [] := by
        have hLine := lines_cons ending.fn.title [] []
        rw [List.append_nil] at hLine
        exact hLine
      have hScript :
          d.reader.input =
            space ++ (ending.fn.title ++ newline []) :=
        hNewline ▸ hInput
      have hFn : ending.fn ≠ .none := by
        cases ending <;> decide
      have hAsk :
          ending.fn.ask stdio d.session
              ⟨newline [], d.reader.asked⟩ =
            (.leave ending, ⟨newline [], d.reader.asked⟩) := by
        cases ending <;> rfl
      have hLookup :
          ∃ c, lookup ending.fn.title = some c ∧
            (Action.leave ending).printed libc c d.session =
              some ending.reply := by
        cases ending <;> exact ⟨_, rfl, rfl⟩
      rcases hLookup with ⟨c, hLookup, hPrinted⟩
      have hLoop :=
        loop_line hSpace hFn hLookup hScript hAsk hEnd
          hPrinted
      refine ⟨[], _, rfl, hLoop, rfl, ?_⟩
      rw [List.append_nil, List.append_assoc]
  | cons cmd cmds ih =>
      rw [run_cons, Option.bind_eq_some_iff] at hRun
      rcases hRun with ⟨u, hExec, hRun⟩
      have hFn : cmd.fn ≠ .none := by
        cases cmd <;> simp [Command.fn]
      have hScript :
          d.reader.input =
            space ++ (cmd.fn.title ++
              newline (lines (cmd.asked d.session) ++
                script libc ending u cmds)) := by
        rw [hInput, script, hExec, Command.typedText,
          lines_cons]
      rcases CmdFun.ask_typed stdio d.session
          (hTypable cmd List.mem_cons_self)
          (script libc ending u cmds) d.reader.asked with
        ⟨count, hAsk⟩
      have hPerform :=
        Command.perform_action hExec
          (hNamed d.session cmd
            (performs_cons.mpr (Or.inl ⟨rfl, rfl⟩)))
      rcases CmdFun.lookup_title hFn with
        ⟨⟨c, hLookup, _⟩, _⟩
      rcases Action.printed_isSome hPerform
          (cmd.action_ne_listVol d.session) c with
        ⟨reply, hPrinted⟩
      have hReply :
          cmd.reply libc d.session = some reply := by
        simp only [Command.reply, hLookup,
          Option.bind_eq_bind, Option.bind_some, hPrinted]
      have hLoop :=
        loop_line hSpace hFn hLookup hScript hAsk hPerform
          hPrinted
      let next : Dialog δ :=
        ⟨u, ⟨newline (script libc ending u cmds), count⟩,
          d.output ++ text "> " ++ reply⟩
      have hNext :
          next.reader.input =
            text "\n" ++ script libc ending next.session cmds :=
        rfl
      rcases ih newline_space hNext
          (fun other hOther =>
            hTypable other (List.mem_cons_of_mem cmd hOther))
          hRun
          (fun v other hPerforms => hNamed v other
            (performs_cons.mpr
              (Or.inr ⟨u, hExec, hPerforms⟩))) with
        ⟨said, d', hSaid, hLoop', hSession, hOutput⟩
      refine ⟨text "> " ++ reply ++ said, d', ?_,
        hLoop.trans hLoop', hSession, ?_⟩
      · have hRest : transcript libc u cmds = some said :=
          hSaid
        simp only [transcript, hReply, hExec, hRest,
          Option.bind_eq_bind, Option.bind_some]
      · simp only [hOutput, next, List.append_assoc]

/-
  Commands that are typed one word on a line are executed as
  they are meant, and then the process ends as typed.  What it
  prints is their transcript and a last prompt.
-/
theorem vm_runs_script
    {calls : Nat}
    {dev : δ}
    {cmds : List Command}
    {ending : Ending}
    {s t : Session δ}
    (hTypable : ∀ cmd ∈ cmds, cmd.Typable)
    (hRun :
      run (Command.exec libc) (boot libc calls dev) cmds =
        some s)
    (hNamed :
      Always (Command.exec libc) (boot libc calls dev) cmds
        fun u cmd => cmd = .listVol → u.Named)
    (hEnd :
      (Action.leave ending).perform libc s =
        some (some ending, t)) :
    ∃ said d,
      transcript libc (boot libc calls dev) cmds =
          some said ∧
        vm libc stdio calls
            (script libc ending (boot libc calls dev) cmds)
            dev =
          some (ending, d) ∧
        d.session = t ∧
        d.output = said ++ (text "> " ++ ending.reply) := by
  have hNone : ∀ c ∈ ([] : List UInt8), isSpace c = true := by
    intro c hc
    cases hc
  let start : Dialog δ :=
    { session := boot libc calls dev
      reader :=
        ⟨script libc ending (boot libc calls dev) cmds, 0⟩
      output := [] }
  have hInput :
      start.reader.input =
        [] ++ script libc ending start.session cmds := rfl
  exact
    loop_script stdio hNone hInput hTypable hRun hNamed hEnd

/- A volume is created and listed. -/
theorem vm_runs_script_new :
    let dev : Disk := fun _ => Sector.filled 0
    let start := boot Session.sampleLibc 0 dev
    let cmds : List Command := [.new 5, .list]
    ∃ said d,
      transcript Session.sampleLibc start cmds = some said ∧
        vm Session.sampleLibc ⟨fun _ => 0, fun _ => 0⟩ 0
            (script Session.sampleLibc .exit start cmds)
            dev =
          some (.exit, d) ∧
        d.session.mbr.count = 1 ∧
        d.output = said ++ (text "> " ++ Ending.exit.reply) := by
  intro dev start cmds
  have hTypable : ∀ cmd ∈ cmds, cmd.Typable := by decide
  have hCount :
      (run (Command.exec Session.sampleLibc) start cmds).map
        (fun s => s.mbr.count) = some 1 := by
    rfl
  rcases hResult :
      run (Command.exec Session.sampleLibc) start cmds with
    _ | s
  · rw [hResult] at hCount
    cases hCount
  rw [hResult] at hCount
  have hNamed :=
    always_named Session.sampleLibc start
      (show .listVol ∉ cmds by decide)
  have hEnd :
      (Action.leave .exit).perform Session.sampleLibc s =
        some (some .exit, s) := rfl
  rcases vm_runs_script hTypable hResult hNamed hEnd with
    ⟨said, d, hSaid, hVm, hSession, hOutput⟩
  refine ⟨said, d, hSaid, hVm, ?_, hOutput⟩
  rw [hSession]
  exact Option.some.inj hCount

end Talk

end AsaKernel
