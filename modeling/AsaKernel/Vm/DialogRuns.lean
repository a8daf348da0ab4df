import AsaKernel.Superbloc.Conservation
import AsaKernel.Vm.Dialog

/-
  The dialog as a sequence of commands (vm.c).

  The functions of the program read, print and execute in
  turn.  What they read decides an action, what they do to the
  globals is this action, and what they print is its text, so
  the dialog is a reader of commands followed by their
  execution.

  Main declarations:
    * `Action`, `Action.perform`, `CmdFun.ask`
    * `Action.printed`
    * `Talk.CarriesOut`, `Talk.call_run`, `Talk.loop_eq`
    * `vm_runs_commands`
-/

------------------------------------------------------------
-- Actions
------------------------------------------------------------

namespace AsaKernel

open Scanning Transition

/-
  What a typed command does to the globals: a command with its
  answers; a `write` at the end of the input, which writes the
  buffer as it is; the text of the loaded volume; nothing, or
  the end of the process.
-/
inductive Action where
  | command (cmd : Command)
  | rewrite (vol bloc : Int32)
  | display
  | idle
  | leave (ending : Ending)
deriving DecidableEq, Repr

namespace Action

variable {δ : Type} [Drive δ]

def perform
    (libc : Libc)
    (s : Session δ) :
    Action → Option (Option Ending × Session δ)
| .command cmd => (cmd.exec libc s).map fun t => (none, t)
| .rewrite vol bloc =>
    (Talk.writeBuffer vol bloc s).map fun t => (none, t)
| .display => s.currentVolText.map fun _ => (none, s)
| .idle => some (none, s)
| .leave .quit =>
    (s.quit libc).map fun t => (some .quit, t)
| .leave .exit => some (some .exit, s)

end Action

/- The action that is read for a function of the table. -/
def CmdFun.ask
    {δ : Type}
    (stdio : Stdio)
    (s : Session δ)
    (r : Reader) : CmdFun → Action × Reader
| .list => (.command .list, r)
| .read =>
    let (vol, r) := r.int stdio
    let (bloc, r) := r.int stdio
    (.command (.read vol bloc), r)
| .write =>
    let (vol, r) := r.int stdio
    let (bloc, r) := r.int stdio
    match r.word Option.none with
    | (Option.none, r) => (.rewrite vol bloc, r)
    | (some field, r) => (.command (.write vol bloc field), r)
| .format =>
    let (vol, r) := r.int stdio
    let (value, r) := r.int stdio
    (.command (.format vol value), r)
| .loadVol =>
    let (choice, r) := r.int stdio
    (.command (.loadVol choice), r)
| .saveVol => (.command .saveVol, r)
| .listVol => (.display, r)
| .newVol => (.command .newVol, r)
| .delVol =>
    let (choice, r) := r.int stdio
    (.command (.delVol choice), r)
| .new =>
    if 8 ≤ s.mbr.count then (.idle, r)
    else
      let (nbloc, r) := r.int stdio
      (.command (.new nbloc), r)
| .del =>
    if s.mbr.count ≤ 0 then (.idle, r)
    else
      let (vol, r) := r.int stdio
      (.command (.del vol), r)
| .save => (.command .save, r)
| .quit => (.leave .quit, r)
| .xit => (.leave .exit, r)
| .help | .none => (.idle, r)

------------------------------------------------------------
-- Texts of Actions
------------------------------------------------------------

/- The line that ends most functions. -/
def Cmd.doneText
    (c : Cmd) : List UInt8 :=
  c.title ++ text " done\n"

/- What `help` prints. -/
def helpText : List UInt8 :=
  (commands.takeWhile fun c => c.name.isSome).flatMap
    fun c => c.title ++ text "\t-- " ++ text c.comment ++
      text "\n"

/- What a function prints that finds nothing to do. -/
def Cmd.idleText
    (c : Cmd) : List UInt8 :=
  match c.fn with
  | .new =>
      c.title ++ text " aborted\n" ++
        text "There are already 8 volumes on disk.\n"
  | .del =>
      c.title ++ text " aborted\n" ++
        text "There are no volumes on disk.\n"
  | .help => helpText
  | _ => text c.comment ++ text "\n"

/- What the function of an entry prints of its action. -/
def Action.printed
    {δ : Type}
    [Drive δ]
    (libc : Libc)
    (c : Cmd)
    (s : Session δ) : Action → Option (List UInt8)
| .command .list => do
    let listing ← s.mbr.listing
    some (listing ++ c.doneText)
| .command (.read vol bloc) => do
    let (bloc, _) ←
      s.mbr.displayBloc vol.toUInt32 bloc.toUInt32 s.dev
    some (text "Which Volum? : " ++ text "Which Bloc? : " ++
      text "0x" ++ bloc.flatMap String.utf8EncodeChar ++
      text "\n" ++ c.doneText)
| .command (.write _ _ _) | .rewrite _ _ =>
    some (text "Which Volum? : " ++ text "Which Bloc? : " ++
      text "Write what do you want:\n" ++ c.doneText)
| .command (.format _ _) =>
    some (text "Which Volum? : " ++
      text "Which Value? : \n" ++ c.doneText)
| .command (.loadVol _) =>
    some (text "Which Volum to load? : " ++ c.doneText)
| .command .listVol | .display => do
    let currentVol ← s.currentVolText
    some (currentVol ++ c.doneText)
| .command .newVol => do
    let (number, _) ← s.newBloc
    some (newVolText number.toInt32 ++ c.doneText)
| .command (.delVol choice) => do
    let (result, _) ← s.freeBloc libc choice.toUInt32
    some (text "Which Bloc to free? : " ++
      delVolText choice result ++ c.doneText)
| .command (.new _) =>
    some (text "How many blocs in new vol? " ++ c.doneText)
| .command (.del _) =>
    some (text "which vol delete ? : " ++ c.doneText)
| .command .saveVol | .command .save | .leave .quit =>
    some c.doneText
| .leave .exit => some []
| .idle => some c.idleText

/- A listing needs the volumes of its lines. -/
theorem listing_isSome
    (mbr : Mbr) :
    mbr.listing.isSome ↔ mbr.count ≤ 8 := by
  have hAll (n : Nat) :
      ((List.range n).mapM fun i : Nat =>
          mbr.volume? (i : Int)).isSome ↔ n ≤ 8 := by
    induction n with
    | zero => simp
    | succ n ih =>
        have hVolume :
            (mbr.volume? (n : Int)).isSome ↔
              0 ≤ (n : Int) ∧ (n : Int) < 8 :=
          Mbr.volume?_isSome_iff
        rw [List.range_succ, List.mapM_append]
        cases hInit : (List.range n).mapM fun i : Nat =>
            mbr.volume? (i : Int) with
        | none =>
            rw [hInit] at ih
            simp at ih ⊢
            omega
        | some volumes =>
            rw [hInit] at ih
            cases hLast : mbr.volume? (n : Int) with
            | none =>
                rw [hLast] at hVolume
                simp [hLast] at hVolume ⊢
                omega
            | some volume =>
                rw [hLast] at hVolume
                simp [hLast] at hVolume ⊢
                omega
  have hCount :
      mbr.count ≤ 8 ↔ mbr.count.toInt.toNat ≤ 8 := by
    rw [Int32.le_iff_toInt_le]
    change mbr.count.toInt ≤ 8 ↔ _
    omega
  rw [hCount, ← hAll]
  unfold Mbr.listing
  cases (List.range mbr.count.toInt.toNat).mapM fun i : Nat =>
      mbr.volume? (i : Int) with
  | none => rfl
  | some volumes => rfl

/- An action that is read and performed has a text. -/
theorem Action.printed_isSome
    {δ : Type}
    [Drive δ]
    {libc : Libc}
    {s : Session δ}
    {a : Action}
    {p : Option Ending × Session δ}
    (hPerform : a.perform libc s = some p)
    (hAsked : a ≠ .command .listVol)
    (c : Cmd) :
    ∃ said, a.printed libc c s = some said := by
  cases a with
  | rewrite _ _ | idle => exact ⟨_, rfl⟩
  | leave ending =>
      cases ending with
      | quit | exit => exact ⟨_, rfl⟩
  | display =>
      rcases Option.map_eq_some_iff.mp hPerform with
        ⟨currentVol, hText, _⟩
      exact ⟨currentVol ++ c.doneText, by simp [printed, hText]⟩
  | command cmd =>
      rcases Option.map_eq_some_iff.mp hPerform with
        ⟨t, hExec, _⟩
      cases cmd with
      | listVol => exact absurd rfl hAsked
      | list =>
          have hListing := listing_isSome s.mbr
          have hCount : s.mbr.count ≤ 8 := by
            by_contra hMore
            rw [Command.exec, if_neg hMore] at hExec
            cases hExec
          rcases Option.isSome_iff_exists.mp
              (hListing.mpr hCount) with ⟨listing, hText⟩
          exact ⟨listing ++ c.doneText, by simp [printed, hText]⟩
      | read vol bloc =>
          rcases Option.bind_eq_some_iff.mp hExec with
            ⟨⟨content, dev⟩, hRead, _⟩
          have hDump := Mbr.displayBloc_of_readBloc hRead
          exact ⟨_, by simp only [printed, hDump]; rfl⟩
      | newVol =>
          rcases Option.bind_eq_some_iff.mp hExec with
            ⟨result, hNew, _⟩
          exact ⟨_, by simp only [printed, hNew]; rfl⟩
      | delVol choice =>
          rcases Option.bind_eq_some_iff.mp hExec with
            ⟨result, hFree, _⟩
          exact ⟨_, by simp only [printed, hFree]; rfl⟩
      | write _ _ _ | format _ _ | loadVol _ | saveVol
      | new _ | del _ | save => exact ⟨_, rfl⟩

------------------------------------------------------------
-- One Command
------------------------------------------------------------

namespace Talk

variable {δ α : Type}

variable {d : Dialog δ}

@[simp] theorem run_printf
    (bytes : List UInt8) :
    (printf bytes).run d =
      some ((), { d with output := d.output ++ bytes }) := rfl

@[simp] theorem run_scanfInt
    (stdio : Stdio) :
    (scanfInt stdio).run d =
      some ((d.reader.int stdio).1,
        { d with reader := (d.reader.int stdio).2 }) := rfl

@[simp] theorem run_scanfName :
    scanfName.run d =
      some ((d.reader.word (some 62)).1,
        { d with reader := (d.reader.word (some 62)).2 }) :=
  rfl

@[simp] theorem run_update
    (f : Session δ → Option (Session δ)) :
    (update f).run d =
      (f d.session).map fun s =>
        ((), { d with session := s }) := by
  cases hResult : f d.session with
  | none => simp [update, hResult]
  | some s => simp [update, hResult]

@[simp] theorem run_answer
    (f : Session δ → Option (α × Session δ)) :
    (answer f).run d =
      (f d.session).map fun p =>
        (p.1, { d with session := p.2 }) := by
  cases hResult : f d.session with
  | none => simp [answer, hResult]
  | some p => simp [answer, hResult]

@[simp] theorem run_done
    (c : Cmd) :
    (done c).run d =
      some ((), { d with
        output :=
          d.output ++ (c.title ++ text " done\n") }) := rfl

variable [Drive δ]

/-
  The function of an entry reads its action, performs it and
  prints its text.
-/
def CarriesOut
    (δ : Type)
    [Drive δ]
    (libc : Libc)
    (stdio : Stdio)
    (c : Cmd) : Prop :=
  ∀ d : Dialog δ,
    (call libc stdio c).run d =
      (do
        let (action, reader) :=
          c.fn.ask stdio d.session d.reader
        let (ending, session) ←
          action.perform libc d.session
        let said ← action.printed libc c d.session
        some (ending,
          { session := session
            reader := reader
            output := d.output ++ said }))

section Functions

variable (libc : Libc) (stdio : Stdio)
variable (name : Option String) (comment : String)

theorem call_list :
    CarriesOut δ libc stdio ⟨name, .list, comment⟩ := by
  intro d
  have hListing := listing_isSome d.session.mbr
  simp only [CmdFun.ask, Action.perform, Command.exec,
    Action.printed]
  cases hText : d.session.mbr.listing with
  | none =>
      rw [hText] at hListing
      simp [call, list, hText, ← hListing]
  | some listing =>
      rw [hText] at hListing
      simp [call, list, hText, ← hListing, Cmd.doneText]

theorem call_read :
    CarriesOut δ libc stdio ⟨name, .read, comment⟩ := by
  intro d
  simp only [CmdFun.ask, Action.perform, Command.exec,
    Action.printed]
  generalize hVol : d.reader.int stdio = vol
  generalize hBloc : vol.2.int stdio = bloc
  cases hRead :
      d.session.mbr.readBloc vol.1.toUInt32
        bloc.1.toUInt32 d.session.dev with
  | none =>
      simp [call, read, displayBloc, Mbr.displayBloc,
        hVol, hBloc, hRead]
  | some p =>
      simp [call, read, displayBloc, Mbr.displayBloc,
        hVol, hBloc, hRead, Cmd.doneText]

theorem call_write :
    CarriesOut δ libc stdio ⟨name, .write, comment⟩ := by
  intro d
  simp only [CmdFun.ask]
  generalize hVol : d.reader.int stdio = vol
  generalize hBloc : vol.2.int stdio = bloc
  cases hWord : bloc.2.word Option.none with
  | mk field r =>
  cases field with
  | none =>
      simp [call, write, scanfBuffer, Action.perform,
        Action.printed, hVol, hBloc, hWord, Cmd.doneText]
      cases writeBuffer vol.1 bloc.1 d.session with
      | none => rfl
      | some s => simp
  | some field =>
      cases hScan : scanWord field d.session.buffer with
      | none =>
          simp [call, write, scanfBuffer, Action.perform,
            Command.exec, hVol, hBloc, hWord, hScan]
      | some buffer =>
          simp [call, write, scanfBuffer, writeBuffer,
            Action.perform, Action.printed, Command.exec,
            hVol, hBloc, hWord, hScan, Cmd.doneText]
          cases d.session.mbr.writeBloc vol.1.toUInt32
              bloc.1.toUInt32 buffer d.session.dev with
          | none => rfl
          | some dev => simp

theorem call_format :
    CarriesOut δ libc stdio ⟨name, .format, comment⟩ := by
  intro d
  simp only [CmdFun.ask, Action.perform, Command.exec,
    Action.printed]
  generalize hVol : d.reader.int stdio = vol
  generalize hValue : vol.2.int stdio = value
  cases hFormat :
      d.session.mbr.formatVol vol.1.toUInt32
        value.1.toUInt32 d.session.dev with
  | none => simp [call, format, hVol, hValue, hFormat]
  | some dev =>
      simp [call, format, hVol, hValue, hFormat,
        Cmd.doneText]

theorem call_loadVol :
    CarriesOut δ libc stdio ⟨name, .loadVol, comment⟩ := by
  intro d
  simp only [CmdFun.ask, Action.perform, Command.exec,
    Action.printed]
  generalize hChoice : d.reader.int stdio = choice
  cases hLoad : d.session.loadVol libc choice.1 with
  | none => simp [call, loadVol, hChoice, hLoad]
  | some s =>
      simp [call, loadVol, hChoice, hLoad, Cmd.doneText]

theorem call_saveVol :
    CarriesOut δ libc stdio ⟨name, .saveVol, comment⟩ := by
  intro d
  simp only [CmdFun.ask, Action.perform, Command.exec,
    Action.printed]
  cases hSave : d.session.saveSuper libc with
  | none => simp [call, saveVol, hSave]
  | some s => simp [call, saveVol, hSave, Cmd.doneText]

theorem call_listVol :
    CarriesOut δ libc stdio ⟨name, .listVol, comment⟩ := by
  intro d
  simp only [CmdFun.ask, Action.perform, Action.printed]
  cases hText : d.session.currentVolText with
  | none => simp [call, listVol, hText]
  | some currentVol =>
      simp [call, listVol, hText, Cmd.doneText]

theorem call_newVol :
    CarriesOut δ libc stdio ⟨name, .newVol, comment⟩ := by
  intro d
  simp only [CmdFun.ask, Action.perform, Command.exec,
    Action.printed]
  cases hNew : d.session.newBloc with
  | none => simp [call, newVol, hNew]
  | some p => simp [call, newVol, hNew, Cmd.doneText]

theorem call_delVol :
    CarriesOut δ libc stdio ⟨name, .delVol, comment⟩ := by
  intro d
  simp only [CmdFun.ask, Action.perform, Command.exec,
    Action.printed]
  generalize hChoice : d.reader.int stdio = choice
  cases hFree :
      d.session.freeBloc libc choice.1.toUInt32 with
  | none => simp [call, delVol, hChoice, hFree]
  | some p =>
      simp [call, delVol, hChoice, hFree, Cmd.doneText]

theorem call_new :
    CarriesOut δ libc stdio ⟨name, .new, comment⟩ := by
  intro d
  simp only [CmdFun.ask]
  by_cases hFull : 8 ≤ d.session.mbr.count
  · simp [call, new, Action.perform, Action.printed, hFull,
      Cmd.idleText]
  · generalize hNbloc : d.reader.int stdio = nbloc
    cases hNew : d.session.mbr.new nbloc.1 with
    | none =>
        simp [call, new, Action.perform, Command.exec,
          hFull, hNbloc, hNew]
    | some mbr =>
        simp [call, new, Action.perform, Action.printed,
          Command.exec, hFull, hNbloc, hNew,
          Cmd.doneText]

theorem call_del :
    CarriesOut δ libc stdio ⟨name, .del, comment⟩ := by
  intro d
  simp only [CmdFun.ask]
  by_cases hEmpty : d.session.mbr.count ≤ 0
  · simp [call, del, Action.perform, Action.printed, hEmpty,
      Cmd.idleText]
  · generalize hVol : d.reader.int stdio = vol
    cases hDel : d.session.mbr.del vol.1 with
    | none =>
        simp [call, del, Action.perform, Command.exec,
          hEmpty, hVol, hDel]
    | some mbr =>
        simp [call, del, Action.perform, Action.printed,
          Command.exec, hEmpty, hVol, hDel, Cmd.doneText]

theorem call_save :
    CarriesOut δ libc stdio ⟨name, .save, comment⟩ := by
  intro d
  simp [call, save, CmdFun.ask, Action.perform,
    Action.printed, Command.exec, Cmd.doneText]

theorem call_quit :
    CarriesOut δ libc stdio ⟨name, .quit, comment⟩ := by
  intro d
  simp only [CmdFun.ask, Action.perform, Action.printed]
  cases hQuit : d.session.quit libc with
  | none => simp [call, quit, hQuit]
  | some s => simp [call, quit, hQuit, Cmd.doneText]

theorem call_xit :
    CarriesOut δ libc stdio ⟨name, .xit, comment⟩ := by
  intro d
  simp [call, CmdFun.ask, Action.perform, Action.printed]

theorem call_help :
    CarriesOut δ libc stdio ⟨name, .help, comment⟩ := by
  intro d
  simp [call, help, CmdFun.ask, Action.perform,
    Action.printed, Cmd.idleText, helpText]

theorem call_none :
    CarriesOut δ libc stdio ⟨name, .none, comment⟩ := by
  intro d
  simp [call, none, CmdFun.ask, Action.perform,
    Action.printed, Cmd.idleText]

end Functions

/- Every function of the table does this. -/
theorem call_run
    (libc : Libc)
    (stdio : Stdio)
    (c : Cmd) :
    CarriesOut δ libc stdio c := by
  rcases c with ⟨name, fn, comment⟩
  cases fn with
  | list => exact call_list libc stdio name comment
  | read => exact call_read libc stdio name comment
  | write => exact call_write libc stdio name comment
  | format => exact call_format libc stdio name comment
  | loadVol => exact call_loadVol libc stdio name comment
  | saveVol => exact call_saveVol libc stdio name comment
  | listVol => exact call_listVol libc stdio name comment
  | newVol => exact call_newVol libc stdio name comment
  | delVol => exact call_delVol libc stdio name comment
  | new => exact call_new libc stdio name comment
  | del => exact call_del libc stdio name comment
  | save => exact call_save libc stdio name comment
  | quit => exact call_quit libc stdio name comment
  | xit => exact call_xit libc stdio name comment
  | help => exact call_help libc stdio name comment
  | none => exact call_none libc stdio name comment

end Talk

------------------------------------------------------------
-- Consumption
------------------------------------------------------------

theorem Reader.int_length
    (stdio : Stdio)
    (r : Reader) :
    (r.int stdio).2.input.length ≤ r.input.length :=
  number_length r.input

theorem Reader.word_length
    (width : Option Nat)
    (r : Reader) :
    (r.word width).2.input.length ≤ r.input.length ∧
      ((r.word width).1 ≠ none →
        (r.word width).2.input.length < r.input.length) := by
  unfold Reader.word
  cases hWord : Scanning.word width r.input with
  | none => simp
  | some p =>
      have hLess := Scanning.word_length hWord
      exact ⟨Nat.le_of_lt hLess, fun _ => hLess⟩

/- Answers are never put back. -/
theorem CmdFun.ask_length
    {δ : Type}
    (stdio : Stdio)
    (s : Session δ)
    (r : Reader)
    (fn : CmdFun) :
    (fn.ask stdio s r).2.input.length ≤ r.input.length := by
  have hOne := Reader.int_length stdio r
  have hTwo := Reader.int_length stdio (r.int stdio).2
  cases fn with
  | write =>
      have hWord :=
        (Reader.word_length Option.none
          ((r.int stdio).2.int stdio).2).1
      simp only [ask]
      generalize ((r.int stdio).2.int stdio).2 = rest at *
      rcases hField : rest.word Option.none with ⟨field, after⟩
      rw [hField] at hWord
      cases field with
      | none =>
          dsimp only at hWord ⊢
          omega
      | some field =>
          dsimp only at hWord ⊢
          omega
  | read | format =>
      simp only [ask]
      omega
  | loadVol | delVol => exact hOne
  | new | del =>
      simp only [ask]
      split_ifs
      · exact Nat.le_refl _
      · exact hOne
  | list | saveVol | listVol | newVol | save | quit | xit
  | help | none => exact Nat.le_refl _

/- A `write` without a word has read the whole input. -/
theorem CmdFun.ask_rewrite
    {δ : Type}
    {stdio : Stdio}
    {s : Session δ}
    {r : Reader}
    {fn : CmdFun}
    {vol bloc : Int32}
    (hAsk : (fn.ask stdio s r).1 = .rewrite vol bloc) :
    (fn.ask stdio s r).2.input = [] := by
  cases fn with
  | write =>
      simp only [ask] at hAsk ⊢
      generalize ((r.int stdio).2.int stdio).2 = rest at *
      unfold Reader.word at hAsk ⊢
      cases hWord : Scanning.word Option.none rest.input with
      | none => simp
      | some p => simp [hWord] at hAsk
  | new | del =>
      simp only [ask] at hAsk
      split_ifs at hAsk
  | list | read | format | loadVol | saveVol | listVol
  | newVol | delVol | save | quit | xit | help | none =>
      cases hAsk

namespace Talk

variable {δ : Type} [Drive δ]
variable {libc : Libc} {stdio : Stdio}

/- What `execute` does. -/
theorem execute_some
    {name : List UInt8}
    {d d' : Dialog δ}
    {result : Option Ending}
    (hExecute :
      (execute libc stdio name).run d = some (result, d')) :
    ∃ c, lookup name = some c ∧
      (c.fn.ask stdio d.session d.reader).1.perform libc
          d.session =
        some (result, d'.session) ∧
      d'.reader =
        (c.fn.ask stdio d.session d.reader).2 := by
  cases hLookup : lookup name with
  | none => simp [execute, hLookup] at hExecute
  | some c =>
      have hCall :
          (call libc stdio c).run d = some (result, d') := by
        simpa [execute, hLookup] using hExecute
      rw [call_run libc stdio c d] at hCall
      rcases Option.bind_eq_some_iff.mp hCall with
        ⟨⟨result', s⟩, hPerform, hPrint⟩
      rcases Option.bind_eq_some_iff.mp hPrint with
        ⟨said, _, hSame⟩
      cases hSame
      exact ⟨c, rfl, hPerform, rfl⟩

theorem execute_length
    {name : List UInt8}
    {d d' : Dialog δ}
    {result : Option Ending}
    (hExecute :
      (execute libc stdio name).run d = some (result, d')) :
    d'.reader.input.length ≤ d.reader.input.length := by
  rcases execute_some hExecute with ⟨c, _, _, hReader⟩
  rw [hReader]
  exact CmdFun.ask_length stdio d.session d.reader c.fn

/- One iteration of the loop. -/
theorem loopFrom_succ
    (fuel : Nat)
    (d : Dialog δ) :
    (loopFrom libc stdio (fuel + 1)).run d =
      let (name, reader) := d.reader.word (some 62)
      let d : Dialog δ :=
        { d with
          reader := reader
          output := d.output ++ text "> " }
      match name with
      | Option.none => some (.exit, d)
      | some name =>
          ((execute libc stdio name).run d).bind fun p =>
            match p.1 with
            | some ending => some (ending, p.2)
            | Option.none =>
                (loopFrom libc stdio fuel).run p.2 := by
  rcases hWord : d.reader.word (some 62) with ⟨name, reader⟩
  cases name with
  | none => simp [loopFrom, hWord]
  | some name =>
      simp only [loopFrom, StateT.run_bind, run_printf,
        run_scanfName, hWord, Option.bind_eq_bind,
        Option.bind_some]
      apply congrArg
      funext p
      rcases p with ⟨result, d'⟩
      cases result with
      | none => rfl
      | some ending => rfl

/- The bound does not matter if the input is shorter. -/
theorem loopFrom_stable
    {fuel fuel' : Nat}
    {d : Dialog δ}
    (hFuel : d.reader.input.length < fuel)
    (hFuel' : d.reader.input.length < fuel') :
    (loopFrom libc stdio fuel).run d =
      (loopFrom libc stdio fuel').run d := by
  induction fuel generalizing fuel' d with
  | zero => omega
  | succ fuel ih =>
      cases fuel' with
      | zero => omega
      | succ fuel' =>
          rw [loopFrom_succ, loopFrom_succ]
          have hLess :=
            (Reader.word_length (some 62) d.reader).2
          rcases hWord : d.reader.word (some 62) with
            ⟨name, reader⟩
          rw [hWord] at hLess
          cases name with
          | none => rfl
          | some name =>
              specialize hLess (Option.some_ne_none name)
              dsimp only at hLess ⊢
              cases hExecute :
                  (execute libc stdio name).run
                    { d with
                      reader := reader
                      output := d.output ++ text "> " } with
              | none => rfl
              | some p =>
                  rcases p with ⟨result, d'⟩
                  have hRest :
                      d'.reader.input.length ≤
                        reader.input.length :=
                    execute_length hExecute
                  cases result with
                  | some ending => rfl
                  | none =>
                      exact ih (d := d') (by omega) (by omega)

/-
  The loop of the program: it needs no bound, as every input
  ends.
-/
theorem loop_eq
    (d : Dialog δ) :
    (loop libc stdio).run d =
      ((do
        printf (text "> ")
        match ← scanfName with
        | Option.none => pure .exit
        | some name =>
            match ← execute libc stdio name with
            | some ending => pure ending
            | Option.none => loop libc stdio) :
        Talk δ Ending).run d := by
  have hLess := (Reader.word_length (some 62) d.reader).2
  change (loopFrom libc stdio
    (d.reader.input.length + 1)).run d = _
  rw [loopFrom_succ]
  rcases hWord : d.reader.word (some 62) with ⟨name, reader⟩
  rw [hWord] at hLess
  cases name with
  | none => simp [hWord]
  | some name =>
      specialize hLess (Option.some_ne_none name)
      simp only [StateT.run_bind, run_printf, run_scanfName,
        hWord, Option.bind_eq_bind, Option.bind_some]
      cases hExecute :
          (execute libc stdio name).run
            { d with
              reader := reader
              output := d.output ++ text "> " } with
      | none => rfl
      | some p =>
          rcases p with ⟨result, d'⟩
          have hRest :
              d'.reader.input.length ≤ reader.input.length :=
            execute_length hExecute
          cases result with
          | some ending => rfl
          | none =>
              dsimp only at hLess
              change
                (loopFrom libc stdio
                    d.reader.input.length).run d' =
                  (loopFrom libc stdio
                    (d'.reader.input.length + 1)).run d'
              exact loopFrom_stable (by omega) (by omega)

------------------------------------------------------------
-- Whole Dialogs
------------------------------------------------------------

/-
  How a process ends after its commands.  A last `write` that
  finds no word leaves nothing to read but the end.
-/
def Ended
    (libc : Libc)
    (s t : Session δ) : Ending → Prop
| .quit => s.quit libc = some t
| .exit =>
    t = s ∨ ∃ vol bloc, writeBuffer vol bloc s = some t

/- At the end of the input the process exits. -/
theorem loopFrom_nil
    {fuel : Nat}
    {d d' : Dialog δ}
    {ending : Ending}
    (hInput : d.reader.input = [])
    (hLoop :
      (loopFrom libc stdio fuel).run d =
        some (ending, d')) :
    ending = .exit ∧ d'.session = d.session := by
  cases fuel with
  | zero => cases hLoop
  | succ fuel =>
      have hWord :
          d.reader.word (some 62) =
            (Option.none, { d.reader with input := [] }) := by
        unfold Reader.word
        rw [hInput]
        rfl
      rw [loopFrom_succ, hWord] at hLoop
      cases hLoop
      exact ⟨rfl, rfl⟩

/- Whatever is typed, the loop executes commands. -/
theorem loopFrom_commands
    {fuel : Nat}
    {d d' : Dialog δ}
    {ending : Ending}
    (hLoop :
      (loopFrom libc stdio fuel).run d =
        some (ending, d')) :
    ∃ cmds s,
      run (Command.exec libc) d.session cmds = some s ∧
        Ended libc s d'.session ending := by
  induction fuel generalizing d with
  | zero => cases hLoop
  | succ fuel ih =>
      rw [loopFrom_succ] at hLoop
      rcases hWord : d.reader.word (some 62) with
        ⟨name, reader⟩
      rw [hWord] at hLoop
      cases name with
      | none =>
          cases hLoop
          exact ⟨[], d.session, rfl, Or.inl rfl⟩
      | some name =>
          rcases Option.bind_eq_some_iff.mp hLoop with
            ⟨⟨result, mid⟩, hExecute, hRest⟩
          rcases execute_some hExecute with
            ⟨c, _, hPerform, hReader⟩
          rcases mid with ⟨t, reader', output⟩
          dsimp only at hPerform hReader
          cases hAction : (c.fn.ask stdio d.session reader).1
            with
          | leave ending' =>
              rw [hAction] at hPerform
              refine ⟨[], d.session, rfl, ?_⟩
              cases ending' with
              | quit =>
                  rcases Option.map_eq_some_iff.mp hPerform
                    with ⟨_, hQuit, hSame⟩
                  cases hSame
                  cases hRest
                  exact hQuit
              | exit =>
                  cases hPerform
                  cases hRest
                  exact Or.inl rfl
          | command cmd =>
              rw [hAction] at hPerform
              rcases Option.map_eq_some_iff.mp hPerform with
                ⟨_, hExec, hSame⟩
              cases hSame
              rcases ih hRest with ⟨cmds, s, hRun, hEnded⟩
              refine ⟨cmd :: cmds, s, ?_, hEnded⟩
              rw [run_cons, hExec]
              exact hRun
          | display =>
              rw [hAction] at hPerform
              rcases Option.map_eq_some_iff.mp hPerform with
                ⟨_, _, hSame⟩
              cases hSame
              exact ih (d := ⟨d.session, reader', output⟩) hRest
          | idle =>
              rw [hAction] at hPerform
              cases hPerform
              exact ih (d := ⟨d.session, reader', output⟩) hRest
          | rewrite vol bloc =>
              rw [hAction] at hPerform
              rcases Option.map_eq_some_iff.mp hPerform with
                ⟨_, hWrite, hSame⟩
              cases hSame
              have hInput : reader'.input = [] := by
                rw [hReader]
                exact CmdFun.ask_rewrite hAction
              have hStops := loopFrom_nil hInput hRest
              rw [hStops.1, hStops.2]
              exact ⟨[], d.session, rfl,
                Or.inr ⟨vol, bloc, hWrite⟩⟩

/-
  Whatever is typed, the process executes commands of the
  user, from the table that the disk holds at its start.
-/
theorem vm_runs_commands
    {libc : Libc}
    {stdio : Stdio}
    {calls : Nat}
    {input : List UInt8}
    {dev : δ}
    {ending : Ending}
    {d : Dialog δ}
    (hVm :
      vm libc stdio calls input dev = some (ending, d)) :
    ∃ cmds s,
      run (Command.exec libc) (boot libc calls dev) cmds =
          some s ∧
        Ended libc s d.session ending :=
  loopFrom_commands hVm

/- A size that is typed next to the name of the command. -/
theorem vm_runs_commands_new :
    let dev : Disk := fun _ => Sector.filled 0
    ∃ cmds s d,
      vm Session.sampleLibc ⟨fun _ => 0, fun _ => 0⟩ 0
          (text "new 5 exit") dev = some (.exit, d) ∧
        d.session.mbr.count = 1 ∧
        run (Command.exec Session.sampleLibc)
            (boot Session.sampleLibc 0 dev) cmds =
          some s ∧
        Ended Session.sampleLibc s d.session .exit := by
  intro dev
  have hEnd :
      (vm Session.sampleLibc ⟨fun _ => 0, fun _ => 0⟩ 0
          (text "new 5 exit") dev).map
        (fun p => (p.1, p.2.session.mbr.count)) =
          some (.exit, 1) := by
    rfl
  rcases hVm :
      vm Session.sampleLibc ⟨fun _ => 0, fun _ => 0⟩ 0
        (text "new 5 exit") dev with _ | ⟨ending, d⟩
  · rw [hVm] at hEnd
    cases hEnd
  rw [hVm] at hEnd
  have hPair := Option.some.inj hEnd
  have hEnding : ending = .exit := congrArg Prod.fst hPair
  have hCount := congrArg Prod.snd hPair
  subst hEnding
  rcases vm_runs_commands hVm with ⟨cmds, s, hRun, hEnded⟩
  exact ⟨cmds, s, d, rfl, hCount, hRun, hEnded⟩

end Talk

end AsaKernel
