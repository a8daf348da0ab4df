import AsaKernel.Foundations.Scanning
import AsaKernel.Frmt.Dumps
import AsaKernel.Vm.Commands

/-
  The dialog of the volume manager with its user (vm.c).

  The program reads a stream of bytes and prints another.  It
  looks up each word it reads in a table of commands, and the
  function of the command reads its own answers.  What a read
  leaves behind is read by the next one, whatever it asks for.

  Main declarations:
    * `Stdio`, `Reader`, `Dialog`, `Talk`
    * `commands`, `Talk.call`
    * `Talk.execute`, `Talk.loop`
    * `vm`
-/

------------------------------------------------------------
-- Reading and Printing
------------------------------------------------------------

namespace AsaKernel

open Scanning

/-
  What the C library leaves open: the value of a variable that
  `scanf` did not assign, each time that this happens, and of
  one that is given a number too large for an `int`.
-/
structure Stdio where
  stale : Nat → Int32
  outOfRange : Int → Int32

/- The `int` that `%d` stores. -/
def Stdio.store
    (stdio : Stdio)
    (n : Int) : Int32 :=
  (FixedWidth.ofInt? n).getD (stdio.outOfRange n)

/-
  What is left of the input, and how many numbers the program
  has asked for.
-/
structure Reader where
  input : List UInt8
  asked : Nat
deriving DecidableEq, Repr

namespace Reader

/- `scanf("%d", &x)` into a variable that has no value yet. -/
def int
    (stdio : Stdio)
    (reader : Reader) : Int32 × Reader :=
  let (n, rest) := number reader.input
  ((n.map stdio.store).getD (stdio.stale reader.asked),
    { input := rest, asked := reader.asked + 1 })

/- `%s`, with a width if one is given. -/
def word
    (width : Option Nat)
    (reader : Reader) : Option (List UInt8) × Reader :=
  match Scanning.word width reader.input with
  | none => (none, { reader with input := [] })
  | some (field, rest) =>
      (some field, { reader with input := rest })

end Reader

/- The globals of the program, its input and its output. -/
structure Dialog (δ : Type) where
  session : Session δ
  reader : Reader
  output : List UInt8

/- A part of the program that reads and prints. -/
abbrev Talk (δ α : Type) :=
  StateT (Dialog δ) Option α

/- The bytes up to the zero that ends a string. -/
def cString?
    (bytes : List UInt8) : Option (List UInt8) :=
  if 0 ∈ bytes then some (bytes.takeWhile fun c => c ≠ 0)
  else none

namespace Talk

variable {δ : Type}

def printf
    (bytes : List UInt8) : Talk δ Unit :=
  modify fun d => { d with output := d.output ++ bytes }

def scanfInt
    (stdio : Stdio) : Talk δ Int32 := do
  let d ← get
  let (n, reader) := d.reader.int stdio
  set { d with reader := reader }
  pure n

/- `scanf("%62s", name)`, if it returns 1 -/
def scanfName : Talk δ (Option (List UInt8)) := do
  let d ← get
  let (name, reader) := d.reader.word (some 62)
  set { d with reader := reader }
  pure name

/- `scanf("%s", (char*) buffer)` -/
def scanfBuffer : Talk δ Unit := do
  let d ← get
  let (field, reader) := d.reader.word none
  match field with
  | none => set { d with reader := reader }
  | some field =>
      let buffer ← scanWord field d.session.buffer
      set
        { d with
          session := { d.session with buffer := buffer }
          reader := reader }

/- What a function makes of the globals. -/
def update
    (f : Session δ → Option (Session δ)) : Talk δ Unit := do
  let d ← get
  let s ← f d.session
  set { d with session := s }

/- The same with a result. -/
def answer
    {α : Type}
    (f : Session δ → Option (α × Session δ)) :
    Talk δ α := do
  let d ← get
  let (a, s) ← f d.session
  set { d with session := s }
  pure a

end Talk

------------------------------------------------------------
-- The Table of Commands
------------------------------------------------------------

/- The functions that the table points to. -/
inductive CmdFun where
  | list | read | write | format
  | loadVol | saveVol | listVol | newVol | delVol
  | new | del | save | quit | xit | help | none
deriving DecidableEq, Repr

/- struct _cmd -/
structure Cmd where
  name : Option String
  fn : CmdFun
  comment : String
deriving DecidableEq, Repr

def commands : List Cmd :=
  [⟨some "list", .list, "display the partition table"⟩,
    ⟨some "read", .read, "read specific partition's bloc"⟩,
    ⟨some "write", .write,
      "write specific partition's bloc"⟩,
    ⟨some "format", .format, "format a specific partition"⟩,
    ⟨some "load_vol", .loadVol,
      "load specific superbloc's volum"⟩,
    ⟨some "save_vol", .saveVol,
      "save specific superbloc's volum"⟩,
    ⟨some "list_vol", .listVol,
      "display all free blocs from current volum"⟩,
    ⟨some "new_vol", .newVol,
      "create new bloc used in current volum"⟩,
    ⟨some "del_vol", .delVol,
      "delete bloc used in current volum"⟩,
    ⟨some "new", .new, "create a new partition"⟩,
    ⟨some "del", .del, "delete a partition"⟩,
    ⟨some "save", .save, "save the MBR"⟩,
    ⟨some "quit", .quit, "save the MBR and quit"⟩,
    ⟨some "exit", .xit, "exit (without saving)"⟩,
    ⟨some "help", .help, "display this help"⟩,
    ⟨none, .none, "unknown command, try help"⟩]

/- The typed word is the name of the entry, or it has none. -/
def Cmd.answersTo
    (c : Cmd)
    (typed : List UInt8) : Bool :=
  match c.name with
  | none => true
  | some name =>
      typed.takeWhile (fun c => c ≠ 0) = text name

/- The first entry that ends the search of `execute`. -/
def lookup
    (typed : List UInt8) : Option Cmd :=
  commands.find? fun c => c.answersTo typed

/- The bytes that `%s` prints of the name of a command. -/
def Cmd.title
    (c : Cmd) : List UInt8 :=
  text (c.name.getD "")

------------------------------------------------------------
-- Texts
------------------------------------------------------------

/- A line of `list`. -/
def volumeLine
    (volume : Volume) : List UInt8 :=
  integer volume.debutCyl.toInt ++ text "\t\t" ++
    integer volume.debutSect.toInt ++ text "\t\t" ++
    integer volume.nbBlocs.toInt ++ text "\t\t" ++
    integer volume.type.toInt32.toInt ++ text "\n"

/- What `list` prints of the table. -/
def Mbr.listing
    (mbr : Mbr) : Option (List UInt8) := do
  let volumes ←
    (List.range mbr.count.toInt.toNat).mapM fun i : Nat =>
      mbr.volume? (i : Int)
  some (integer mbr.count.toInt ++
    text " partition(s) on HDD\n" ++
    text "# cylinder\t# sector\tnb sector\ttype\n" ++
    volumes.flatMap volumeLine)

/- The text of `display_current_vol`. -/
def Session.currentVolText
    {δ : Type}
    (s : Session δ) : Option (List UInt8) :=
  match s.currentSuperbloc with
  | none => some (text "No volum selected yet.\n")
  | some sb => do
      let name ← cString? sb.name.toList
      let nodes ←
        s.heap.walk ListBloc.next (s.heap.size + 1) sb.first
      some (text "N° Vol: " ++
        integer s.currentVol.toInt ++ text "\tSerial: " ++
        integer sb.serial.toInt ++ text "\tName: " ++ name ++
        text "\n" ++ text "Free blocs: " ++
        (nodes.flatMap fun node =>
          integer node.2.posBloc.toInt ++ text " - ") ++
        text "END\n")

/- What `new_vol` prints of the number it gets. -/
def newVolText
    (number : Int32) : List UInt8 :=
  if number < 0 then text "Please load a volum first.\n"
  else if number = 0 then
    text "There are no bloc available.\n"
  else
    text "You create a new bloc used, this is the number " ++
      integer number.toInt ++ text "\n"

/- What `del_vol` prints of the result it gets. -/
def delVolText
    (choice result : Int32) : List UInt8 :=
  if result = -2 then text "Please load a volum first.\n"
  else if result = -1 then
    text "Bloc out of volum's size.\n"
  else if result = 0 then
    text "Sorry, the bloc n°" ++ integer choice.toInt ++
      text " is already free.\n"
  else text "Success free.\n"

------------------------------------------------------------
-- The Functions of the Commands
------------------------------------------------------------

namespace Talk

variable {δ : Type} [Drive δ]

section Functions

variable (libc : Libc) (stdio : Stdio) (c : Cmd)

def done : Talk δ Unit :=
  printf (c.title ++ text " done\n")

/- list -/
def list : Talk δ Unit := do
  let d ← get
  let listing ← d.session.mbr.listing
  printf listing
  done c

/- display_bloc -/
def displayBloc
    (vol nbloc : UInt32) : Talk δ Unit := do
  let bloc ← answer fun s => do
    let (bloc, dev) ← s.mbr.displayBloc vol nbloc s.dev
    some (bloc, { s with dev := dev })
  printf (bloc.flatMap String.utf8EncodeChar)

/- read -/
def read : Talk δ Unit := do
  printf (text "Which Volum? : ")
  let vol ← scanfInt stdio
  printf (text "Which Bloc? : ")
  let bloc ← scanfInt stdio
  printf (text "0x")
  displayBloc vol.toUInt32 bloc.toUInt32
  printf (text "\n")
  done c

/- `write_bloc(vol, bloc, buffer)` with the global buffer -/
def writeBuffer
    (vol bloc : Int32)
    (s : Session δ) : Option (Session δ) := do
  let dev ←
    s.mbr.writeBloc vol.toUInt32 bloc.toUInt32 s.buffer s.dev
  some { s with dev := dev }

/- write -/
def write : Talk δ Unit := do
  printf (text "Which Volum? : ")
  let vol ← scanfInt stdio
  printf (text "Which Bloc? : ")
  let bloc ← scanfInt stdio
  printf (text "Write what do you want:\n")
  scanfBuffer
  update (writeBuffer vol bloc)
  done c

/- format -/
def format : Talk δ Unit := do
  printf (text "Which Volum? : ")
  let vol ← scanfInt stdio
  printf (text "Which Value? : \n")
  let value ← scanfInt stdio
  update fun s => do
    let dev ←
      s.mbr.formatVol vol.toUInt32 value.toUInt32 s.dev
    some { s with dev := dev }
  done c

/- load_vol -/
def loadVol : Talk δ Unit := do
  printf (text "Which Volum to load? : ")
  let choice ← scanfInt stdio
  update (Session.loadVol libc choice)
  done c

/- save_vol -/
def saveVol : Talk δ Unit := do
  update (Session.saveSuper libc)
  done c

/- list_vol -/
def listVol : Talk δ Unit := do
  let d ← get
  let currentVol ← d.session.currentVolText
  printf currentVol
  done c

/- new_vol -/
def newVol : Talk δ Unit := do
  let number ← answer Session.newBloc
  printf (newVolText number.toInt32)
  done c

/- del_vol -/
def delVol : Talk δ Unit := do
  printf (text "Which Bloc to free? : ")
  let choice ← scanfInt stdio
  let result ← answer (Session.freeBloc libc choice.toUInt32)
  printf (delVolText choice result)
  done c

/- new; a full table asks for nothing -/
def new : Talk δ Unit := do
  let d ← get
  if 8 ≤ d.session.mbr.count then
    printf (c.title ++ text " aborted\n")
    printf (text "There are already 8 volumes on disk.\n")
  else
    printf (text "How many blocs in new vol? ")
    let nbloc ← scanfInt stdio
    update fun s => do
      let mbr ← s.mbr.new nbloc
      some { s with mbr := mbr }
    done c

/- del; an empty table asks for nothing -/
def del : Talk δ Unit := do
  let d ← get
  if d.session.mbr.count ≤ 0 then
    printf (c.title ++ text " aborted\n")
    printf (text "There are no volumes on disk.\n")
  else
    printf (text "which vol delete ? : ")
    let vol ← scanfInt stdio
    update fun s => do
      let mbr ← s.mbr.del vol
      some { s with mbr := mbr }
    done c

/- save -/
def save : Talk δ Unit := do
  done c
  update fun s => some (s.save libc)

/- quit, up to the end of the process -/
def quit : Talk δ Unit := do
  update (Session.quit libc)
  done c

/- help -/
def help : Talk δ Unit :=
  printf ((commands.takeWhile fun c => c.name.isSome).flatMap
    fun c => c.title ++ text "\t-- " ++ text c.comment ++
      text "\n")

/- none -/
def none : Talk δ Unit :=
  printf (text c.comment ++ text "\n")

/- (*c->fun)(c), and whether it ended the process -/
def call : Talk δ (Option Ending) :=
  match c.fn with
  | .list => do list c; pure Option.none
  | .read => do read stdio c; pure Option.none
  | .write => do write stdio c; pure Option.none
  | .format => do format stdio c; pure Option.none
  | .loadVol => do loadVol libc stdio c; pure Option.none
  | .saveVol => do saveVol libc c; pure Option.none
  | .listVol => do listVol c; pure Option.none
  | .newVol => do newVol c; pure Option.none
  | .delVol => do delVol libc stdio c; pure Option.none
  | .new => do new stdio c; pure Option.none
  | .del => do del stdio c; pure Option.none
  | .save => do save libc c; pure Option.none
  | .quit => do quit libc c; pure (some Ending.quit)
  | .xit => pure (some Ending.exit)
  | .help => do help; pure Option.none
  | .none => do none c; pure Option.none

end Functions

------------------------------------------------------------
-- The Loop
------------------------------------------------------------

section Loop

variable (libc : Libc) (stdio : Stdio)

/- execute -/
def execute
    (name : List UInt8) : Talk δ (Option Ending) := do
  let c ← lookup name
  call libc stdio c

/-
  The loop of `loop`, with a bound on its iterations.  The end
  of the input ends the process as `exit` does.
-/
def loopFrom : Nat → Talk δ Ending
| 0 => failure
| fuel + 1 => do
    printf (text "> ")
    match ← scanfName with
    | Option.none => pure .exit
    | some name =>
        match ← execute libc stdio name with
        | some ending => pure ending
        | Option.none => loopFrom fuel

/- loop; every iteration reads at least one byte -/
def loop : Talk δ Ending := do
  let d ← get
  loopFrom libc stdio (d.reader.input.length + 1)

end Loop

end Talk

/- main of vm.c, up to the end of the process -/
def vm
    {δ : Type}
    [Drive δ]
    (libc : Libc)
    (stdio : Stdio)
    (calls : Nat)
    (input : List UInt8)
    (dev : δ) : Option (Ending × Dialog δ) :=
  Talk.loop libc stdio
    { session := boot libc calls dev
      reader := { input := input, asked := 0 }
      output := [] }

end AsaKernel
