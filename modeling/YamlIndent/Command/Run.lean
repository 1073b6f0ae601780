import YamlIndent.Command.Report
import YamlIndent.Text.LineEnd

/-!
# Running the command

The command formats the files that it is given, each on its own, or else its standard input. An
empty name stands for the standard input too, of which only the first reader gets anything. A file
that cannot be read or formatted fails the command but does not end it.

The command is written once, over whatever it reads from and writes to. It runs in a world that is
given as a value, and in the system.

## Main definitions

* `World`: what the command runs in.
* `Outcome`, `Breakdown`: how a run ends.
* `loadSettings`, `World.settings`: the settings that a run starts from.
* `Host`: what a run reads from and writes to.
* `Host.runFiles`, `Host.run`: running the command.
* `Session`, `runFiles`, `run`: running the command in a world.
-/

namespace YamlIndent

/-- What the command runs in: the files, the bytes of its standard input, the variables, and the
home directory of the account. -/
structure World where
  files : Files
  input : Utf8.Bytes
  env : Environment
  account : String

/-- The end of a run: its exit code, what it printed, and the files. -/
structure Outcome where
  failed : Bool
  output : Text
  errors : Text
  files : Files

/-- Why a run breaks down. -/
inductive Breakdown where
  /-- The configuration file has an indent size beyond all integers. -/
  | settings (fault : IntegerFault)
  /-- The standard input is not in UTF-8. -/
  | input (fault : Utf8.Fault)
  /-- The standard input cannot be written to. -/
  | writeInput
  /-- A name has a null character. -/
  | nullName
  deriving DecidableEq, Repr

/-- The exit code of a run. -/
def Outcome.exitCode (o : Outcome) : Nat :=
  if o.failed then 1 else 0

/-- Why a run breaks down, in words. -/
def Breakdown.message : Breakdown → String
  | settings fault => fault.message
  | input fault => fault.message
  | writeInput => "the standard input cannot be written to"
  | nullName => "a file name has a null character"

/-- The configuration file, of which `content` is what reading it gave; none if it does not exist,
as is the case if its path leads through a file or is too long. -/
def configFile (name : Text) (content : Except ReadFault Utf8.Bytes) :
    Option (Except String Utf8.Bytes) :=
  match content with
  | .ok bytes => some (.ok bytes)
  | .error fault =>
    if fault ∈ [.notFound, .notDirectory, .tooLong] then none
    else some (.error (fault.message name))

/-- The name of the configuration file. -/
def configName (account : String) (env : Environment) : Text :=
  (configPath account env).toString.toList

/-- The settings of the configuration file and the variables, where `content` is what reading the
file gave. -/
def loadSettings (account : String) (env : Environment) (content : Except ReadFault Utf8.Bytes) :
    Except IntegerFault Loaded :=
  Settings.load (configPath account env) (configFile (configName account env) content) env

/-- The settings in a world. -/
def World.settings (w : World) : Except IntegerFault Loaded :=
  loadSettings w.account w.env (w.files.read (configName w.account w.env))

/-- The text of the standard input. -/
def inputText (bytes : Utf8.Bytes) : Except Utf8.Fault Text :=
  (Utf8.decode bytes).map unifyBreaks

/-- The text of a file, of which `content` is what reading it gave. -/
def fileText (content : Except ReadFault Utf8.Bytes) : Except ReadFault Text := do
  (Utf8.decode (← content)).mapError .notText

/-! ### The command -/

/-- What a run reads from and writes to, with the effects of a monad. -/
structure Host (m : Type → Type) where
  env : m Environment
  account : m String
  readFile (name : Text) : m (Except ReadFault Utf8.Bytes)
  /-- What is left of the standard input. -/
  readInput : m Utf8.Bytes
  writeFile (name : Text) (bytes : Utf8.Bytes) : m Unit
  print (text : Text) : m Unit
  printError (text : Text) : m Unit

namespace Host

variable {m : Type → Type} [Monad m] [MonadExcept Breakdown m] (host : Host m)

/-- The settings that a run starts from. -/
def settings : m Loaded := do
  let account ← host.account
  let env ← host.env
  let content ← host.readFile (configName account env)
  MonadExcept.ofExcept ((loadSettings account env content).mapError .settings)

/-- What reading the file of a name gives; an empty name stands for the standard input. -/
def readText (name : Text) : m (Except ReadFault Text) := do
  if name.isEmpty then return (inputText (← host.readInput)).mapError .notText
  else return fileText (← host.readFile name)

/-- Writing what the file of a name becomes. -/
def store (name : Text) : Option Text → m Unit
  | none => return
  | some text =>
    if name.isEmpty then throw .writeInput else host.writeFile name (Utf8.encode text)

/-- Printing what a report says. -/
def say (r : Report) : m Unit := do
  host.print r.output
  host.printError r.errors

/-- Running the command on files in turn, and whether it fails. -/
def runFiles (o : Options) (style : Style) : List Text → m Bool
  | [] => return false
  | name :: names =>
    if name.contains '\x00' then throw .nullName
    else do
      let report := reportRead o style name (← host.readText name)
      host.store name report.becomes
      host.say report
      let failed ← runFiles o style names
      return report.failed || failed

/-- Running the command in a style. -/
def runStyled (o : Options) (style : Style) : m Bool :=
  if o.files.isEmpty then do
    let content ← MonadExcept.ofExcept ((inputText (← host.readInput)).mapError .input)
    let report := reportInput o style content
    host.say report
    return report.failed
  else host.runFiles o style o.files

/-- Running the command. -/
def run (o : Options) : m Bool := do
  let (said, style) := start o (← host.settings)
  host.printError said
  match style with
  | some style => host.runStyled o style
  | none => return true

end Host

/-! ### In a world -/

/-- A run in a world: the world, and what was printed. -/
structure Session where
  world : World
  output : Text := []
  errors : Text := []

/-- What a run in a world reads from and writes to. -/
def Session.host : Host (StateT Session (Except Breakdown)) where
  env := return (← get).world.env
  account := return (← get).world.account
  readFile name := return (← get).world.files.read name
  readInput := modifyGet fun s => (s.world.input, { s with world.input := [] })
  writeFile name bytes :=
    modify fun s => { s with world.files := s.world.files.replace name bytes }
  print text := modify fun s => { s with output := s.output ++ text }
  printError text := modify fun s => { s with errors := s.errors ++ text }

/-- How a run in a world ends. -/
def World.outcome (w : World) (body : StateT Session (Except Breakdown) Bool) :
    Except Breakdown Outcome := do
  let (failed, s) ← body { world := w }
  return ⟨failed, s.output, s.errors, s.world.files⟩

/-- Running the command on files in turn, in a world. -/
def runFiles (o : Options) (style : Style) (w : World) (names : List Text) :
    Except Breakdown Outcome :=
  w.outcome (Session.host.runFiles o style names)

/-- Running the command in a style, in a world. -/
def runStyled (o : Options) (style : Style) (w : World) : Except Breakdown Outcome :=
  w.outcome (Session.host.runStyled o style)

/-- Running the command in a world. -/
def run (o : Options) (w : World) : Except Breakdown Outcome :=
  w.outcome (Session.host.run o)

end YamlIndent
