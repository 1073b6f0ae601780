import YamlIndent.Command.Run

/-!
# The command

The command reads files and variables from the system, and writes to it.
-/

namespace YamlIndent.Program

/-- The number of an error of the system, which comes with either sign. -/
def errorNumber (number : UInt32) : Nat :=
  (min number (-number)).toNat

/-- Why the system does not read a file. -/
def faultOf : IO.Error → ReadFault
  | .noFileOrDirectory .. => .notFound
  | .inappropriateType _ number _ =>
    if errorNumber number = 21 then .isDirectory else .notDirectory
  | .invalidArgument _ number details =>
    if errorNumber number = 36 then .tooLong else .refused (errorNumber number) details
  | .permissionDenied _ number _ => .refused (errorNumber number) "Permission denied"
  | other => .refused 5 (toString other)

/-- What reading a file gives. -/
def readBytes (name : String) : IO (Except ReadFault Utf8.Bytes) := do
  try
    let bytes ← IO.FS.readBinFile name
    return .ok bytes.toList
  catch e => return .error (faultOf e)

/-- The bytes of the standard input behind those that were read. -/
partial def readInputFrom (input : IO.FS.Stream) (bytes : ByteArray) : IO Utf8.Bytes := do
  let more ← input.read 65536
  if more.isEmpty then return bytes.toList else readInputFrom input (bytes ++ more)

/-- The bytes of the standard input. -/
def readInput : IO Utf8.Bytes := do
  readInputFrom (← IO.getStdin) ByteArray.empty

/-- The variables that the command looks at. -/
def variableNames : List String :=
  ["XDG_CONFIG_HOME", "HOME", "YINDENT_INDENT_SIZE", "YINDENT_NORMALIZE_MARKER_SPACING"]

/-- The variables of the environment that the command looks at. -/
def environment : IO Environment := do
  let mut env := []
  for name in variableNames do
    if let some value := ← IO.getEnv name then env := (name, value) :: env
  return env

/-- The system as what a run reads from and writes to. -/
def host : Host (ExceptT Breakdown IO) where
  env := environment
  account := return "/"
  readFile name := readBytes (String.ofList name)
  readInput := readInput
  writeFile name bytes := IO.FS.writeBinFile (String.ofList name) ⟨bytes.toArray⟩
  print text := IO.print (String.ofList text)
  printError text := IO.eprint (String.ofList text)

/-- Running the command in the system. -/
def runWith (o : Options) : IO UInt32 := do
  match ← (host.run o).run with
  | .ok failed => return if failed then 1 else 0
  | .error b =>
    IO.eprintln b.message
    return 1

end YamlIndent.Program

/-- Reading the command line, and running the command. -/
def main (args : List String) : IO UInt32 := do
  match YamlIndent.Options.read (args.map String.toList) with
  | .error .help => do
    IO.print YamlIndent.help
    return 0
  | .error (.refused fault) => do
    IO.eprint fault.report
    return 2
  | .ok o => YamlIndent.Program.runWith o
