import YamlIndent.Command.Usage
import YamlIndent.Settings.Basic

/-!
# Options

Arguments are first sorted into operands and options, then read in order. An option may be cut short
as long as one name remains, and short options may stand in one argument. The operands of the first
row of operands are file names; any further ones are refused. Behind a `--` there are only operands,
and as the value of an option `--` is no value.

The conventions for command lines have changed in two cases, and those meant here are the older
ones. In `--indent=--` the value is dropped, where a later reader takes `--` for the value; and in
`-vx` the rest is refused as a value that `-v` does not take, where a later reader finds an argument
`-x` that it does not know.

## Main definitions

* `Argument`, `classify`: what an argument is.
* `Cluster`, `cluster`: the options that one argument holds.
* `Options`, `Options.read`: what a command line asks for.
* `Options.settings`: the settings under those of the command line.
-/

namespace YamlIndent

/-! ### Arguments -/

/-- What an argument is. -/
inductive Argument where
  | operand (t : Text)
  /-- The first `--`. -/
  | separator
  /-- An option under a long or a short name, and what follows the name in the argument. -/
  | option (s : Switch) (long : Bool) (value : Option Text)
  /-- What looks like an option, but is none. -/
  | unknown (t : Text)
  deriving DecidableEq, Repr

/-- What stands before the first equals sign of a text, and what stands behind it. -/
def splitAssigned (t : Text) : Text × Option Text :=
  match t.dropWhile (· != '=') with
  | [] => (t, none)
  | _ :: value => (t.takeWhile (· != '='), some value)

/-- Whether a text is a number with a minus sign, for which a line feed may stand at the end. -/
def isNegativeNumber : Text → Bool
  | '-' :: t =>
    let t := if t.getLast? == some '\n' then t.dropLast else t
    let isDigit := fun c => (decimalDigit? c).isSome
    match t.dropWhile isDigit with
    | [] => !t.isEmpty
    | '.' :: fraction => !fraction.isEmpty && fraction.all isDigit
    | _ => false
  | _ => false

/-- The options whose long name begins as an argument does, up to an equals sign. -/
def abbreviated (t : Text) : List (Text × Switch) :=
  Switch.table.filter fun (name, _) => (splitAssigned t).1.isPrefixOf name

/-- The option that an argument's first two characters name, the rest being its value. -/
def shortOption : Text → Option Argument
  | '-' :: c :: value => (Switch.ofName? ['-', c]).map (.option · false (some value))
  | _ => none

/-- What an argument that names no option is. -/
def classifyOther (t : Text) : Argument :=
  if isNegativeNumber t || t.contains ' ' then .operand t else .unknown t

/-- Whether an argument begins as a long name does. -/
def isLong (t : Text) : Bool :=
  ['-', '-'].isPrefixOf t

/-- What an argument that begins with a minus sign and goes on is, where its name is not a whole
one. -/
def classifyCut (t : Text) : Except UsageFault Argument :=
  if isLong t then
    match abbreviated t with
    | [] => .ok (classifyOther t)
    | [(_, s)] => .ok (.option s true (splitAssigned t).2)
    | several => .error (.ambiguous t (several.map (·.1)))
  else .ok ((shortOption t).getD (classifyOther t))

/-- What an argument is. -/
def classify (t : Text) : Except UsageFault Argument :=
  if t.head? != some '-' || t == ['-'] then .ok (.operand t)
  else
    match Switch.ofName? t, Switch.ofName? (splitAssigned t).1 with
    | some s, _ => .ok (.option s (isLong t) none)
    | none, some s => .ok (.option s (isLong t) (splitAssigned t).2)
    | none, none => classifyCut t

/-- What some arguments are. -/
def classifyAll : List Text → Except UsageFault (List Argument)
  | [] => .ok []
  | t :: ts =>
    if t == ['-', '-'] then .ok (.separator :: ts.map .operand)
    else do
      let first ← classify t
      let others ← classifyAll ts
      return first :: others

/-! ### Short options in one argument -/

/-- The options that one argument holds, the last of which may still need a value. -/
structure Cluster where
  set : List (Switch × Option Text)
  open? : Option Switch := none

/-- A cluster with an option in front that has no value. -/
def Cluster.after (s : Switch) (c : Cluster) : Cluster :=
  { c with set := (s, none) :: c.set }

/-- The cluster of an option whose argument ends on its name. -/
def Cluster.single (s : Switch) : Cluster :=
  if s.takesValue then ⟨[], some s⟩ else ⟨[(s, none)], none⟩

/-- The options that an argument holds, from one under a short name on. What follows the name is its
value if it takes one, and else the letters of further short options; a letter that names none makes
a value, which is refused. -/
def cluster (s : Switch) : Text → Except UsageFault Cluster
  | [] => if s.takesValue then .ok ⟨[(s, some [])], none⟩ else .error (.strayValue s [])
  | c :: rest =>
    if s.takesValue then .ok ⟨[(s, some (c :: rest))], none⟩
    else
      match Switch.ofName? ['-', c] with
      | none => .error (.strayValue s (c :: rest))
      | some next =>
        if rest.isEmpty then .ok ((Cluster.single next).after s)
        else (cluster next rest).map (.after s)

/-- The options that an argument holds. A long name stands alone. -/
def clusterOf (s : Switch) (long : Bool) : Option Text → Except UsageFault Cluster
  | none => .ok (.single s)
  | some value => if long && !s.takesValue then .error (.strayValue s value) else cluster s value

/-! ### Reading options -/

/-- The value of an option. One that is nothing but `--` is dropped, also where it stands behind an
equals sign, and leaves the option blank. -/
inductive Choice (α : Type) where
  | unset
  | blank
  | set (a : α)
  deriving DecidableEq, Repr

namespace Choice

/-- The value that is set. -/
def get? {α : Type} : Choice α → Option α
  | unset | blank => none
  | set a => some a

/-- The choice that a written value makes. -/
def ofText {α ε : Type} (read : Text → Except ε α) (value : Text) : Except ε (Choice α) :=
  if value = ['-', '-'] then .ok .blank else (read value).map .set

end Choice

/-- What a command line asks for. -/
structure Options where
  files : List Text := []
  indent : Choice Int := .unset
  keepGaps : Bool := false
  check : Bool := false
  inPlace : Bool := false
  format : Choice Text := .unset
  verbose : Bool := false
  deriving DecidableEq, Repr

/-- Why no command follows from arguments. -/
inductive NoCommand where
  /-- Help was asked for. -/
  | help
  /-- The arguments are refused. -/
  | refused (fault : UsageFault)
  deriving DecidableEq, Repr

namespace Options

/-- The integer that the value of an option writes. -/
def readSize (value : Text) : Except NoCommand Int :=
  (readInteger value).mapError fun _ => .refused (.notInteger .indent value)

/-- The options under one more. -/
def put (o : Options) (s : Switch) (value : Option Text) : Except NoCommand Options :=
  match s with
  | .help => .error .help
  | .indent => do
    let indent ← Choice.ofText readSize (value.getD [])
    return { o with indent }
  | .format => do
    let format ← Choice.ofText .ok (value.getD [])
    return { o with format }
  | .keepGaps => return { o with keepGaps := true }
  | .check => return { o with check := true }
  | .inPlace => return { o with inPlace := true }
  | .verbose => return { o with verbose := true }

/-- The options under some more, in turn. -/
def putAll (o : Options) : List (Switch × Option Text) → Except NoCommand Options
  | [] => return o
  | (s, value) :: rest => do (← o.put s value).putAll rest

end Options

/-- Where the file names of a command line are. -/
inductive Row where
  | ahead
  | here
  | passed
  deriving DecidableEq, Repr

/-- What was read of a command line: its options, where its file names are, and the arguments that
are left over. -/
structure Progress where
  options : Options := {}
  row : Row := .ahead
  extras : List Text := []

namespace Progress

/-- After an argument that is left over. -/
def leave (p : Progress) (t : Text) : Progress :=
  { p with extras := p.extras ++ [t] }

/-- After an operand. -/
def operand (p : Progress) (t : Text) : Progress :=
  match p.row with
  | .ahead | .here =>
    { p with row := .here, options := { p.options with files := p.options.files ++ [t] } }
  | .passed => p.leave t

/-- After the separator, which belongs to a row of operands. -/
def separator (p : Progress) : Progress :=
  match p.row with
  | .ahead | .here => { p with row := .here }
  | .passed => p.leave ['-', '-']

/-- Where an option ends a row of operands. -/
def endRow (p : Progress) : Progress :=
  { p with row := if p.row = .here then .passed else p.row }

/-- After some options. -/
def putAll (p : Progress) (set : List (Switch × Option Text)) : Except NoCommand Progress := do
  let options ← p.options.putAll set
  return { p with options }

/-- After all arguments. -/
def finish (p : Progress) : Except NoCommand Options :=
  if p.extras.isEmpty then .ok p.options else .error (.refused (.unrecognized p.extras))

/-- After some more arguments. -/
def readAll (p : Progress) : List Argument → Except NoCommand Options
  | [] => p.finish
  | .operand t :: rest => (p.operand t).readAll rest
  | .separator :: rest => p.separator.readAll rest
  | .unknown t :: rest => (p.endRow.leave t).readAll rest
  | .option s long value :: rest => do
    let c ← (clusterOf s long value).mapError .refused
    match c.open? with
    | none => (← p.endRow.putAll c.set).readAll rest
    | some s =>
      match rest with
      | .operand t :: rest => (← p.endRow.putAll (c.set ++ [(s, some t)])).readAll rest
      | _ => .error (.refused (.noValue s))

end Progress

namespace Options

/-- What a command line asks for. -/
def read (args : List Text) : Except NoCommand Options := do
  let arguments ← (classifyAll args).mapError .refused
  Progress.readAll {} arguments

/-- The settings under those of the command line. -/
def settings (o : Options) (s : Settings) : Except SettingFault Settings :=
  let s := if o.keepGaps then s.withSpacing (.bool false) else s
  match o.indent with
  | .unset => .ok s
  | .blank => .error (.notInteger (.array []))
  | .set n => s.withSize n

end Options

end YamlIndent
