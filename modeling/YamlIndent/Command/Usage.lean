import YamlIndent.Text.Quoted

/-!
# What the command line understands

The options of the command have long names, and some have short names too. Two of them take a value.

## Main definitions

* `Switch`: the options, with `Switch.names` and `Switch.takesValue`.
* `UsageFault`: why arguments are refused, with its wording.
* `usage`, `help`: the texts that explain the command.
-/

namespace YamlIndent

/-- The options of the command. -/
inductive Switch where
  | help
  | indent
  | keepGaps
  | check
  | inPlace
  | format
  | verbose
  deriving DecidableEq, Repr

namespace Switch

/-- Every option. -/
def all : List Switch :=
  [help, indent, keepGaps, check, inPlace, format, verbose]

/-- The names of an option. -/
def names : Switch → List Text
  | help => ["-h".toList, "--help".toList]
  | indent => ["--indent".toList, "-i".toList]
  | keepGaps => ["--no-marker-spacing".toList]
  | check => ["--check".toList]
  | inPlace => ["--in-place".toList]
  | format => ["--type".toList]
  | verbose => ["--verbose".toList, "-v".toList]

/-- Whether an option takes a value. -/
def takesValue : Switch → Bool
  | indent | format => true
  | help | keepGaps | check | inPlace | verbose => false

/-- The names of an option, as messages give them. -/
def title (s : Switch) : String :=
  "/".intercalate (s.names.map String.ofList)

/-- Every name, with its option. -/
def table : List (Text × Switch) :=
  all.flatMap fun s => s.names.map (·, s)

/-- The option of a name. -/
def ofName? (name : Text) : Option Switch :=
  (table.find? (·.1 == name)).map (·.2)

end Switch

/-- Why arguments are refused. -/
inductive UsageFault where
  /-- A name is cut so short that it may stand for several. -/
  | ambiguous (given : Text) (names : List Text)
  /-- An option lacks its value. -/
  | noValue (s : Switch)
  /-- An option that takes no value has one. -/
  | strayValue (s : Switch) (value : Text)
  /-- The value of an option is no integer. -/
  | notInteger (s : Switch) (value : Text)
  /-- Arguments are neither options nor file names in their place. -/
  | unrecognized (given : List Text)
  deriving DecidableEq, Repr

/-- Texts with something between them. -/
def joinWith (separator : String) (ts : List Text) : String :=
  separator.intercalate (ts.map String.ofList)

/-- Why arguments are refused, in words. -/
def UsageFault.message : UsageFault → String
  | ambiguous given names =>
    "ambiguous option: " ++ String.ofList given ++ " could match " ++ joinWith ", " names
  | noValue s => "argument " ++ s.title ++ ": expected one argument"
  | strayValue s value =>
    "argument " ++ s.title ++ ": ignored explicit argument " ++ String.ofList (quoted value)
  | notInteger s value =>
    "argument " ++ s.title ++ ": invalid int value: " ++ String.ofList (quoted value)
  | unrecognized given => "unrecognized arguments: " ++ joinWith " " given

/-- The forms of the command. -/
def usage : String :=
  "usage: yindent [-h] [--indent INDENT] [--no-marker-spacing] [--check]\n" ++
  "               [--in-place] [--type FORMAT_TYPE] [--verbose]\n" ++
  "               [files ...]\n"

/-- The text that explains the command. -/
def help : String :=
  usage ++
  "\nNormalize the indentation of YAML documents, comments included\n" ++
  "\npositional arguments:\n" ++
  "  files                 Input files (reads stdin and writes stdout if not\n" ++
  "                        provided)\n" ++
  "\noptions:\n" ++
  "  -h, --help            show this help message and exit\n" ++
  "  --indent INDENT, -i INDENT\n" ++
  "                        Spaces per indentation step (default: from config, 2)\n" ++
  "  --no-marker-spacing   Keep the spacing after '-' markers as written\n" ++
  "  --check               Only report files that would be reindented; exit 1 if\n" ++
  "                        any\n" ++
  "  --in-place            Rewrite files instead of printing the result\n" ++
  "  --type FORMAT_TYPE    Force format type (e.g., yaml)\n" ++
  "  --verbose, -v         Log every rewritten prefix\n"

/-- What is printed when arguments are refused. -/
def UsageFault.report (fault : UsageFault) : String :=
  usage ++ "yindent: error: " ++ fault.message ++ "\n"

end YamlIndent
