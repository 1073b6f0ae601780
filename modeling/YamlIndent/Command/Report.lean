import YamlIndent.Command.Files
import YamlIndent.Command.Options
import YamlIndent.Format.Basic
import YamlIndent.Settings.Load

/-!
# What the command says of one text

## Main definitions

* `Report`: what is printed, whether the command fails, and what a file becomes.
* `reportRead`, `reportInput`: the reports of a file and of the standard input.
* `start`: what the command says of its settings.
-/

namespace YamlIndent

/-- What the command says of one text: what it prints on its output and beside it, whether it fails,
and what the file becomes if it changes. -/
structure Report where
  output : Text := []
  errors : Text := []
  failed : Bool := false
  becomes : Option Text := none
  deriving DecidableEq, Repr

/-- A line of a log. -/
def logLine (level part message : String) : Text :=
  (level ++ " yindent." ++ part ++ ": " ++ message ++ "\n").toList

/-- The line of a log that an event of a pass makes. -/
def Event.line : Event → Text
  | moved kind old new =>
    logLine "DEBUG" "indents" (kind.name ++ " prefix " ++ String.ofList (quoted old) ++ " -> " ++
      String.ofList (quoted new))
  | stopped kind => logLine "DEBUG" "indents" ("stopping after " ++ kind.name)

/-- The log of a formatted text, which had `length` characters. -/
def Formatted.lines (r : Formatted) (length : Nat) : Text :=
  logLine "DEBUG" "formats.yaml" ("parsed " ++ toString r.documents ++ " document(s), " ++
    toString length ++ " chars") ++ r.log.flatMap Event.line

/-- The line that says a text would change. -/
def changeLine (name : Text) : Text :=
  "would reindent ".toList ++ name ++ ['\n']

/-- The line that says what is wrong with a text. -/
def faultLine (name : Text) (message : String) : Text :=
  "Error: ".toList ++ name ++ ':' :: message.toList ++ ['\n']

/-- The report of a file with some content. -/
def reportFile (o : Options) (style : Style) (name content : Text) : Report :=
  match format style content (some name) o.format.get? with
  | .error fault => { errors := faultLine name fault.message, failed := true }
  | .ok r =>
    let log := if o.verbose then r.lines content.length else []
    if o.check then
      if r.text = content then { errors := log }
      else { output := changeLine name, errors := log, failed := true }
    else if o.inPlace then
      if r.text = content then { errors := log }
      else
        let note :=
          if o.verbose then logLine "INFO" "cli" ("reindented " ++ String.ofList name) else []
        { errors := log ++ note, becomes := some r.text }
    else { output := r.text, errors := log }

/-- The report of a file that cannot be read. -/
def reportFault (name : Text) (fault : ReadFault) : Report where
  errors :=
    match fault with
    | .notFound => "Error: File not found: ".toList ++ name ++ ['\n']
    | .refused .. | .notText _ =>
      "Error reading ".toList ++ name ++ ": ".toList ++ (fault.message name).toList ++ ['\n']
  failed := true

/-- The report of a file, of which `content` is what reading it gave. -/
def reportRead (o : Options) (style : Style) (name : Text) (content : Except ReadFault Text) :
    Report :=
  match content with
  | .ok text => reportFile o style name text
  | .error fault => reportFault name fault

/-- The name that messages give the standard input. -/
def inputName : Text := "<stdin>".toList

/-- The report of the standard input. -/
def reportInput (o : Options) (style : Style) (content : Text) : Report :=
  match format style content none o.format.get? with
  | .error fault => { errors := faultLine inputName fault.message, failed := true }
  | .ok r =>
    let log := if o.verbose then r.lines content.length else []
    if o.check then
      if r.text = content then { errors := log }
      else { errors := log ++ changeLine inputName, failed := true }
    else { output := r.text, errors := log }

/-- What the command says of its settings, and the style that they ask for together with those of
the command line. -/
def start (o : Options) (loaded : Loaded) : Text × Option Style :=
  let warning := loaded.warning.elim [] fun text => logLine "WARNING" "config" text
  match o.settings loaded.settings with
  | .ok settings => (warning, some settings.style)
  | .error fault => (warning ++ ("Error: " ++ fault.message ++ "\n").toList, none)

end YamlIndent
