import YamlIndent.Format.Registry
import YamlIndent.Reindent
import YamlIndent.Source.Stream

/-!
# Formatting a text

To format a text is to choose its format, read its tree, reindent the tree, and print it.

## Main definitions

* `chooseFormat`: the format of a text, of some registered formats.
* `FormatError`: why a text is not formatted.
* `format`: a text in a style.
-/

namespace YamlIndent

/-- Why a text is not formatted. -/
inductive FormatError where
  /-- No format has the name that was asked for. -/
  | unknownFormat (name : Text)
  /-- The text cannot be read. -/
  | rejected (error : SourceError)
  /-- A tree cannot be reindented or printed. -/
  | tree (error : TreeError)
  deriving DecidableEq, Repr

/-- Why a text is not formatted, in words. -/
def FormatError.message : FormatError → String
  | unknownFormat name => "Unknown format type: " ++ String.ofList name
  | rejected error => error.render
  | tree error => error.message

/-- The format that is asked for by a name that is not empty, else the one that is detected, else
`fallback`. -/
def chooseFormat {α : Type} (registry : Registry α) (fallback : Format α) (content : Text)
    (filename : Option Text) (asked : Option Text) : Except FormatError (Format α) :=
  match asked with
  | none | some [] => .ok ((registry.detect content filename).getD fallback)
  | some name =>
    match registry.lookup name with
    | some f => .ok f
    | none => .error (.unknownFormat name)

/-- The formats that texts are formatted in. -/
def formats : Registry Unit := [yamlFormat ()]

/-- A formatted text, the number of its documents, and what the pass reported. -/
structure Formatted where
  text : Text
  documents : Nat
  log : List Event
  deriving DecidableEq, Repr

/-- A text in a style. -/
def formatSource (style : Style) (source : Text) : Except FormatError Formatted := do
  let tree ← (parse source).mapError fun r => .rejected (r.report source)
  let visited ← (reindent style tree.tagged).mapError .tree
  let text ← visited.node.print.mapError .tree
  return ⟨text, tree.children.length, visited.log⟩

/-- A text in a style, its format checked first. -/
def format (style : Style) (source : Text) (filename asked : Option Text) :
    Except FormatError Formatted := do
  let _ ← chooseFormat formats (yamlFormat ()) source filename asked
  formatSource style source

end YamlIndent
