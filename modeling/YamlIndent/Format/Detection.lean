import YamlIndent.Text.LineEnd
import YamlIndent.Text.Word

/-!
# What looks like YAML

The first line that is neither blank nor a comment decides. It is taken for YAML if it opens a
document, holds a sequence entry, or begins with a key.

## Main definitions

* `strip`: a text without the white space around it.
* `isKeyLine`: a line that begins with a key.
* `looksLikeYaml`: the decision.
-/

namespace YamlIndent

/-- A text without the white space around it. -/
def strip (t : Text) : Text :=
  ((t.dropWhile isSpace).reverse.dropWhile isSpace).reverse

/-- A character that a key line begins with. -/
def startsKeyLine (c : Char) : Bool :=
  isWord c || c == '"' || c == '\'' || c == '.' || c == '/' || c == '-'

/-- Whether a colon comes, in front of white space or the end, before any `#`. -/
def reachesColon : Text → Bool
  | [] => false
  | c :: cs =>
    (c == ':' && (cs.isEmpty || cs.head?.any isSpace)) || (c != '#' && reachesColon cs)

/-- A line that begins with a key: a word, quotes or a path up to a colon. -/
def isKeyLine : Text → Bool
  | [] => false
  | c :: cs => startsKeyLine c && reachesColon cs

/-- A stripped line that opens a document or a sequence entry, or begins with a key. -/
def isYamlLine (line : Text) : Bool :=
  line == ['-', '-', '-'] || ['-', '-', '-', ' '].isPrefixOf line || ['-', ' '].isPrefixOf line ||
    isKeyLine line

/-- Whether the first line of a text that says something is a line of YAML. -/
def looksLikeYaml (t : Text) : Bool :=
  (((lines t).map strip).find? fun line => !line.isEmpty && line.head? != some '#').any isYamlLine

end YamlIndent
