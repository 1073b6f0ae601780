import YamlIndent.Value.Integer

/-!
# Faults of TOML documents

## Main definitions

* `Toml.Fault`: what is wrong with a document, with its wording.
* `Toml.Rejection`: a fault and what follows it in the document.
* `Toml.Rejection.message`: a fault with the line and column it was found at.
-/

namespace YamlIndent.Toml

/-- A key: the names between its dots. -/
abbrev Key := List Text

/-- A key as it is shown. -/
def shownKey (key : Key) : Text :=
  let names := Value.commaSeparated (key.map quoted)
  '(' :: names ++ (if key.length = 1 then [',', ')'] else [')'])

/-- What is wrong with a document. -/
inductive Fault where
  | invalidStatement
  | expectedLineEnd
  | declaredTwice (key : Key)
  | overwrites
  | openTableHeader
  | openArrayHeader
  | immutable (key : Key)
  | redefines (key : Key)
  | expectedEquals
  | invalidKey
  | openArray
  | openInlineTable
  | duplicateKey (name : Text)
  | stringEscape
  | hexDigits
  | notScalarValue
  | openString
  | illegalInString (c : Char)
  | expected (mark : Text)
  | invalidCharacter (c : Char)
  | invalidDate
  | invalidValue
  /-- An integer is too long to read. -/
  | integer (fault : IntegerFault)
  deriving DecidableEq, Repr

/-- What is wrong, without the place. -/
def Fault.message : Fault → String
  | invalidStatement => "Invalid statement"
  | expectedLineEnd => "Expected newline or end of document after a statement"
  | declaredTwice key => "Cannot declare " ++ String.ofList (shownKey key) ++ " twice"
  | overwrites => "Cannot overwrite a value"
  | openTableHeader => "Expected ']' at the end of a table declaration"
  | openArrayHeader => "Expected ']]' at the end of an array declaration"
  | immutable key => "Cannot mutate immutable namespace " ++ String.ofList (shownKey key)
  | redefines key => "Cannot redefine namespace " ++ String.ofList (shownKey key)
  | expectedEquals => "Expected '=' after a key in a key/value pair"
  | invalidKey => "Invalid initial character for a key part"
  | openArray => "Unclosed array"
  | openInlineTable => "Unclosed inline table"
  | duplicateKey name => "Duplicate inline table key " ++ String.ofList (quoted name)
  | stringEscape => "Unescaped '\\' in a string"
  | hexDigits => "Invalid hex value"
  | notScalarValue => "Escaped character is not a Unicode scalar value"
  | openString => "Unterminated string"
  | illegalInString c => "Illegal character " ++ String.ofList (quoted [c])
  | expected mark => "Expected " ++ String.ofList (quoted mark)
  | invalidCharacter c => "Found invalid character " ++ String.ofList (quoted [c])
  | invalidDate => "Invalid date or datetime"
  | invalidValue => "Invalid value"
  | integer fault => fault.message

/-- A fault, and what follows its place in the document. -/
structure Rejection where
  fault : Fault
  rest : Text
  deriving DecidableEq, Repr

/-- A rejection of `source` in words: the fault with its line and column. -/
def Rejection.message (source : Text) (r : Rejection) : String :=
  match r.fault with
  | .integer fault => fault.message
  | fault =>
    let before := source.take (source.length - r.rest.length)
    let line := before.count '\n' + 1
    let column := (before.reverse.takeWhile (· != '\n')).length + 1
    let place :=
      if r.rest.isEmpty then "end of document"
      else "line " ++ toString line ++ ", column " ++ toString column
    fault.message ++ " (at " ++ place ++ ")"

end YamlIndent.Toml
