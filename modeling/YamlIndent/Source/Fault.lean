import YamlIndent.Source.Place

/-!
# Faults of a source text

The block-style documents read here cover no block scalars, no values of more than one line and no
tabs in indentation. What goes beyond them is a fault, found at a place of the source.

## Main definitions

* `Fault`: the causes, with their wording and, for some, a hint.
* `Rejection`: a fault and the place where it was found.
* `SourceError`: a fault as it is reported, by line and column, and `SourceError.render`.
* `Rejection.report`: the line and column of a place in its source.
-/

namespace YamlIndent

/-- Why a source text is not read. -/
inductive Fault where
  /-- A tab stands among the blanks in front of a token that opens a block or may continue one. -/
  | tabInIndentation
  /-- A value begins with `|` or `>`. -/
  | blockScalar
  /-- A quoted scalar does not end on its line. -/
  | openQuote
  /-- A flow collection does not end on its line. -/
  | openFlow
  /-- A token belongs to no block of its document. -/
  | strayContent
  deriving DecidableEq, Repr

namespace Fault

/-- What is wrong. -/
def message : Fault → String
  | tabInIndentation => "tabs are not allowed in indentation"
  | blockScalar => "block scalars are not supported"
  | openQuote => "multi-line quoted scalars are not supported"
  | openFlow => "multi-line flow collections are not supported"
  | strayContent => "unexpected content"

/-- What to do about it, where there is something to say. -/
def hint : Fault → Option String
  | tabInIndentation => some "indent with spaces"
  | blockScalar => some "use a quoted single-line scalar"
  | strayContent => some "check the indentation of this line"
  | openQuote | openFlow => none

end Fault

/-- A fault and the place of the source where it was found. -/
structure Rejection where
  fault : Fault
  place : Place
  deriving DecidableEq, Repr

/-- The column of a place, unless a tab stands among the blanks that lead to it. -/
def Place.checkedColumn (p : Place) : Except Rejection Nat :=
  if p.tabbed then .error ⟨.tabInIndentation, p⟩ else .ok p.column

/-- A fault as it is reported. Lines and columns count from 1, and 0 says as little as none. -/
structure SourceError where
  message : String
  line : Option Int
  column : Option Int
  hint : Option String
  deriving DecidableEq, Repr

namespace SourceError

/-- A number and a colon, or nothing. -/
private def locator : Option Int → String
  | none | some 0 => ""
  | some n => toString n ++ ":"

/-- The fault in one line: where it is, what it is, and the hint in parentheses. -/
def render (e : SourceError) : String :=
  let location := locator e.line ++ locator e.column
  let located := if location.isEmpty then e.message else location ++ " " ++ e.message
  match e.hint with
  | none | some "" => located
  | some hint => located ++ " (" ++ hint ++ ")"

end SourceError

/-- A rejection of `source` by line and column: only line feeds count lines, while a carriage return
too starts a column count. -/
def Rejection.report (source : Text) (r : Rejection) : SourceError where
  message := r.fault.message
  line := some ((source.take (source.length - r.place.rest.length)).count '\n' + 1 : Nat)
  column := some (r.place.column + 1 : Nat)
  hint := r.fault.hint

end YamlIndent
