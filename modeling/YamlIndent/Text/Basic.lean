/-!
# Text, blanks and line breaks

A text is its list of characters: counts, columns and cuts are in characters. The two classes that
block layout rests on are the blanks (space and tab) and the line breaks (line feed and carriage
return).

## Main definitions

* `isBlank`, `isBreak`: the two classes.
* `endsToken`: whether a token may end in front of a text.
* `lineAfter`: the line a reader stands on after some text, read backwards.
* `lastLine`: what follows the last break of a text.
* `splitTrailing`: a text without the blanks at its end, and those blanks.

## Main results

* `splitTrailing_append`: the split loses nothing.
* `lineAfter_append`: reading two texts in turn is reading them joined.
-/

namespace YamlIndent

/-- A text as the list of its characters. -/
abbrev Text := List Char

/-- A space or a tab. -/
def isBlank (c : Char) : Bool :=
  c == ' ' || c == '\t'

/-- A character that ends a line. -/
def isBreak (c : Char) : Bool :=
  c == '\n' || c == '\r'

/-- Whether a text spans more than one line. -/
def hasBreak (t : Text) : Bool :=
  t.any isBreak

/-- A token may end where the text ends, and in front of a blank or a break. -/
def endsToken : Text → Bool
  | [] => true
  | c :: _ => isBlank c || isBreak c

/-- The line that a reader on `line` stands on after some more text; both hold the last character
first. -/
def lineAfter (line : Text) : Text → Text
  | [] => line
  | c :: cs => lineAfter (if isBreak c then [] else c :: line) cs

/-- What follows the last break of a text; the whole text if it has none. -/
def lastLine (t : Text) : Text :=
  (lineAfter [] t).reverse

/-- Spaces up to a column; none for a column left of the margin. -/
def spaces (width : Int) : Text :=
  List.replicate width.toNat ' '

/-- A text without the blanks at its end, and those blanks. -/
def splitTrailing (t : Text) : Text × Text :=
  ((t.reverse.dropWhile isBlank).reverse, (t.reverse.takeWhile isBlank).reverse)

theorem splitTrailing_append (t : Text) : (splitTrailing t).1 ++ (splitTrailing t).2 = t := by
  simp [splitTrailing, ← List.reverse_append, List.takeWhile_append_dropWhile]

theorem lineAfter_append (line a b : Text) :
    lineAfter line (a ++ b) = lineAfter (lineAfter line a) b := by
  induction a generalizing line with
  | nil => rfl
  | cons c cs ih => exact ih _

end YamlIndent
