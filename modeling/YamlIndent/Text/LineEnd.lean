import YamlIndent.Text.Basic

/-!
# Line ends

## Main definitions

* `unifyPairs`: a line feed for every pair of carriage return and line feed.
* `unifyBreaks`: a line feed for every line end.
* `lines`: the lines of a text, by all the line ends of Unicode.

## Main results

* `unifyBreaks_eq_self`: without a carriage return nothing changes.
-/

namespace YamlIndent

/-- A text with a line feed for each pair of carriage return and line feed. -/
def unifyPairs : Text → Text
  | '\r' :: '\n' :: cs => '\n' :: unifyPairs cs
  | c :: cs => c :: unifyPairs cs
  | [] => []

/-- A text with a line feed for each such pair, and for each carriage return by itself. -/
def unifyBreaks : Text → Text
  | '\r' :: '\n' :: cs => '\n' :: unifyBreaks cs
  | '\r' :: cs => '\n' :: unifyBreaks cs
  | c :: cs => c :: unifyBreaks cs
  | [] => []

theorem unifyBreaks_eq_self {t : Text} (h : '\r' ∉ t) : unifyBreaks t = t := by
  fun_induction unifyBreaks t <;> simp_all

/-- A character that ends a line for Unicode. -/
def isLineEnd (c : Char) : Bool :=
  isBreak c || c == '\x0b' || c == '\x0c' || c == '\x1c' || c == '\x1d' || c == '\x1e' ||
    c == '\u0085' || c == '\u2028' || c == '\u2029'

/-- The lines of a text behind the current line, which holds its last character first. -/
def linesFrom (line : Text) : Text → List Text
  | [] => if line.isEmpty then [] else [line.reverse]
  | '\r' :: '\n' :: cs => line.reverse :: linesFrom [] cs
  | c :: cs =>
    if isLineEnd c then line.reverse :: linesFrom [] cs else linesFrom (c :: line) cs

/-- The lines of a text without their ends. -/
def lines (t : Text) : List Text :=
  linesFrom [] t

end YamlIndent
