import YamlIndent.Text.Space

/-!
# Leads and their columns

The lead of a node is what stands between the node and the text before it. If it has a line break,
its last line decides in which column the node starts; its other lines are blank or hold comments. A
comment that the lead begins with, in front of any break, trails the text before it and stays.

## Main definitions

* `indentOf`: the width of the blanks that a lead ends on.
* `cutLines`, `joinLines`: a text as its first line and its later lines with their breaks.
* `realign`, `realignDocument`: the lead with its comment lines at a column.
* `moveTo`: the lead with its comment lines and its node at a column.

## Main results

* `joinLines_cutLines`: nothing is lost between the lines.
-/

namespace YamlIndent

/-- The number of blanks after the last break of a lead, or at its start if it has no break. -/
def indentOf (lead : Text) : Nat :=
  ((lastLine lead).takeWhile isBlank).length

/-! ### Lines -/

/-- A text as its first line, and its later lines each with the break in front of it. -/
def cutLines : Text → Text × List (Char × Text)
  | [] => ([], [])
  | c :: cs =>
    let lines := cutLines cs
    if isBreak c then ([], (c, lines.1) :: lines.2) else (c :: lines.1, lines.2)

/-- The text of a first line and of later lines with their breaks. -/
def joinLines (first : Text) (later : List (Char × Text)) : Text :=
  first ++ later.flatMap fun (b, line) => b :: line

theorem joinLines_cutLines (t : Text) : joinLines (cutLines t).1 (cutLines t).2 = t := by
  induction t with
  | nil => rfl
  | cons c cs ih =>
    by_cases h : isBreak c <;> simpa [cutLines, joinLines, h] using ih

/-! ### Comments -/

/-- A line with its comment at a column, if it holds nothing but a comment. -/
def placeComment (column : Int) (line : Text) : Text :=
  match line.dropWhile isInlineSpace with
  | '#' :: comment => spaces column ++ '#' :: comment
  | _ => line

/-- Later lines with their comments at a column. -/
def placeComments (column : Int) (later : List (Char × Text)) : List (Char × Text) :=
  later.map fun (b, line) => (b, placeComment column line)

/-- The lead with every comment that starts a line of it at a column. -/
def realign (column : Int) (lead : Text) : Text :=
  joinLines (cutLines lead).1 (placeComments column (cutLines lead).2)

/-- The lead of a document with its comments at a column; a comment on its first line starts that
line. -/
def realignDocument (column : Int) (lead : Text) : Text :=
  joinLines (placeComment 0 (cutLines lead).1) (placeComments column (cutLines lead).2)

/-! ### Columns -/

/-- The lead with its last line `width` characters wider, or that much cut from its end. -/
def shiftEnd (width : Int) (lead : Text) : Text :=
  if 0 ≤ width then lead ++ spaces width else lead.take (lead.length - (-width).toNat)

/-- The lead with its comment lines and its end at a column. A lead without a break stays, and one
that ends inside a comment has no end to move. -/
def moveTo (column : Int) (lead : Text) : Text :=
  if !hasBreak lead then lead
  else
    let realigned := realign column lead
    if (lastLine realigned).all isBlank then shiftEnd (column - indentOf lead) realigned
    else realigned

end YamlIndent
