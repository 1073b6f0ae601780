import YamlIndent.Text.Basic

/-!
# White space of every script

The white space of Unicode is wider than the blanks that block layout knows: it has the separators
of all scripts and the control characters that separate records, but neither U+180E, U+200B nor
U+FEFF.

## Main definitions

* `isSpace`: the class.
* `isInlineSpace`: the class without the two line breaks of block layout.
* `inRanges`: membership in a class that is given by its ranges of code points.

## Main results

* `isSpace_of_isWhitespace`, `isSpace_of_isBlank`: the narrower classes are in it.
-/

namespace YamlIndent

/-- Whether a code point is in one of some ranges, ends included. -/
def inRanges (ranges : List (Nat × Nat)) (n : Nat) : Bool :=
  ranges.any fun (first, last) => first ≤ n && n ≤ last

/-- The ranges of white space. -/
def spaceRanges : List (Nat × Nat) :=
  [(0x09, 0x0D), (0x1C, 0x20), (0x85, 0x85), (0xA0, 0xA0), (0x1680, 0x1680), (0x2000, 0x200A),
    (0x2028, 0x2029), (0x202F, 0x202F), (0x205F, 0x205F), (0x3000, 0x3000)]

/-- White space of any script. -/
def isSpace (c : Char) : Bool :=
  inRanges spaceRanges c.toNat

/-- White space that is no line break of block layout. -/
def isInlineSpace (c : Char) : Bool :=
  isSpace c && !isBreak c

theorem isSpace_of_isWhitespace {c : Char} (h : c.isWhitespace) : isSpace c := by
  simp only [Char.isWhitespace, Bool.or_eq_true, decide_eq_true_eq] at h
  rcases h with ((rfl | rfl) | rfl) | rfl <;> decide

theorem isSpace_of_isBlank {c : Char} (h : isBlank c) : isSpace c := by
  simp only [isBlank, Bool.or_eq_true, beq_iff_eq] at h
  rcases h with rfl | rfl <;> decide

end YamlIndent
