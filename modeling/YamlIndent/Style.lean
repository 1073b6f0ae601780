import YamlIndent.Text.Basic

/-!
# Styles

## Main definitions

* `Style`: what one formatting pass is asked for.
-/

namespace YamlIndent

/-- How a tree is indented: the characters per step, at least one, and whether the gap after a `-`
becomes one space. -/
structure Style where
  step : Nat
  singleGap : Bool
  step_pos : 0 < step := by decide
  deriving DecidableEq, Repr

namespace Style

/-- Two characters per step, and one space after a `-`. -/
def standard : Style where
  step := 2
  singleGap := true

end Style

end YamlIndent
