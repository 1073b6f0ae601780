import YamlIndent.Style
import YamlIndent.Value.Integer

/-!
# Settings

Settings are what a user may configure. The indent size is checked when it is set. What is given for
the spacing behind a `-` is kept as given, and only counts as true or false.

## Main definitions

* `Settings`: the two settings, with `Settings.standard`.
* `Settings.withSize`, `Settings.ofValues`: settings of checked values.
* `Settings.style`: the style that settings ask for.
-/

namespace YamlIndent

/-- The indent size, at least 1, and whether the spacing behind a `-` is normalized. -/
structure Settings where
  size : Nat
  spacing : Value
  size_pos : 0 < size := by decide

/-- Why a value is no setting. -/
inductive SettingFault where
  /-- The indent size is no integer. -/
  | notInteger (given : Value)
  /-- The indent size is too small. -/
  | belowOne (given : Int)

/-- What is wrong. -/
def SettingFault.message : SettingFault → String
  | notInteger given => "indent_size must be an integer, got " ++ String.ofList given.shown
  | belowOne given => "indent_size must be >= 1, got " ++ toString given

namespace Settings

/-- What holds where nothing is configured. -/
def standard : Settings where
  size := 2
  spacing := .bool true
  size_pos := Nat.succ_pos 1

/-- The settings with an indent size. -/
def withSize (s : Settings) (size : Int) : Except SettingFault Settings :=
  if h : 1 ≤ size then .ok ⟨size.toNat, s.spacing, by omega⟩ else .error (.belowOne size)

/-- The settings with a value for the spacing. -/
def withSpacing (s : Settings) (spacing : Value) : Settings :=
  { s with spacing }

/-- The settings of two values. -/
def ofValues (size spacing : Value) : Except SettingFault Settings :=
  match size with
  | .int n => (standard.withSpacing spacing).withSize n
  | given => .error (.notInteger given)

/-- The style that settings ask for. -/
def style (s : Settings) : Style where
  step := s.size
  singleGap := s.spacing.truthy
  step_pos := s.size_pos

end Settings

end YamlIndent
