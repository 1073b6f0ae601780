import YamlIndent.Text.Digit
import YamlIndent.Text.Space
import YamlIndent.Value.Basic

/-!
# Integers from values

An integer is written with decimal digits of any script, single underscores between them, one sign
in front, and white space around. Numbers lose their fraction, and truth values count as 1 and 0.

## Main definitions

* `IntegerFault`: why there is no integer, with its wording.
* `readInteger`: the integer that a text writes.
* `Value.toInteger`: the integer of a value.
-/

namespace YamlIndent

/-- Why there is no integer. -/
inductive IntegerFault where
  /-- A text does not write an integer. -/
  | literal (t : Text)
  /-- A text writes an integer of this many digits. -/
  | tooLong (digits : Nat)
  /-- The value is not a number. -/
  | notANumber
  /-- The value is infinite. -/
  | infinite
  /-- Values of this type have no integer. -/
  | noInteger (typeName : String)
  deriving DecidableEq, Repr

/-- The most digits that are read. -/
def maxDigits : Nat := 4300

/-- What is wrong. -/
def IntegerFault.message : IntegerFault → String
  | literal t =>
    "invalid literal for int() with base 10: " ++ String.ofList ((quoted t).take 200)
  | tooLong digits =>
    "Exceeds the limit (" ++ toString maxDigits ++
      " digits) for integer string conversion: value has " ++ toString digits ++
      " digits; use sys.set_int_max_str_digits() to increase the limit"
  | notANumber => "cannot convert float NaN to integer"
  | infinite => "cannot convert float infinity to integer"
  | noInteger typeName =>
    "int() argument must be a string, a bytes-like object or a real number, not '" ++
      typeName ++ "'"

/-- White space that may stand around an integer: all but the separators of records. -/
def isMarginSpace (c : Char) : Bool :=
  isSpace c && !(0x1C ≤ c.toNat && c.toNat ≤ 0x1F)

/-- The digits that a text begins with, the number of them, and what follows; single underscores may
stand between digits. `afterDigit` says that a digit stands in front, and `value` and `count` are
those of the digits in front. -/
def readDigits (afterDigit : Bool) (value count : Nat) : Text → Option (Nat × Nat × Text)
  | [] => if afterDigit then some (value, count, []) else none
  | c :: cs =>
    match decimalDigit? c with
    | some d => readDigits true (value * 10 + d) (count + 1) cs
    | none =>
      if !afterDigit then none
      else if c == '_' then readDigits false value count cs
      else some (value, count, c :: cs)

/-- The sign in front of a text, and the rest. -/
def splitSign : Text → Bool × Text
  | '-' :: cs => (true, cs)
  | '+' :: cs => (false, cs)
  | cs => (false, cs)

/-- The integer that a text writes. -/
def readInteger (t : Text) : Except IntegerFault Int :=
  let (negative, digits) := splitSign (t.dropWhile isMarginSpace)
  match readDigits false 0 0 digits with
  | none => .error (.literal t)
  | some (value, count, rest) =>
    if maxDigits < count then .error (.tooLong count)
    else if rest.all isMarginSpace then .ok (if negative then -(value : Int) else value)
    else .error (.literal t)

/-- The integer of a value. -/
def Value.toInteger : Value → Except IntegerFault Int
  | bool b => .ok (if b then 1 else 0)
  | int n => .ok n
  | float .notANumber => .error .notANumber
  | float (.infinite _) => .error .infinite
  | float (.finite negative mantissa exponent) =>
    .ok (Double.truncate negative mantissa exponent)
  | string t => readInteger t
  | v@(null) | v@(array _) | v@(table _) | v@(moment _) => .error (.noInteger v.typeName)

end YamlIndent
