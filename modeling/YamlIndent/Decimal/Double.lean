import YamlIndent.Text.Basic

/-!
# Floating-point numbers

The numbers of double precision: `mantissa * 2 ^ exponent` with a mantissa below `2 ^ 53` and an
exponent of at least -1074, signed zeros and infinities, and one that is not a number. All of it is
exact arithmetic on natural numbers.

## Main definitions

* `Double`: the numbers.
* `Double.ofRatio`: the number nearest to a fraction.
* `Double.ofDecimal`: the number nearest to a decimal.
* `Double.truncate`: the integer towards zero.
-/

namespace YamlIndent

/-- A number of double precision. -/
inductive Double where
  | notANumber
  | infinite (negative : Bool)
  | finite (negative : Bool) (mantissa : Nat) (exponent : Int)
  deriving DecidableEq, Repr

/-- `num / den` rounded to an integer, a half to the even neighbour. -/
def roundRatio (num den : Nat) : Nat :=
  let floor := num / den
  let doubled := 2 * (num % den)
  if den < doubled || (doubled == den && floor % 2 == 1) then floor + 1 else floor

/-- The fraction `num / den` times `base ^ power`. -/
def scaleRatio (base num den : Nat) (power : Int) : Nat × Nat :=
  (num * Nat.pow base power.toNat, den * Nat.pow base (-power).toNat)

namespace Double

/-- The least mantissa of full precision, which only the numbers nearest to zero fall short of. -/
def leastMantissa : Nat := Nat.pow 2 52

/-- The exponents of mantissas that are fractions. -/
def leastExponent : Int := -1074

/-- The exponents of numbers beyond all finite ones. -/
def exponentLimit : Int := 972

/-- The number nearest to `num / den`, a half to the even mantissa. -/
def ofRatio (negative : Bool) (num den : Nat) : Double :=
  if num = 0 then finite negative 0 leastExponent
  else
    let estimate : Int := (num.log2 : Int) - den.log2 - 52
    let scaled := scaleRatio 2 num den (-estimate)
    let fitted := if scaled.1 / scaled.2 < leastMantissa then estimate - 1 else estimate
    let exponent := max fitted leastExponent
    let target := scaleRatio 2 num den (-exponent)
    let mantissa := roundRatio target.1 target.2
    let (mantissa, exponent) :=
      if mantissa = 2 * leastMantissa then (leastMantissa, exponent + 1) else (mantissa, exponent)
    if exponentLimit ≤ exponent then infinite negative else finite negative mantissa exponent

/-- The number nearest to `digits * 10 ^ power`. -/
def ofDecimal (negative : Bool) (digits : Nat) (power : Int) : Double :=
  if digits = 0 then finite negative 0 leastExponent
  else if 400 < power then infinite negative
  else if power + digits.log2 < -400 then finite negative 0 leastExponent
  else
    let ratio := scaleRatio 10 digits 1 power
    ofRatio negative ratio.1 ratio.2

/-- Whether the number counts as nothing. -/
def isZero : Double → Bool
  | finite _ mantissa _ => mantissa == 0
  | notANumber | infinite _ => false

/-- The integer that is left when the fraction is dropped. -/
def truncate (negative : Bool) (mantissa : Nat) (exponent : Int) : Int :=
  let ratio := scaleRatio 2 mantissa 1 exponent
  let magnitude : Int := ↑(ratio.1 / ratio.2)
  if negative then -magnitude else magnitude

end Double

end YamlIndent
