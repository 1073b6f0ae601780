import YamlIndent.Decimal.Double

/-!
# The shortest decimal of a number

A finite number is shown by the fewest digits that are read back as it; among as few the nearest, a
tie going to the even digit. The point is written in place for magnitudes from 10⁻⁴ up to 10¹⁶, and
beyond them the digits come with an exponent of at least two digits.

## Main definitions

* `Double.decimalPoint`: the place of the point in front of the digits of a number.
* `Double.shortest`: the fewest digits that read back.
* `Double.text`: a number as it is shown.
-/

namespace YamlIndent

namespace Double

/-- Where the decimal point stands behind the first digit of `num / den`, counted from the front of
its digits: the least `p` with `num / den < 10 ^ p`. -/
def decimalPoint (num den : Nat) : Int :=
  match (List.range 700).find? fun i : Nat =>
      let bound := scaleRatio 10 1 1 ((i : Int) - 340)
      num * bound.2 < bound.1 * den with
  | some i => (i : Int) - 340
  | none => 360

/-- The multiples of `10 ^ power` next to `num / den`, the nearer first, and the even one first half
way between them. -/
def neighbours (num den : Nat) (power : Int) : List Nat :=
  let scaled := scaleRatio 10 num den (-power)
  let floor := scaled.1 / scaled.2
  if roundRatio scaled.1 scaled.2 = floor then [floor, floor + 1] else [floor + 1, floor]

/-- Whether `digits * 10 ^ power` is read as the number `mantissa * 2 ^ exponent`: it lies between
the points half way to the two next numbers, those points included if the mantissa is even. -/
def readsBack (mantissa : Nat) (exponent : Int) (digits : Nat) (power : Int) : Bool :=
  let narrow := mantissa == leastMantissa && leastExponent < exponent
  let low := if narrow then 4 * mantissa - 1 else 4 * mantissa - 2
  let high := 4 * mantissa + 2
  let value := scaleRatio 10 digits 1 power
  let bound (quarters : Nat) := scaleRatio 2 quarters 1 (exponent - 2)
  let above := (bound low).1 * value.2
  let below := value.1 * (bound high).2
  if mantissa % 2 == 0 then
    above ≤ value.1 * (bound low).2 && below ≤ (bound high).1 * value.2
  else above < value.1 * (bound low).2 && below < (bound high).1 * value.2

/-- The fewest digits that are read back as the number, and the place of the point in front of
them. -/
def shortest (mantissa : Nat) (exponent : Int) : Nat × Int :=
  let value := scaleRatio 2 mantissa 1 exponent
  let point := decimalPoint value.1 value.2
  let candidates := (List.range 17).flatMap fun i : Nat =>
    let power := point - ((i : Int) + 1)
    (neighbours value.1 value.2 power).map fun digits => (digits, power)
  match candidates.find? fun (digits, power) => readsBack mantissa exponent digits power with
  | some (digits, power) =>
    let length : Int := (Nat.toDigits 10 digits).length
    (digits, power + length)
  | none => (0, point)

/-- The digits without the zeros at their end. -/
def significant (digits : Nat) : Text :=
  ((Nat.toDigits 10 digits).reverse.dropWhile (· == '0')).reverse

/-- Digits with the point at a place in front of or behind them. -/
def positional (digits : Text) (point : Int) : Text :=
  if point ≤ 0 then '0' :: '.' :: List.replicate (-point).toNat '0' ++ digits
  else if digits.length ≤ point then
    digits ++ List.replicate (point.toNat - digits.length) '0' ++ ['.', '0']
  else digits.take point.toNat ++ '.' :: digits.drop point.toNat

/-- Digits with an exponent. -/
def scientific (digits : Text) (point : Int) : Text :=
  let exponent := point - 1
  let written := Nat.toDigits 10 exponent.natAbs
  let fraction := if digits.length ≤ 1 then [] else '.' :: digits.drop 1
  digits.take 1 ++ fraction ++ ['e', if exponent < 0 then '-' else '+'] ++
    List.replicate (2 - written.length) '0' ++ written

/-- A number as it is shown. -/
def text : Double → Text
  | notANumber => ['n', 'a', 'n']
  | infinite negative => (if negative then ['-'] else []) ++ ['i', 'n', 'f']
  | finite negative mantissa exponent =>
    let sign := if negative then ['-'] else []
    if mantissa = 0 then sign ++ ['0', '.', '0']
    else
      let (digits, point) := shortest mantissa exponent
      let shown := significant digits
      sign ++ if -4 < point && point ≤ 16 then positional shown point else scientific shown point

end Double

end YamlIndent
