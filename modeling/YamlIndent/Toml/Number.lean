import YamlIndent.Toml.Fault

/-!
# Numbers, dates and times of TOML

## Main definitions

* `Toml.readDateTime?`, `Toml.readTime?`: a date with or without a time, and a time.
* `Toml.readNumber?`: an integer or a floating-point number.
* `Toml.readSpecial?`: an infinity or what is not a number.
-/

namespace YamlIndent.Toml

/-- A digit of a base up to 16, by value. -/
def digitOf? (base : Nat) (c : Char) : Option Nat :=
  let value :=
    if '0' ≤ c && c ≤ '9' then c.toNat - '0'.toNat
    else if 'a' ≤ c && c ≤ 'f' then c.toNat - 'a'.toNat + 10
    else if 'A' ≤ c && c ≤ 'F' then c.toNat - 'A'.toNat + 10
    else base
  if value < base then some value else none

/-- A digit of some base. -/
def isDigitOf (base : Nat) (c : Char) : Bool :=
  (digitOf? base c).isSome

/-- The digits that a text begins with, single underscores between them left out, and the rest;
`afterDigit` says that a digit stands in front. -/
def spanDigits (base : Nat) (afterDigit : Bool) : Text → Text × Text
  | '_' :: c :: cs =>
    if afterDigit && isDigitOf base c then
      let (digits, rest) := spanDigits base true cs
      (c :: digits, rest)
    else ([], '_' :: c :: cs)
  | c :: cs =>
    if isDigitOf base c then
      let (digits, rest) := spanDigits base true cs
      (c :: digits, rest)
    else ([], c :: cs)
  | [] => ([], [])

/-- The number that digits write. -/
def ofDigits (base : Nat) (digits : Text) : Nat :=
  digits.foldl (fun n c => n * base + (digitOf? base c).getD 0) 0

/-! ### Dates and times -/

/-- As many decimal digits as asked for, and the rest. -/
def takeDigits? (count : Nat) (t : Text) : Option (Nat × Text) :=
  let digits := t.take count
  if digits.length = count && digits.all (isDigitOf 10) then
    some (ofDigits 10 digits, t.drop count)
  else none

/-- A number of two digits within bounds, and the rest. -/
def takeTwo? (low high : Nat) (t : Text) : Option (Nat × Text) := do
  let (n, rest) ← takeDigits? 2 t
  guard (low ≤ n && n ≤ high)
  return (n, rest)

/-- The rest of a text behind a character that it begins with. -/
def takeChar? (c : Char) : Text → Option Text
  | d :: rest => if d == c then some rest else none
  | [] => none

/-- The rest behind a fraction of a second, if there is one. -/
def skipFraction (t : Text) : Text :=
  match t with
  | '.' :: c :: rest => if isDigitOf 10 c then rest.dropWhile (isDigitOf 10) else t
  | _ => t

/-- The rest behind a time of day. -/
def skipTime? (t : Text) : Option Text := do
  let (_, rest) ← takeTwo? 0 23 t
  let (_, rest) ← takeTwo? 0 59 (← takeChar? ':' rest)
  let (_, rest) ← takeTwo? 0 59 (← takeChar? ':' rest)
  return skipFraction rest

/-- The rest behind a time zone. -/
def skipZone? (t : Text) : Option Text :=
  match t with
  | 'Z' :: rest | 'z' :: rest => some rest
  | '+' :: rest | '-' :: rest => do
    let (_, rest) ← takeTwo? 0 23 rest
    let (_, rest) ← takeTwo? 0 59 (← takeChar? ':' rest)
    return rest
  | _ => none

/-- The number of days of a month. -/
def daysIn (year month : Nat) : Nat :=
  if month = 2 then
    if year % 4 = 0 && (year % 100 != 0 || year % 400 = 0) then 29 else 28
  else if [4, 6, 9, 11].contains month then 30
  else 31

/-- The date that a text begins with, with or without a time of day; its parts are within bounds but
may make no day of the calendar. -/
def readDateTime? (t : Text) : Option (Except Rejection (Value × Text)) := do
  let (year, rest) ← takeDigits? 4 t
  let (month, rest) ← takeTwo? 1 12 (← takeChar? '-' rest)
  let (day, rest) ← takeTwo? 1 31 (← takeChar? '-' rest)
  let timed := match rest with
    | 'T' :: r | 't' :: r | ' ' :: r => skipTime? r
    | _ => none
  if year = 0 || daysIn year month < day then return .error ⟨.invalidDate, t⟩
  match timed with
  | some r => return .ok (.moment .dateTime, (skipZone? r).getD r)
  | none => return .ok (.moment .date, rest)

/-- The time that a text begins with. -/
def readTime? (t : Text) : Option (Value × Text) :=
  (skipTime? t).map fun rest => (.moment .time, rest)

/-! ### Numbers -/

/-- The integer of some base behind its mark. -/
def readBased? (t : Text) : Option (Value × Text) :=
  let read (base : Nat) (cs : Text) : Option (Value × Text) :=
    match spanDigits base false cs with
    | ([], _) => none
    | (digits, rest) => some (.int (ofDigits base digits), rest)
  match t with
  | '0' :: 'x' :: cs => read 16 cs
  | '0' :: 'o' :: cs => read 8 cs
  | '0' :: 'b' :: cs => read 2 cs
  | _ => none

/-- The digits in front of the point: a lone zero, or digits that do not begin with one. -/
def readWhole? (t : Text) : Option (Text × Text) :=
  match t with
  | '0' :: cs => some (['0'], cs)
  | _ =>
    match spanDigits 10 false t with
    | ([], _) => none
    | whole => some whole

/-- The digits behind a point; none if no digit follows the point. -/
def readFraction (t : Text) : Text × Text :=
  match t with
  | '.' :: cs =>
    match spanDigits 10 false cs with
    | ([], _) => ([], t)
    | fraction => fraction
  | _ => ([], t)

/-- The exponent that a text begins with. -/
def readExponent? (t : Text) : Option (Int × Text) :=
  match t with
  | 'e' :: cs | 'E' :: cs =>
    let (negative, cs) := splitSign cs
    match spanDigits 10 false cs with
    | ([], _) => none
    | (digits, rest) =>
      let n : Int := ofDigits 10 digits
      some (if negative then -n else n, rest)
  | _ => none

/-- The decimal number that a text begins with. -/
def readDecimal? (t : Text) : Option (Except Rejection (Value × Text)) := do
  let (negative, unsigned) := splitSign t
  let (whole, rest) ← readWhole? unsigned
  let (fraction, rest) := readFraction rest
  match fraction, readExponent? rest with
  | [], none =>
    if maxDigits < whole.length then return .error ⟨.integer (.tooLong whole.length), t⟩
    let n : Int := ofDigits 10 whole
    return .ok (.int (if negative then -n else n), rest)
  | _, exponent =>
    let (power, rest) := exponent.getD (0, rest)
    let digits := ofDigits 10 (whole ++ fraction)
    return .ok (.float (.ofDecimal negative digits (power - fraction.length)), rest)

/-- The number that a text begins with. -/
def readNumber? (t : Text) : Option (Except Rejection (Value × Text)) :=
  match readBased? t with
  | some r => some (.ok r)
  | none => readDecimal? t

/-- The infinity that a text begins with, or what is not a number. -/
def readSpecial? (t : Text) : Option (Value × Text) :=
  let (negative, unsigned) := splitSign t
  match unsigned with
  | 'i' :: 'n' :: 'f' :: rest => some (.float (.infinite negative), rest)
  | 'n' :: 'a' :: 'n' :: rest => some (.float .notANumber, rest)
  | _ => none

end YamlIndent.Toml
