import YamlIndent.Toml.Fault

/-!
# Strings, keys and comments of TOML

## Main definitions

* `Toml.skipComment`, `Toml.skipLines`: past a comment, and past white space, line ends and
  comments.
* `Toml.readString`: a string of any of the four forms.
* `Toml.readKey`: a key.
-/

namespace YamlIndent.Toml

/-- A control character. -/
def isControl (c : Char) : Bool :=
  c.toNat < 0x20 || c.toNat == 0x7F

/-- A control character that no line may hold. -/
def isIllegalInLine (c : Char) : Bool :=
  isControl c && c != '\t'

/-- A control character that no string of several lines may hold. -/
def isIllegalInLines (c : Char) : Bool :=
  isControl c && c != '\t' && c != '\n'

/-- Past the blanks that a text begins with. -/
def skipBlanks (t : Text) : Text :=
  t.dropWhile isBlank

/-- A blank or a line feed. -/
def isBlankOrFeed (c : Char) : Bool :=
  isBlank c || c == '\n'

/-- Refuses a stretch of text with a character that may not stand there; `rest` follows the
stretch. -/
def checkStretch (illegal : Char → Bool) (stretch rest : Text) : Except Rejection Unit :=
  match stretch.dropWhile (!illegal ·) with
  | [] => .ok ()
  | c :: cs => .error ⟨.invalidCharacter c, c :: cs ++ rest⟩

/-- Past the comment that a text begins with, if it does. -/
def skipComment (t : Text) : Except Rejection Text :=
  match t with
  | '#' :: cs => do
    let rest := cs.dropWhile (· != '\n')
    checkStretch isIllegalInLine (cs.takeWhile (· != '\n')) rest
    return rest
  | _ => return t

/-- Past white space, line ends and comments. -/
def skipLines (t : Text) : Except Rejection Text :=
  match _h : t.dropWhile isBlankOrFeed with
  | '#' :: cs => do
    let rest := cs.dropWhile (· != '\n')
    checkStretch isIllegalInLine (cs.takeWhile (· != '\n')) rest
    skipLines rest
  | rest => return rest
termination_by t.length
decreasing_by
  have h1 := (List.dropWhile_suffix isBlankOrFeed (l := t)).length_le
  have h2 := (List.dropWhile_suffix (· != '\n') (l := cs)).length_le
  rw [_h, List.length_cons] at h1
  omega

/-- The text up to the first occurrence of a mark, and the text from it on. -/
def splitBefore (mark : Text) : Text → Option (Text × Text)
  | [] => none
  | c :: cs =>
    if mark.isPrefixOf (c :: cs) then some ([], c :: cs)
    else (splitBefore mark cs).map fun (before, found) => (c :: before, found)

/-! ### Strings -/

/-- A literal string up to its closing mark. -/
def readLiteral (mark : Text) (illegal : Char → Bool) (t : Text) : Except Rejection (Text × Text) :=
  match splitBefore mark t with
  | none => .error ⟨.expected mark, []⟩
  | some (taken, rest) => do
    checkStretch illegal taken rest
    return (taken, rest.drop mark.length)

/-- The value of a hexadecimal digit. -/
def hexValue? (c : Char) : Option Nat :=
  if '0' ≤ c && c ≤ '9' then some (c.toNat - '0'.toNat)
  else if 'a' ≤ c && c ≤ 'f' then some (c.toNat - 'a'.toNat + 10)
  else if 'A' ≤ c && c ≤ 'F' then some (c.toNat - 'A'.toNat + 10)
  else none

/-- The character with a code point of `width` hexadecimal digits. -/
def readHex (width : Nat) (t : Text) : Except Rejection Char :=
  let digits := (t.take width).filterMap hexValue?
  if digits.length = width then
    let n := digits.foldl (fun n d => n * 16 + d) 0
    if n.isValidChar then .ok (Char.ofNat n) else .error ⟨.notScalarValue, t.drop width⟩
  else .error ⟨.hexDigits, t⟩

/-- The characters that a backslash makes of others. -/
def simpleEscape? : Char → Option Char
  | 'b' => some '\x08'
  | 't' => some '\t'
  | 'n' => some '\n'
  | 'f' => some '\x0c'
  | 'r' => some '\r'
  | '"' => some '"'
  | '\\' => some '\\'
  | _ => none

/-- How much of the text behind a backslash belongs to it, and what it stands for. In a string of
several lines a backslash at the end of a line takes the white space behind it along. -/
def readEscape (multiline : Bool) (t : Text) : Except Rejection (Nat × Text) :=
  match t with
  | [] => .error ⟨.stringEscape, []⟩
  | c :: cs =>
    if multiline && (isBlank c || c == '\n') then
      match skipBlanks (c :: cs) with
      | [] => .ok (t.length, [])
      | '\n' :: rest => .ok (t.length - (rest.dropWhile isBlankOrFeed).length, [])
      | rest => .error ⟨.stringEscape, rest⟩
    else if c == 'u' then (readHex 4 cs).map fun d => (5, [d])
    else if c == 'U' then (readHex 8 cs).map fun d => (9, [d])
    else
      match simpleEscape? c with
      | some d => .ok (1, [d])
      | none => .error ⟨.stringEscape, cs⟩

/-- A string with escapes up to its closing mark: three quotes for several lines, else one. -/
def readBasic (multiline : Bool) (t : Text) : Except Rejection (Text × Text) :=
  match t with
  | [] => .error ⟨.openString, []⟩
  | '"' :: cs =>
    if !multiline then .ok ([], cs)
    else if ['"', '"'].isPrefixOf cs then .ok ([], cs.drop 2)
    else (readBasic multiline cs).map fun (s, rest) => ('"' :: s, rest)
  | '\\' :: cs => do
    let (taken, escaped) ← readEscape multiline cs
    let (s, rest) ← readBasic multiline (cs.drop taken)
    return (escaped ++ s, rest)
  | c :: cs =>
    if if multiline then isIllegalInLines c else isIllegalInLine c then
      .error ⟨.illegalInString c, c :: cs⟩
    else (readBasic multiline cs).map fun (s, rest) => (c :: s, rest)
termination_by t.length
decreasing_by
  · simp
  · simp only [List.length_cons, List.length_drop]
    omega
  · simp

/-- Up to two quotes that belong to a string of several lines although its mark is complete. -/
def trailingQuotes (quote : Char) (s : Text) : Text → Text × Text
  | c :: d :: cs =>
    if c == quote then
      if d == quote then (s ++ [quote, quote], cs) else (s ++ [quote], d :: cs)
    else (s, c :: d :: cs)
  | [c] => if c == quote then (s ++ [quote], []) else (s, [c])
  | [] => (s, [])

/-- A string of several lines behind its opening mark. -/
def readMultiline (quote : Char) (t : Text) : Except Rejection (Text × Text) := do
  let body := match t with
    | '\n' :: cs => cs
    | cs => cs
  let (s, rest) ←
    if quote == '\'' then readLiteral [quote, quote, quote] isIllegalInLines body
    else readBasic true body
  return trailingQuotes quote s rest

/-- The string that a text begins with, if it begins with a quote. -/
def readString? : Text → Option (Except Rejection (Text × Text))
  | '"' :: '"' :: '"' :: cs => some (readMultiline '"' cs)
  | '"' :: cs => some (readBasic false cs)
  | '\'' :: '\'' :: '\'' :: cs => some (readMultiline '\'' cs)
  | '\'' :: cs => some (readLiteral ['\''] isIllegalInLine cs)
  | _ => none

/-! ### Keys -/

/-- A character of a key without quotes. -/
def isBareKey (c : Char) : Bool :=
  c.isAlphanum || c == '-' || c == '_'

/-- A character that a key begins with. -/
def startsKey (c : Char) : Bool :=
  isBareKey c || c == '"' || c == '\''

/-- One name of a key. -/
def readName (t : Text) : Except Rejection (Text × Text) :=
  match t with
  | '\'' :: cs => readLiteral ['\''] isIllegalInLine cs
  | '"' :: cs => readBasic false cs
  | _ =>
    if (t.head?.any isBareKey) then .ok (t.takeWhile isBareKey, t.dropWhile isBareKey)
    else .error ⟨.invalidKey, t⟩

/-- The names of a key that follow a dot, and what follows the key and the blanks behind it. No key
has more names than `fuel`. -/
def readNames : Nat → Text → Except Rejection (Key × Text)
  | fuel + 1, '.' :: cs => do
    let (name, rest) ← readName (skipBlanks cs)
    let (names, rest) ← readNames fuel (skipBlanks rest)
    return (name :: names, rest)
  | _, t => return ([], t)

/-- The key that a text begins with, and what follows it and the blanks behind it. -/
def readKey (t : Text) : Except Rejection (Key × Text) := do
  let (name, rest) ← readName t
  let (names, rest) ← readNames t.length (skipBlanks rest)
  return (name :: names, rest)

end YamlIndent.Toml
