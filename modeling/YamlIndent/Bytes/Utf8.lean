import YamlIndent.Text.Quoted

/-!
# UTF-8

A character is a lead byte and up to three tail bytes. The lead byte says how many follow and bounds
the first of them, so that no character has two encodings and no surrogate has one.

## Main definitions

* `Utf8.Lead`, `Utf8.lead?`: what a lead byte promises.
* `Utf8.decode`: the text of some bytes.
* `Utf8.Fault.message`: why bytes are no text, in words.
* `Utf8.encode`: the bytes of a text.
-/

namespace YamlIndent.Utf8

/-- Bytes as numbers below 256. -/
abbrev Bytes := List UInt8

/-- What a lead byte promises: the number of tail bytes, the bounds of the first of them, and the
bits that the lead byte itself gives. -/
structure Lead where
  tails : Nat
  low : Nat
  high : Nat
  bits : Nat

/-- What a byte promises as a lead byte, if it is one. -/
def lead? (b : Nat) : Option Lead :=
  if b < 0x80 then some ⟨0, 0x80, 0xBF, b⟩
  else if b < 0xC2 then none
  else if b < 0xE0 then some ⟨1, 0x80, 0xBF, b - 0xC0⟩
  else if b < 0xF0 then
    some ⟨2, if b = 0xE0 then 0xA0 else 0x80, if b = 0xED then 0x9F else 0xBF, b - 0xE0⟩
  else if b < 0xF5 then
    some ⟨3, if b = 0xF0 then 0x90 else 0x80, if b = 0xF4 then 0x8F else 0xBF, b - 0xF0⟩
  else none

/-- The tail bytes at the start of some bytes: at most `count`, the first within its own bounds. -/
def tailBytes (count low high : Nat) : Bytes → List Nat
  | [] => []
  | b :: bs =>
    match count with
    | 0 => []
    | count + 1 =>
      if low ≤ b.toNat && b.toNat ≤ high then b.toNat :: tailBytes count 0x80 0xBF bs else []

/-- Why bytes are no text. -/
inductive Reason where
  | startByte
  | continuationByte
  | endOfData
  deriving DecidableEq, Repr

/-- Why bytes are no text, and the bytes that are none: `count` of them from a position on, and the
first of them. -/
structure Fault where
  reason : Reason
  position : Nat
  count : Nat
  first : Nat
  deriving DecidableEq, Repr

/-- The wording of a reason. -/
def Reason.message : Reason → String
  | startByte => "invalid start byte"
  | continuationByte => "invalid continuation byte"
  | endOfData => "unexpected end of data"

/-- Why bytes are no text, in words. -/
def Fault.message (f : Fault) : String :=
  let bytes :=
    if f.count = 1 then
      "byte 0x" ++ String.ofList (hexText 2 f.first) ++ " in position " ++ toString f.position
    else
      "bytes in position " ++ toString f.position ++ "-" ++ toString (f.position + f.count - 1)
  "'utf-8' codec can't decode " ++ bytes ++ ": " ++ f.reason.message

/-- The text of bytes that stand at a position. -/
def decodeFrom (position : Nat) (bytes : Bytes) : Except Fault Text :=
  match bytes with
  | [] => .ok []
  | b :: bs =>
    match lead? b.toNat with
    | none => .error ⟨.startByte, position, 1, b.toNat⟩
    | some lead =>
      let tails := tailBytes lead.tails lead.low lead.high bs
      if tails.length = lead.tails then do
        let code := tails.foldl (fun n t => n * 0x40 + t % 0x40) lead.bits
        let text ← decodeFrom (position + 1 + lead.tails) (bs.drop lead.tails)
        return Char.ofNat code :: text
      else
        let reason := if tails.length = bs.length then .endOfData else .continuationByte
        .error ⟨reason, position, 1 + tails.length, b.toNat⟩
termination_by bytes.length
decreasing_by simp only [List.length_cons, List.length_drop]; omega

/-- The text of some bytes. -/
def decode (bytes : Bytes) : Except Fault Text :=
  decodeFrom 0 bytes

/-- The bytes of a text. -/
def encode (t : Text) : Bytes :=
  (String.ofList t).toUTF8.toList

end YamlIndent.Utf8
