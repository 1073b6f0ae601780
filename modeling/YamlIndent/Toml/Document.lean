import YamlIndent.Text.LineEnd
import YamlIndent.Toml.Value

/-!
# TOML documents

A document is read statement by statement: pairs go into the table of the last header. Tables that a
header has opened, or that dotted keys have made under an earlier header, are not opened again, and
inline tables and arrays take no more fields.

## Main definitions

* `Toml.Draft`: what the statements so far have made.
* `Toml.readStatement`: one statement.
* `Toml.readDocument`: the fields of a document.
-/

namespace YamlIndent.Toml

/-- What the statements of a document have made so far. -/
structure Draft where
  fields : Fields := []
  /-- The key of the last header. -/
  header : Key := []
  /-- Keys of tables that no header opens any more. -/
  opened : List Key := []
  /-- Keys that join them at the next header. -/
  pending : List Key := []
  /-- Keys of inline tables and arrays. -/
  closed : List Key := []

namespace Draft

/-- The draft with a pair in the table of its header; `rest` follows the pair. -/
def addPair (d : Draft) (key : Key) (v : Value) (rest : Text) : Except Rejection Draft := do
  let name := key.getLastD []
  let parent := d.header ++ key.dropLast
  let made := (List.range (key.length - 1)).map fun i => d.header ++ key.take (i + 1)
  match made.find? d.opened.contains with
  | some k => throw ⟨.redefines k, rest⟩
  | none =>
    if leadsInto d.closed parent then throw ⟨.immutable parent, rest⟩
    let fields ← locate rest <| alterNest true (addField .overwrites name v) parent d.fields
    return { d with
      fields
      pending := made ++ d.pending
      closed := if isContainer v then (d.header ++ key) :: d.closed else d.closed }

/-- The draft at the start of a header. -/
def closePending (d : Draft) : Draft :=
  { d with opened := d.pending ++ d.opened, pending := [] }

/-- The draft with a table opened; `rest` follows the key. -/
def openTable (d : Draft) (key : Key) (rest : Text) : Except Rejection Draft := do
  if d.opened.contains key || leadsInto d.closed key then throw ⟨.declaredTwice key, rest⟩
  let fields ← locate rest <| alterNest true .ok key d.fields
  return { d with fields, header := key, opened := key :: d.opened }

/-- One more table in the array with a name. -/
def appendTable (name : Text) (fields : Fields) : Except Fault Fields :=
  match Value.field? name fields with
  | none => .ok (fields ++ [(name, .array [.table []])])
  | some (.array items) => .ok (setField name (.array (items ++ [.table []])) fields)
  | some _ => .error .overwrites

/-- The draft with one more table in an array of tables; `rest` follows the key. -/
def openItem (d : Draft) (key : Key) (rest : Text) : Except Rejection Draft := do
  if leadsInto d.closed key then throw ⟨.immutable key, rest⟩
  let fields ← locate rest <|
    alterNest true (appendTable (key.getLastD [])) key.dropLast d.fields
  let outside (k : Key) := !key.isPrefixOf k
  return { d with
    fields
    header := key
    opened := key :: d.opened.filter outside
    closed := d.closed.filter outside }

end Draft

/-- A header up to its closing brackets. -/
def readHeader (d : Draft) (t : Text) : Except Rejection (Draft × Text) := do
  match t with
  | '[' :: cs => do
    let (key, rest) ← readKey (skipBlanks cs)
    let d ← d.openItem key rest
    if startsWith "]]" rest then return (d, rest.drop 2)
    else throw ⟨.openArrayHeader, rest⟩
  | _ => do
    let (key, rest) ← readKey (skipBlanks t)
    let d ← d.openTable key rest
    if startsWith "]" rest then return (d, rest.drop 1)
    else throw ⟨.openTableHeader, rest⟩

/-- One statement, and what follows it, up to the end of its line. -/
def readStatement (d : Draft) (t : Text) : Except Rejection (Draft × Text) := do
  let (d, rest) ← (match t with
    | [] => return (d, t)
    | c :: cs => do
      if startsKey c then
        let (key, v, rest) ← readPair (stepsFor t) t
        let d ← d.addPair key v rest
        return (d, skipBlanks rest)
      else if c == '[' then
        let (d, rest) ← readHeader d.closePending cs
        return (d, skipBlanks rest)
      else if c == '#' || c == '\n' then return (d, t)
      else throw ⟨.invalidStatement, t⟩)
  let rest ← skipComment rest
  match rest with
  | [] | '\n' :: _ => return (d, rest)
  | rest => throw ⟨.expectedLineEnd, rest⟩

/-- The statements of a text, of which there are no more than `fuel`. -/
def readStatements : Nat → Draft → Text → Except Rejection Draft
  | 0, d, _ => return d
  | fuel + 1, d, t => do
    let (d, rest) ← readStatement d (skipBlanks t)
    match rest with
    | [] => return d
    | _ :: rest => readStatements fuel d rest

/-- The fields of a document, or what is wrong with it. -/
def readDocument (source : Text) : Except String Fields :=
  let text := unifyPairs source
  match readStatements (text.length + 1) {} text with
  | .ok d => .ok d.fields
  | .error r => .error (r.message text)

end YamlIndent.Toml
