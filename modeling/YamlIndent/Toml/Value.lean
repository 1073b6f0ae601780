import YamlIndent.Toml.Number
import YamlIndent.Toml.Text

/-!
# Values and tables of TOML

## Main definitions

* `Toml.alterNest`: a change to the table behind a key.
* `Toml.readValue`: the value that a text begins with.
* `Toml.readPair`: a key, an equals sign and a value.
-/

namespace YamlIndent.Toml

/-- The fields of a table. -/
abbrev Fields := List (Text × Value)

/-- The fields with another value for a key that they have. -/
def setField (name : Text) (v : Value) (fields : Fields) : Fields :=
  fields.map fun f => if f.1 == name then (name, v) else f

/-- Changes the table behind a key, with the tables on the way made if there are none. Where the way
leads to an array of tables, it goes on in the last of them, if `throughArrays` allows. -/
def alterNest (throughArrays : Bool) (change : Fields → Except Fault Fields) :
    Key → Fields → Except Fault Fields
  | [], fields => change fields
  | name :: names, fields =>
    match Value.field? name fields with
    | none => do
      let inner ← alterNest throughArrays change names []
      return fields ++ [(name, .table inner)]
    | some (.table inner) => do
      let inner ← alterNest throughArrays change names inner
      return setField name (.table inner) fields
    | some (.array items) =>
      match throughArrays, items.getLast? with
      | true, some (.table inner) => do
        let inner ← alterNest throughArrays change names inner
        return setField name (.array (items.dropLast ++ [.table inner])) fields
      | _, _ => .error .overwrites
    | some _ => .error .overwrites

/-- A new field, unless the name is taken. -/
def addField (taken : Fault) (name : Text) (v : Value) (fields : Fields) : Except Fault Fields :=
  match Value.field? name fields with
  | none => .ok (fields ++ [(name, v)])
  | some _ => .error taken

/-- A fault at a place of the document. -/
def locate {α : Type} (rest : Text) (r : Except Fault α) : Except Rejection α :=
  r.mapError (⟨·, rest⟩)

/-- Values that keep the tables in them closed. -/
def isContainer : Value → Bool
  | .array _ | .table _ => true
  | _ => false

/-- Whether a key leads into one of some closed places. -/
def leadsInto (places : List Key) (key : Key) : Bool :=
  places.any (·.isPrefixOf key)

/-- Whether a text begins with a mark. -/
def startsWith (mark : String) (t : Text) : Bool :=
  mark.toList.isPrefixOf t

/-- The scalar that a text begins with. -/
def readScalar (t : Text) : Except Rejection (Value × Text) :=
  match readString? t with
  | some r => r.map fun (s, rest) => (.string s, rest)
  | none =>
    if startsWith "true" t then .ok (.bool true, t.drop 4)
    else if startsWith "false" t then .ok (.bool false, t.drop 5)
    else
      match readDateTime? t with
      | some r => r
      | none =>
        match readTime? t with
        | some r => .ok r
        | none =>
          match readNumber? t with
          | some r => r
          | none =>
            match readSpecial? t with
            | some r => .ok r
            | none => .error ⟨.invalidValue, t⟩

mutual

/-- The value that a text begins with. No value takes more than `fuel` steps. -/
def readValue : Nat → Text → Except Rejection (Value × Text)
  | 0, t => .error ⟨.invalidValue, t⟩
  | fuel + 1, t =>
    match t with
    | '[' :: cs => do
      let rest ← skipLines cs
      let (items, rest) ← readItems fuel rest
      return (.array items, rest)
    | '\x7b' :: cs =>
      match skipBlanks cs with
      | '\x7d' :: rest => return (.table [], rest)
      | rest => do
        let (fields, rest) ← readFields fuel [] [] rest
        return (.table fields, rest)
    | _ => readScalar t

/-- The values of an array up to its closing bracket. -/
def readItems : Nat → Text → Except Rejection (List Value × Text)
  | 0, t => .error ⟨.invalidValue, t⟩
  | fuel + 1, t =>
    match t with
    | ']' :: rest => return ([], rest)
    | _ => do
      let (v, rest) ← readValue fuel t
      match ← skipLines rest with
      | ']' :: rest => return ([v], rest)
      | ',' :: cs => do
        let rest ← skipLines cs
        let (vs, rest) ← readItems fuel rest
        return (v :: vs, rest)
      | rest => throw ⟨.openArray, rest⟩

/-- The fields of an inline table up to its closing brace, behind some that it has already; the keys
in `closed` lead to values that take no more fields. -/
def readFields : Nat → Fields → List Key → Text → Except Rejection (Fields × Text)
  | 0, _, _, t => .error ⟨.invalidValue, t⟩
  | fuel + 1, fields, closed, t => do
    let (key, v, rest) ← readPair fuel t
    let name := key.getLastD []
    if leadsInto closed key then throw ⟨.immutable key, rest⟩
    let fields ← locate rest <|
      alterNest false (addField (.duplicateKey name) name v) key.dropLast fields
    match skipBlanks rest with
    | '\x7d' :: rest => return (fields, rest)
    | ',' :: cs =>
      readFields fuel fields (if isContainer v then key :: closed else closed) (skipBlanks cs)
    | rest => throw ⟨.openInlineTable, rest⟩

/-- A key, an equals sign and a value. -/
def readPair : Nat → Text → Except Rejection (Key × Value × Text)
  | 0, t => .error ⟨.invalidValue, t⟩
  | fuel + 1, t => do
    let (key, rest) ← readKey t
    match rest with
    | '=' :: cs => do
      let (v, rest) ← readValue fuel (skipBlanks cs)
      return (key, v, rest)
    | rest => throw ⟨.expectedEquals, rest⟩

end

/-- More steps than any value in a text takes. -/
def stepsFor (t : Text) : Nat :=
  4 * t.length + 4

end YamlIndent.Toml
