import YamlIndent.Decimal.Shortest
import YamlIndent.Text.Quoted

/-!
# Values of configuration data

Configuration data holds values of any type, whether a setting can use them or not.

## Main definitions

* `Value`: the values.
* `Value.truthy`: whether a value counts as true.
* `Value.typeName`: the type of a value, as it is named in messages.
* `Value.shown`: a value as it is shown in messages.
-/

namespace YamlIndent

/-- The types of dates and times. -/
inductive Moment where
  | dateTime
  | date
  | time
  deriving DecidableEq, Repr

/-- A value of configuration data. -/
inductive Value where
  | null
  | bool (b : Bool)
  | int (n : Int)
  | float (x : Double)
  | string (t : Text)
  | array (items : List Value)
  | table (fields : List (Text × Value))
  | moment (m : Moment)
  deriving Inhabited

namespace Value

/-- Nothing, zero and all that is empty count as false. -/
def truthy : Value → Bool
  | null => false
  | bool b => b
  | int n => n != 0
  | float x => !x.isZero
  | string t => !t.isEmpty
  | array items => !items.isEmpty
  | table fields => !fields.isEmpty
  | moment _ => true

/-- The type of a value, as it is named in messages. -/
def typeName : Value → String
  | null => "NoneType"
  | bool _ => "bool"
  | int _ => "int"
  | float _ => "float"
  | string _ => "str"
  | array _ => "list"
  | table _ => "dict"
  | moment .dateTime => "datetime.datetime"
  | moment .date => "datetime.date"
  | moment .time => "datetime.time"

/-- Texts with commas between them. -/
def commaSeparated (ts : List Text) : Text :=
  [',', ' '].intercalate ts

mutual

/-- A value as it is shown in messages. -/
def shown : Value → Text
  | null => ['N', 'o', 'n', 'e']
  | bool true => ['T', 'r', 'u', 'e']
  | bool false => ['F', 'a', 'l', 's', 'e']
  | int n => (toString n).toList
  | float x => x.text
  | string t => quoted t
  | array items => '[' :: commaSeparated (shownAll items) ++ [']']
  | table fields => '\x7b' :: commaSeparated (shownFields fields) ++ ['\x7d']
  | moment m => (typeName (moment m)).toList

/-- The values of an array as they are shown. -/
def shownAll : List Value → List Text
  | [] => []
  | v :: vs => v.shown :: shownAll vs

/-- The fields of a table as they are shown. -/
def shownFields : List (Text × Value) → List Text
  | [] => []
  | (key, v) :: fields => (quoted key ++ ':' :: ' ' :: v.shown) :: shownFields fields

end

/-- Whether the value is a given text. -/
def isText (t : Text) : Value → Bool
  | string s => s == t
  | _ => false

/-- The field of a table with a key. -/
def field? (key : Text) (fields : List (Text × Value)) : Option Value :=
  (fields.find? (·.1 == key)).map (·.2)

end Value

end YamlIndent
