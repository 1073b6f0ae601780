import YamlIndent.Settings.Basic
import YamlIndent.Text.Lower

/-!
# Layers of settings

Settings come in layers, each over the one before: what holds by default, a configuration file, the
environment, and the command line. A file with an unusable value contributes nothing; an unusable
variable leaves its setting alone.

## Main definitions

* `LayerFault`: why configuration data cannot be used.
* `Settings.applyData`: the layer of a configuration file.
* `Settings.applyEnvironment`: the layer of the environment.
-/

namespace YamlIndent

/-- Why configuration data cannot be used. -/
inductive LayerFault where
  /-- An indent size is out of bounds. -/
  | setting (fault : SettingFault)
  /-- An indent size has no integer. -/
  | integer (fault : IntegerFault)
  /-- The settings are a value of a type that has no members. -/
  | noMembers (typeName : String)
  /-- The settings are a text, which has members but no fields. -/
  | textField
  /-- The settings are an array, which has members but no fields. -/
  | arrayField

/-- What is wrong. -/
def LayerFault.message : LayerFault → String
  | setting fault => fault.message
  | integer fault => fault.message
  | noMembers typeName => "argument of type '" ++ typeName ++ "' is not iterable"
  | textField => "string indices must be integers, not 'str'"
  | arrayField => "list indices must be integers or slices, not str"

/-- Whether a text occurs in another. -/
def occursIn (part : Text) : Text → Bool
  | [] => part.isEmpty
  | c :: cs => part.isPrefixOf (c :: cs) || occursIn part cs

/-- The name of the table of settings in configuration data. -/
def sectionName : Text := "indents".toList

/-- The name of the indent size in that table. -/
def sizeName : Text := "indent_size".toList

/-- The name of the setting for the spacing behind a `-` in that table. -/
def spacingName : Text := "normalize_marker_spacing".toList

/-- The value of a setting, if the data has one. Only a table has fields, but a text and an array
are asked for members all the same. -/
def settingOf (name : Text) : Value → Except LayerFault (Option Value)
  | .table fields => .ok (Value.field? name fields)
  | .string t => if occursIn name t then .error .textField else .ok none
  | .array items => if items.any (Value.isText name) then .error .arrayField else .ok none
  | v => .error (.noMembers v.typeName)

/-- Variables of an environment. -/
abbrev Environment := List (String × String)

/-- The value of a variable. -/
def Environment.get? (env : Environment) (name : String) : Option String :=
  (env.find? (·.1 == name)).map (·.2)

namespace Settings

/-- The settings under what configuration data says. -/
def applyData (data : List (Text × Value)) (s : Settings) : Except LayerFault Settings :=
  match Value.field? sectionName data with
  | none => .ok s
  | some given => do
    let size ← settingOf sizeName given
    let size ← size.mapM fun v => v.toInteger.mapError .integer
    let spacing ← settingOf spacingName given
    let s := match spacing with
      | some v => s.withSpacing (.bool v.truthy)
      | none => s
    match size with
    | some n => (s.withSize n).mapError .setting
    | none => .ok s

/-- The settings under a variable for the indent size, which counts only if it is usable. -/
def applySize (given : Option String) (s : Settings) : Settings :=
  match given.map fun v => readInteger v.toList with
  | some (.ok n) => (s.withSize n).toOption.getD s
  | some (.error _) | none => s

/-- The words that switch a setting on. -/
def onWords : List Text := ["true".toList, "1".toList, "yes".toList]

/-- The settings under a variable for the spacing; any word but those for on switches it off. -/
def applySpacing (given : Option String) (s : Settings) : Settings :=
  match given with
  | some v => s.withSpacing (.bool (onWords.contains (lower v.toList)))
  | none => s

/-- The settings under the variables of an environment. -/
def applyEnvironment (env : Environment) (s : Settings) : Settings :=
  (s.applySize (env.get? "YINDENT_INDENT_SIZE")).applySpacing
    (env.get? "YINDENT_NORMALIZE_MARKER_SPACING")

end Settings

end YamlIndent
