import YamlIndent.Format.Detection
import YamlIndent.Text.Lower

/-!
# Formats by name, extension and content

A registry holds formats in the order in which their names were first registered. A format is looked
up by its name or by an extension, both in lower case, and recognised by the extension of a file, or
else by its content.

## Main definitions

* `Format`: a name, extensions, a way to recognise content, and what is registered with them.
* `Registry.register`, `Registry.lookup`, `Registry.detect`: the operations.
* `yamlFormat`: the format of this library.
-/

namespace YamlIndent

/-- A format, and what is registered with it. -/
structure Format (α : Type) where
  name : Text
  extensions : List Text
  recognises : Text → Bool
  payload : α

/-- The format of this library. -/
def yamlFormat {α : Type} (payload : α) : Format α where
  name := "yaml".toList
  extensions := [".yaml".toList, ".yml".toList]
  recognises := looksLikeYaml
  payload := payload

/-- Formats in the order in which their names were first registered, no two with one name. -/
abbrev Registry (α : Type) := List (Format α)

variable {α : Type}

namespace Registry

/-- The registry with a format, in the place of the format of the same name if there is one. -/
def register (f : Format α) : Registry α → Registry α
  | [] => [f]
  | g :: gs => if g.name == f.name then f :: gs else g :: register f gs

/-- An extension, with a dot in front of it if it has none. -/
def withDot (t : Text) : Text :=
  if t.head? == some '.' then t else '.' :: t

/-- The format with a name, else the first with an extension, letter case left out of account. -/
def lookup (key : Text) (r : Registry α) : Option (Format α) :=
  let key := lower key
  match r.find? (·.name == key) with
  | some f => some f
  | none => r.find? (·.extensions.contains (withDot key))

/-- What follows the last dot of a file name, with the dot; none without a dot. -/
def extension? (filename : Text) : Option Text :=
  if filename.contains '.' then some ('.' :: (filename.reverse.takeWhile (· != '.')).reverse)
  else none

/-- The format of a file's extension, else the first that recognises the content. -/
def detect (content : Text) (filename : Option Text) (r : Registry α) : Option (Format α) :=
  match (filename.bind extension?).bind fun key => r.lookup key with
  | some f => some f
  | none => r.find? (·.recognises content)

end Registry

end YamlIndent
