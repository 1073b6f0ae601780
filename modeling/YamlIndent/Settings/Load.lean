import YamlIndent.Bytes.Utf8
import YamlIndent.Settings.Path
import YamlIndent.Toml.Document

/-!
# Loading settings

## Main definitions

* `Loaded`: settings, and a warning if a file was ignored.
* `Settings.load`: the settings of a configuration file and an environment.
* `Cache`: settings that are loaded once until they are forgotten.
-/

namespace YamlIndent

/-- Settings, and a warning if a configuration file was ignored. -/
structure Loaded where
  settings : Settings
  warning : Option String

/-- The settings of a configuration file's bytes. A value beyond all integers is no fault of the
file: it is the inner error. -/
def settingsOfFile (bytes : Utf8.Bytes) : Except String (Except IntegerFault Settings) := do
  let text ← (Utf8.decode bytes).mapError Utf8.Fault.message
  let data ← Toml.readDocument text
  match Settings.standard.applyData data with
  | .ok s => return .ok s
  | .error (.integer .infinite) => return .error .infinite
  | .error fault => throw fault.message

namespace Settings

/-- The settings of a configuration file, which is read unless there is none, and of an environment.
`file` holds the file's bytes, or why they cannot be read. -/
def load (path : Path) (file : Option (Except String Utf8.Bytes)) (env : Environment) :
    Except IntegerFault Loaded := do
  let loaded : Loaded ← (match file with
    | none => return ⟨standard, none⟩
    | some content =>
      match content.bind settingsOfFile with
      | .ok settings => settings.map (⟨·, none⟩)
      | .error reason =>
        return ⟨standard, some ("ignoring config file " ++ path.toString ++ ": " ++ reason)⟩)
  return { loaded with settings := loaded.settings.applyEnvironment env }

end Settings

/-- Settings that are loaded once until they are forgotten. -/
structure Cache where
  loaded : Option Settings := none

namespace Cache

/-- The settings, which `load` gives if there are none yet; a warning only if they were loaded now.
-/
def get (cache : Cache) (load : Except IntegerFault Loaded) :
    Except IntegerFault (Loaded × Cache) :=
  match cache.loaded with
  | some settings => return (⟨settings, none⟩, cache)
  | none => do
    let loaded ← load
    return (loaded, ⟨some loaded.settings⟩)

end Cache

end YamlIndent
