import YamlIndent.Settings.Layer

/-!
# Where the configuration file is

The file is `yindent/config.toml` in the directory that the environment names for configuration,
else in `.config` in the home directory. Paths lose their empty parts and their `.` parts; a path
that begins with exactly two slashes keeps both.

## Main definitions

* `Path`: a path by its root and its parts, with `Path.ofString` and `Path.toString`.
* `configPath`: the path of the configuration file.
-/

namespace YamlIndent

/-- A path: its root (no slash, one slash, or exactly two) and its parts. -/
structure Path where
  root : String
  parts : List String
  deriving DecidableEq, Repr

/-- The pieces of a text between slashes; `piece` is read already, last character first. -/
def cutAtSlashes (piece : Text) : Text → List Text
  | [] => [piece.reverse]
  | c :: cs =>
    if c == '/' then piece.reverse :: cutAtSlashes [] cs else cutAtSlashes (c :: piece) cs

namespace Path

/-- The path that a text writes. -/
def ofString (s : String) : Path where
  root :=
    match (s.toList.takeWhile (· == '/')).length with
    | 0 => ""
    | 2 => "//"
    | _ => "/"
  parts := ((cutAtSlashes [] s.toList).map String.ofList).filter fun p => p != "" && p != "."

/-- The path to something in a directory. -/
def join (p : Path) (parts : List String) : Path :=
  { p with parts := p.parts ++ parts }

/-- The text of a path. -/
protected def toString (p : Path) : String :=
  match p.root, p.parts with
  | "", [] => "."
  | root, parts => root ++ "/".intercalate parts

end Path

/-- The home directory of an environment; `account` is the one that the system knows of. -/
def homeDirectory (account : String) (env : Environment) : Path :=
  let home := (env.get? "HOME").getD account
  let trimmed := (home.toList.reverse.dropWhile (· == '/')).reverse
  .ofString (if trimmed.isEmpty then "/" else String.ofList trimmed)

/-- The path of the configuration file. -/
def configPath (account : String) (env : Environment) : Path :=
  match env.get? "XDG_CONFIG_HOME" with
  | some directory =>
    if directory.isEmpty then fallback
    else (Path.ofString directory).join ["yindent", "config.toml"]
  | none => fallback
where
  fallback := (homeDirectory account env).join [".config", "yindent", "config.toml"]

end YamlIndent
