import YamlIndent.Bytes.Utf8
import YamlIndent.Settings.Path

/-!
# Files

A name leads to a place, step by step through directories. Places are counted from the directory
that the command runs in, or from the root. A place above another is a directory, and what stands
outside the files at hand is not known.

## Main definitions

* `ReadFault`: why a file cannot be read, with its wording.
* `Files`: the files at hand, with `Files.locate`, `Files.read` and `Files.write`.

## Main results

* `Files.at?_write_self`, `Files.at?_write_of_ne`: writing changes one file and no other.
-/

namespace YamlIndent

/-- Why a file cannot be read. -/
inductive ReadFault where
  | notFound
  /-- The system refuses, for a reason that has a number. -/
  | refused (number : Nat) (reason : String)
  /-- The file is not in UTF-8. -/
  | notText (fault : Utf8.Fault)
  deriving DecidableEq, Repr

namespace ReadFault

/-- The name leads to a directory. -/
def isDirectory : ReadFault := refused 21 "Is a directory"

/-- The name leads through a file as if it were a directory. -/
def notDirectory : ReadFault := refused 20 "Not a directory"

/-- The name, or a part of it, is too long. -/
def tooLong : ReadFault := refused 36 "File name too long"

/-- Why the file of a name cannot be read, in words. -/
def message (name : Text) : ReadFault → String
  | notFound => "[Errno 2] No such file or directory: " ++ String.ofList (quoted name)
  | refused number reason =>
    "[Errno " ++ toString number ++ "] " ++ reason ++ ": " ++ String.ofList (quoted name)
  | notText fault => fault.message

end ReadFault

/-- A place among files, by the parts of the names that lead to it; the root is the part `/`. -/
abbrev Location := List String

/-- What stands at a place. -/
inductive Entry where
  | file (bytes : Utf8.Bytes)
  | directory
  deriving DecidableEq, Repr

/-- The files and directories at hand. -/
structure Files where
  entries : List (Location × Entry)
  deriving DecidableEq, Repr

namespace Files

/-- The directory that the command runs in, those above it, and the root. -/
def isOutside (place : Location) : Bool :=
  place.all (· == "..") || place == ["/"]

/-- What stands at a place. -/
def at? (fs : Files) (place : Location) : Option Entry :=
  match fs.entries.find? (·.1 == place) with
  | some (_, entry) => some entry
  | none =>
    if isOutside place || fs.entries.any (fun (other, _) => place.isPrefixOf other) then
      some .directory
    else none

/-- The place above a directory. -/
def above (place : Location) : Location :=
  if place == ["/"] then place
  else if place.all (· == "..") then place ++ [".."]
  else place.dropLast

/-- The place that a part of a name leads to from another. -/
def enter (fs : Files) (place : Location) (part : String) : Except ReadFault Location :=
  match fs.at? place with
  | none => .error .notFound
  | some (.file _) => .error .notDirectory
  | some .directory =>
    if 255 < part.utf8ByteSize then .error .tooLong
    else if part == "" || part == "." then .ok place
    else if part == ".." then .ok (above place)
    else .ok (place ++ [part])

/-- The place that some parts of a name lead to from another. -/
def follow (fs : Files) (place : Location) : List String → Except ReadFault Location
  | [] => .ok place
  | part :: parts => do fs.follow (← fs.enter place part) parts

/-- The place that a name leads to. -/
def locate (fs : Files) (name : Text) : Except ReadFault Location :=
  if 4096 ≤ (String.ofList name).utf8ByteSize then .error .tooLong
  else
    fs.follow (if name.head? == some '/' then ["/"] else [])
      ((cutAtSlashes [] name).map String.ofList)

/-- The bytes of the file that a name leads to. -/
def read (fs : Files) (name : Text) : Except ReadFault Utf8.Bytes := do
  match fs.at? (← fs.locate name) with
  | some (.file bytes) => .ok bytes
  | some .directory => .error .isDirectory
  | none => .error .notFound

/-- The files with other bytes in the file at a place. -/
def write (fs : Files) (place : Location) (bytes : Utf8.Bytes) : Files :=
  ⟨fs.entries.map fun (other, entry) => (other, if other == place then .file bytes else entry)⟩

/-- The files with other bytes in the file that a name leads to. -/
def replace (fs : Files) (name : Text) (bytes : Utf8.Bytes) : Files :=
  match fs.locate name with
  | .ok place => fs.write place bytes
  | .error _ => fs

/-! ### What writing changes -/

theorem find?_map_entry (entries : List (Location × Entry)) (f : Location → Entry → Entry)
    (place : Location) :
    (entries.map fun e => (e.1, f e.1 e.2)).find? (·.1 == place) =
      (entries.find? (·.1 == place)).map fun e => (e.1, f e.1 e.2) := by
  induction entries with
  | nil => rfl
  | cons e es ih =>
    by_cases h : e.1 == place <;> simp [h, ih]

theorem any_map_entry (entries : List (Location × Entry)) (f : Location → Entry → Entry)
    (p : Location → Bool) :
    (entries.map fun e => (e.1, f e.1 e.2)).any (fun e => p e.1) = entries.any fun e => p e.1 := by
  simp [List.any_map, Function.comp_def]

/-- Writing a file changes what stands at no other place. -/
theorem at?_write_of_ne (fs : Files) {place other : Location} (bytes : Utf8.Bytes)
    (h : other ≠ place) : (fs.write place bytes).at? other = fs.at? other := by
  have hf := find?_map_entry fs.entries
    (fun l entry => if l == place then .file bytes else entry) other
  have ha := any_map_entry fs.entries
    (fun l entry => if l == place then .file bytes else entry) (other.isPrefixOf ·)
  unfold at? write
  simp only [hf, ha]
  cases he : fs.entries.find? (·.1 == other) with
  | none => rfl
  | some e =>
    have : e.1 = other := by simpa using List.find?_some he
    simp [this, h]

/-- Where a file stood, there stand the bytes that were written. -/
theorem at?_write_self (fs : Files) {place : Location} {old : Utf8.Bytes} (bytes : Utf8.Bytes)
    (h : fs.at? place = some (.file old)) :
    (fs.write place bytes).at? place = some (.file bytes) := by
  have hf := find?_map_entry fs.entries
    (fun l entry => if l == place then .file bytes else entry) place
  unfold at? at h
  unfold at? write
  simp only [hf]
  cases he : fs.entries.find? (·.1 == place) with
  | none => rw [he] at h; simp at h
  | some e =>
    have : e.1 = place := by simpa using List.find?_some he
    simp [this]

end Files

end YamlIndent
