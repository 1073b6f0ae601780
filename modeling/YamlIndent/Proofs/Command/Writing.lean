import YamlIndent.Command.Run
import YamlIndent.Results

/-!
# Writing files

Where a name leads depends only on what is a file and what is a directory. So where files are
written and stay files, each name leads where it led before.

## Main definitions

* `Files.Alike`: files and directories at the same places.

## Main results

* `Files.Alike.locate_eq`: among such files a name leads to the same place.
* `Files.exists_of_read`: what is read is the file at the place that a name leads to.
-/

namespace YamlIndent

open Utf8 (Bytes)

/-- Whether an entry is a file. -/
def Entry.isFile : Entry → Bool
  | file _ => true
  | directory => false

namespace Files

variable {fs fs' : Files} {place : Location} {name : Text} {bytes : Bytes}

/-- There are files and directories at the same places. -/
def Alike (fs fs' : Files) : Prop :=
  ∀ place, (fs.at? place).map Entry.isFile = (fs'.at? place).map Entry.isFile

/-- A part of a name leads to the same place among files that are alike. -/
theorem Alike.enter_eq (h : fs.Alike fs') (place : Location) (part : String) :
    fs.enter place part = fs'.enter place part := by
  have hp := h place
  unfold enter
  rcases hf : fs.at? place with _ | (_ | _) <;> rcases hf' : fs'.at? place with _ | (_ | _) <;>
    rw [hf, hf'] at hp <;> first | rfl | cases hp

theorem Alike.follow_eq (h : fs.Alike fs') (parts : List String) (place : Location) :
    fs.follow place parts = fs'.follow place parts := by
  induction parts generalizing place with
  | nil => rfl
  | cons part parts ih =>
    rw [follow, follow, h.enter_eq]
    cases fs'.enter place part with
    | error => rfl
    | ok next => exact ih next

/-- A name leads to the same place among files that are alike. -/
theorem Alike.locate_eq (h : fs.Alike fs') (name : Text) : fs.locate name = fs'.locate name := by
  rw [locate, locate, h.follow_eq]

/-- What is read is the file at the place that the name leads to. -/
theorem exists_of_read (h : fs.read name = .ok bytes) :
    ∃ place, fs.locate name = .ok place ∧ fs.at? place = some (.file bytes) := by
  obtain ⟨place, hplace, h⟩ := exists_of_bind_eq_ok h
  refine ⟨place, hplace, ?_⟩
  rcases hentry : fs.at? place with _ | (_ | _) <;> rw [hentry] at h <;> cases h
  rfl

theorem read_of_at? (hplace : fs.locate name = .ok place)
    (h : fs.at? place = some (.file bytes)) : fs.read name = .ok bytes := by
  rw [read, hplace, ok_bind, h]

theorem replace_of_locate (h : fs.locate name = .ok place) (bytes : Bytes) :
    fs.replace name bytes = fs.write place bytes := by
  rw [replace, h]

end Files

end YamlIndent
