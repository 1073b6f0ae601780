import YamlIndent.Command.Run
import YamlIndent.Proofs.Blanks
import YamlIndent.Proofs.Endings

/-!
# Reports on texts

What a report says of a text depends on what the text is formatted to in the format that is asked
for, and that depends neither on the name of the file nor on the line endings.

## Main definitions

* `formatAs`: a text in a style, in a format that may be asked for.

## Main results

* `map_text_format`: the name of a file does not matter for what its text is formatted to.
* `toOption_formatAs_rebreaks`: a text is formatted before or after its breaks are changed.
* `mem_formatAs_iff`: a formatted text has a carriage return just if the text has one.
* `reportFile_of_error`, `failed_reportFile`, `output_reportFile`, `becomes_reportFile`: the report
  of a file whose text is refused, and of one whose text is formatted.
-/

namespace YamlIndent

variable {style : Style} {asked : Option Text} {source out : Text}

/-- A text in a style, in the format that is asked for or detected. -/
def formatAs (style : Style) (asked : Option Text) (source : Text) : Except FormatError Text :=
  (format style source none asked).map Formatted.text

/-- Whether there is the format that is asked for, if one is. -/
def isFormat : Option Text → Bool
  | none | some [] => true
  | some name => (formats.lookup name).isSome

/-- A format that there is not is refused. Which one there is does not matter. -/
theorem format_eq (style : Style) (source : Text) (filename asked : Option Text) :
    format style source filename asked =
      if isFormat asked then formatSource style source
      else .error (.unknownFormat (asked.getD [])) := by
  match asked with
  | none | some [] => rfl
  | some (c :: name) =>
    unfold format chooseFormat isFormat
    cases h : formats.lookup (c :: name) <;> simp [h]

/-- The name of a file does not matter for what its text is formatted to. -/
theorem map_text_format (style : Style) (source : Text) (filename asked : Option Text) :
    (format style source filename asked).map Formatted.text = formatAs style asked source := by
  rw [formatAs, format_eq, format_eq style source none]

theorem formatAs_eq (style : Style) (asked : Option Text) (source : Text) :
    formatAs style asked source =
      if isFormat asked then formatText style source
      else .error (.unknownFormat (asked.getD [])) := by
  rw [formatAs, format_eq, formatText, format_of_not_asked]
  split <;> rfl

/-- A text is formatted before or after its breaks are changed. -/
theorem toOption_formatAs_rebreaks {f : Text → Text} (h : Rebreaks f) (style : Style)
    (asked : Option Text) (source : Text) :
    (formatAs style asked (f source)).toOption = (formatAs style asked source).toOption.map f := by
  rw [formatAs_eq, formatAs_eq]
  split
  · exact h.toOption_formatText style source
  · rfl

theorem mem_ink_iff {c : Char} (hc : isBlank c = false) (t : Text) : c ∈ ink t ↔ c ∈ t := by
  rw [ink, List.mem_filter, hc]
  exact and_iff_left rfl

/-- A formatted text has a carriage return just if the text has one. -/
theorem mem_formatAs_iff (h : formatAs style asked source = .ok out) :
    '\r' ∈ out ↔ '\r' ∈ source := by
  rw [formatAs_eq] at h
  split at h
  · obtain ⟨ds, hds, rfl⟩ := exists_consists_of_formatText h
    rw [← mem_ink_iff rfl, ink_layoutAll style ds hds.laid, hds.written_eq, mem_ink_iff rfl]
  · cases h

/-! ### Reports -/

section

variable {o : Options} {fault : FormatError} (name : Text)

theorem exists_format_eq_ok (filename : Option Text) (h : formatAs style asked source = .ok out) :
    ∃ r, format style source filename asked = .ok r ∧ r.text = out := by
  rw [← map_text_format style source filename] at h
  cases hr : format style source filename asked with
  | error => rw [hr] at h; cases h
  | ok r => exact ⟨r, rfl, by rw [hr] at h; exact Except.ok.inj h⟩

theorem format_eq_error (filename : Option Text) (h : formatAs style asked source = .error fault) :
    format style source filename asked = .error fault := by
  rw [← map_text_format style source filename] at h
  cases hr : format style source filename asked with
  | error e => rw [hr] at h; rw [Except.error.inj h]
  | ok r => rw [hr] at h; cases h

/-- A text that is refused fails its report, which changes nothing. -/
theorem reportFile_of_error (h : formatAs style o.format.get? source = .error fault) :
    reportFile o style name source =
      { errors := faultLine name fault.message, failed := true } := by
  rw [reportFile, format_eq_error _ h]

theorem reportInput_of_error (h : formatAs style o.format.get? source = .error fault) :
    reportInput o style source =
      { errors := faultLine inputName fault.message, failed := true } := by
  rw [reportInput, format_eq_error _ h]

/-- A text that is formatted fails its report just if it is only checked and would change. -/
theorem failed_reportFile (h : formatAs style o.format.get? source = .ok out) :
    (reportFile o style name source).failed = (o.check && out != source) := by
  obtain ⟨r, hr, rfl⟩ := exists_format_eq_ok (some name) h
  rw [reportFile, hr]
  cases o.check <;> cases o.inPlace <;> by_cases hc : r.text = source <;> simp [hc]

/-- What is printed of a text that is formatted. -/
theorem output_reportFile (h : formatAs style o.format.get? source = .ok out) :
    (reportFile o style name source).output =
      if o.check then if out = source then [] else changeLine name
      else if o.inPlace then [] else out := by
  obtain ⟨r, hr, rfl⟩ := exists_format_eq_ok (some name) h
  rw [reportFile, hr]
  cases o.check <;> cases o.inPlace <;> by_cases hc : r.text = source <;> simp [hc]

/-- A file becomes its formatted text if it is to be rewritten and this is another text. -/
theorem becomes_reportFile (h : formatAs style o.format.get? source = .ok out) :
    (reportFile o style name source).becomes =
      if !o.check && o.inPlace && out != source then some out else none := by
  obtain ⟨r, hr, rfl⟩ := exists_format_eq_ok (some name) h
  rw [reportFile, hr]
  cases o.check <;> cases o.inPlace <;> by_cases hc : r.text = source <;> simp [hc]

end

end YamlIndent
