import YamlIndent.Proofs.Bytes
import YamlIndent.Proofs.Command.Runs

/-!
# The standard input and a file with its bytes

The standard input is read with line feeds for all line endings, and a file as it is. So what is
printed of the one is what is printed of the other with line feeds for all line endings, and the two
have the same bytes just if there is no carriage return.

## Main definitions

* `Accepts`: whether a run that prints accepts a text.
* `EndsAlike`: the ends of a run on the standard input and of one on a file with the same text.

## Main results

* `unifyBreaks_eq_self_iff`: line endings are all line feeds just if there is no carriage return.
* `run_input_iff`: what a run prints of its standard input, and of a file with the same bytes.
-/

namespace YamlIndent

open Utf8 (Bytes)

/-! ### Carriage returns -/

theorem not_mem_unifyBreaks (t : Text) : '\r' ∉ unifyBreaks t := by
  fun_induction unifyBreaks t with
  | case1 cs ih => exact List.not_mem_cons_of_ne_of_not_mem (by decide) ih
  | case2 cs _ ih => exact List.not_mem_cons_of_ne_of_not_mem (by decide) ih
  | case3 c cs _ hc ih => exact List.not_mem_cons_of_ne_of_not_mem (fun he => hc he.symm) ih
  | case4 => exact List.not_mem_nil

/-- The line endings of a text are all line feeds just if it has no carriage return. -/
theorem unifyBreaks_eq_self_iff {t : Text} : unifyBreaks t = t ↔ '\r' ∉ t :=
  ⟨fun h => h ▸ not_mem_unifyBreaks t, unifyBreaks_eq_self⟩

/-! ### The two reports -/

variable {o : Options} {w : World} {style : Style} {name text out : Text} {bytes : Bytes}

theorem inputText_of_decode (h : Utf8.decode bytes = .ok text) :
    inputText bytes = .ok (unifyBreaks text) := by
  rw [inputText, h]
  rfl

/-- The standard input is formatted to what a file is formatted to, with line feeds for all line
endings. -/
theorem toOption_formatAs_unifyBreaks (style : Style) (asked : Option Text) (text : Text) :
    (formatAs style asked (unifyBreaks text)).toOption =
      (formatAs style asked text).toOption.map unifyBreaks :=
  toOption_formatAs_rebreaks rebreaks_unifyBreaks style asked text

/-- To print the standard input is to print what its text is formatted to. -/
theorem reportInput_of_ok (hcheck : o.check = false)
    (h : formatAs style o.format.get? text = .ok out) :
    (reportInput o style text).output = out ∧ (reportInput o style text).failed = false := by
  obtain ⟨r, hr, rfl⟩ := exists_format_eq_ok none h
  rw [reportInput, hr, hcheck]
  exact ⟨rfl, rfl⟩

/-- To print a file is to print what its text is formatted to. -/
theorem reportFile_of_ok (name : Text) (hcheck : o.check = false) (hinPlace : o.inPlace = false)
    (h : formatAs style o.format.get? text = .ok out) :
    (reportFile o style name text).output = out ∧ (reportFile o style name text).failed = false ∧
      (reportFile o style name text).becomes = none := by
  rw [output_reportFile name h, failed_reportFile name h, becomes_reportFile name h, hcheck,
    hinPlace]
  exact ⟨rfl, rfl, rfl⟩

/-- A run with one file name that only prints ends with the report of this file. -/
theorem runStyled_file (ho : o.files = [name]) (hnull : '\x00' ∉ name) (hname : name ≠ [])
    (hread : w.readText name = .ok text) (hb : (reportFile o style name text).becomes = none) :
    runStyled o style w = .ok ((reportFile o style name text).before ⟨false, [], [], w.files⟩) := by
  have hnone : (w.report o style name).becomes = none := by
    rw [World.report, hread]
    exact hb
  rw [runStyled_of_files (by rw [ho]; exact List.cons_ne_nil _ _), ho, runFiles_cons hnull,
    World.turn_of_none hnone, w.afterRead_of_ne_nil hname, ok_bind, runFiles_nil, World.report,
    hread]
  rfl

/-! ### The two runs -/

/-- Whether a run that prints accepts a text: its settings are loaded, its command line is not
refused, and the text is formatted to some text. -/
def Accepts (o : Options) (w : World) (text out : Text) : Prop :=
  ∃ loaded said style, w.settings = .ok loaded ∧ start o loaded = (said, some style) ∧
    formatAs style o.format.get? text = .ok out

/-- The ends of a run on the standard input and of one on a file with the same text: both fail or
none does, and what the one prints is what the other prints, with line feeds for all line endings.
The text is accepted just if they do not fail, and then is printed as it is formatted. -/
structure EndsAlike (o : Options) (w : World) (text : Text) (a b : Outcome) : Prop where
  exitCode_eq : a.exitCode = b.exitCode
  output_eq : a.output = unifyBreaks b.output
  exitCode_eq_zero_iff : b.exitCode = 0 ↔ ∃ out, Accepts o w text out
  of_accepts (out : Text) (h : Accepts o w text out) : b.output = out ∧
    (Utf8.encode a.output = Utf8.encode b.output ↔ '\r' ∉ text)

/-- Two runs that fail and print nothing end alike, if the text is not accepted. -/
theorem EndsAlike.of_not_accepts {a b : Outcome} (h : ∀ out, ¬Accepts o w text out)
    (ha : a.failed = true) (hb : b.failed = true) (houta : a.output = []) (houtb : b.output = []) :
    EndsAlike o w text a b where
  exitCode_eq := by rw [Outcome.exitCode, Outcome.exitCode, ha, hb]
  output_eq := by
    rw [houta, houtb]
    rfl
  exitCode_eq_zero_iff := by
    rw [Outcome.exitCode, hb]
    exact ⟨nofun, fun ⟨out, hout⟩ => absurd hout (h out)⟩
  of_accepts out hout := absurd hout (h out)

section Cases

variable {loaded : Loaded} {said : Text} (hload : w.settings = .ok loaded)

include hload

/-- Settings that are refused end both runs. -/
theorem exists_endsAlike_of_refused (hstart : start o loaded = (said, none)) :
    ∃ a b, run { o with files := [] } { w with input := bytes } = .ok a ∧
      run { o with files := [name] } w = .ok b ∧ EndsAlike o w text a b := by
  have hnot : ∀ out, ¬Accepts o w text out := by
    rintro out ⟨loaded', said', style', hload', hstart', -⟩
    cases hload.symm.trans hload'
    rw [hstart] at hstart'
    cases hstart'
  exact ⟨_, _, run_of_refused hload hstart, run_of_refused hload hstart,
    .of_not_accepts hnot rfl rfl rfl rfl⟩

theorem accepts_iff (hstart : start o loaded = (said, some style)) :
    Accepts o w text out ↔ formatAs style o.format.get? text = .ok out := by
  constructor
  · rintro ⟨loaded', said', style', hload', hstart', h⟩
    cases hload.symm.trans hload'
    cases hstart.symm.trans hstart'
    exact h
  · exact fun h => ⟨loaded, said, style, hload, hstart, h⟩

variable (hstart : start o loaded = (said, some style)) (hname : name ≠ []) (hnull : '\x00' ∉ name)
  (hinput : inputText bytes = .ok (unifyBreaks text)) (hfile : w.readText name = .ok text)

include hstart hname hnull hinput hfile

/-- A text that is rejected ends both runs. -/
theorem exists_endsAlike_of_rejected {fault : FormatError}
    (hformat : formatAs style o.format.get? text = .error fault) :
    ∃ a b, run { o with files := [] } { w with input := bytes } = .ok a ∧
      run { o with files := [name] } w = .ok b ∧ EndsAlike o w text a b := by
  have hunified := toOption_formatAs_unifyBreaks style o.format.get? text
  rw [hformat] at hunified
  obtain ⟨fault', hfault⟩ := exists_eq_error_of_toOption hunified
  have hreport : reportFile { o with files := [name] } style name text = _ :=
    reportFile_of_error name hformat
  have hreportInput : reportInput { o with files := [] } style (unifyBreaks text) = _ :=
    reportInput_of_error hfault
  have hrunInput : run { o with files := [] } { w with input := bytes } = _ :=
    run_of_style hload hstart
  have hrunFile : run { o with files := [name] } w = _ := run_of_style hload hstart
  rw [runStyled_of_input rfl hinput, hreportInput] at hrunInput
  rw [runStyled_file rfl hnull hname hfile (by rw [hreport]), hreport] at hrunFile
  have hnot : ∀ out, ¬Accepts o w text out := by
    intro out h
    rw [accepts_iff hload hstart, hformat] at h
    cases h
  exact ⟨_, _, hrunInput, hrunFile, .of_not_accepts hnot rfl rfl rfl rfl⟩

/-- A text that is accepted is printed by both runs. -/
theorem exists_endsAlike_of_accepted (hcheck : o.check = false) (hinPlace : o.inPlace = false)
    (hformat : formatAs style o.format.get? text = .ok out) :
    ∃ a b, run { o with files := [] } { w with input := bytes } = .ok a ∧
      run { o with files := [name] } w = .ok b ∧ EndsAlike o w text a b := by
  have hunified := toOption_formatAs_unifyBreaks style o.format.get? text
  rw [hformat] at hunified
  obtain ⟨hinputOutput, hinputFailed⟩ :=
    reportInput_of_ok (o := { o with files := [] }) hcheck (eq_ok_of_toOption hunified)
  obtain ⟨houtput, hfailed, hbecomes⟩ :=
    reportFile_of_ok (o := { o with files := [name] }) name hcheck hinPlace hformat
  have hrunInput : run { o with files := [] } { w with input := bytes } = _ :=
    run_of_style hload hstart
  have hrunFile : run { o with files := [name] } w = _ := run_of_style hload hstart
  rw [runStyled_of_input rfl hinput] at hrunInput
  rw [runStyled_file rfl hnull hname hfile hbecomes] at hrunFile
  refine ⟨_, _, hrunInput, hrunFile, ?_, ?_, ?_, fun out' h => ?_⟩
  · simp only [Outcome.exitCode, Report.before, hinputFailed, hfailed]
  · simp only [Report.before, hinputOutput, houtput, List.append_nil]
  · simp only [Outcome.exitCode, Report.before, hfailed]
    exact ⟨fun _ => ⟨out, (accepts_iff hload hstart).2 hformat⟩, fun _ => rfl⟩
  · cases hformat.symm.trans ((accepts_iff hload hstart).1 h)
    simp only [Report.before, hinputOutput, houtput, List.append_nil, true_and]
    rw [Utf8.encode_injective.eq_iff, unifyBreaks_eq_self_iff, mem_formatAs_iff hformat]

end Cases

/-- Of bytes on the standard input a run prints what it prints of a file with these bytes, with line
feeds for all line endings. Where the text is accepted, the two print the same bytes just if there
is no carriage return. -/
theorem run_input_iff (hcheck : o.check = false) (hinPlace : o.inPlace = false) (hname : name ≠ [])
    (hnull : '\x00' ∉ name) (hread : w.files.read name = .ok bytes)
    (htext : Utf8.decode bytes = .ok text) :
    (∃ fault, w.settings = .error fault ∧
      run { o with files := [] } { w with input := bytes } = .error (.settings fault) ∧
      run { o with files := [name] } w = .error (.settings fault)) ∨
    ∃ a b, run { o with files := [] } { w with input := bytes } = .ok a ∧
      run { o with files := [name] } w = .ok b ∧ a.exitCode = b.exitCode ∧
      a.output = unifyBreaks b.output ∧ (b.exitCode = 0 ↔ ∃ out, Accepts o w text out) ∧
      ∀ out, Accepts o w text out → b.output = out ∧
        (Utf8.encode a.output = Utf8.encode b.output ↔ '\r' ∉ text) := by
  cases hload : w.settings with
  | error fault => exact .inl ⟨fault, rfl, run_of_error hload, run_of_error hload⟩
  | ok loaded =>
    right
    suffices h : ∃ a b, run { o with files := [] } { w with input := bytes } = .ok a ∧
        run { o with files := [name] } w = .ok b ∧ EndsAlike o w text a b by
      obtain ⟨a, b, ha, hb, h⟩ := h
      exact ⟨a, b, ha, hb, h.exitCode_eq, h.output_eq, h.exitCode_eq_zero_iff, h.of_accepts⟩
    have hinput := inputText_of_decode htext
    have hfile : w.readText name = .ok text := by
      rw [readText_of_read hname hread, htext, mapError_ok]
    rcases hstart : start o loaded with ⟨said, _ | style⟩
    · exact exists_endsAlike_of_refused hload hstart
    · cases hformat : formatAs style o.format.get? text with
      | error => exact exists_endsAlike_of_rejected hload hstart hname hnull hinput hfile hformat
      | ok =>
        exact exists_endsAlike_of_accepted hload hstart hname hnull hinput hfile hcheck hinPlace
          hformat

/-- A file with two carriage returns is printed with them, and the standard input without. -/
theorem run_input_iff_pair : ∃ a b,
    run {} { World.ofFile "x" [97, 58, 13, 10, 32, 32, 32, 32, 98, 58, 32, 49, 13, 10] with
      input := [97, 58, 13, 10, 32, 32, 32, 32, 98, 58, 32, 49, 13, 10] } = .ok a ∧
    run { files := [['x']] }
      (World.ofFile "x" [97, 58, 13, 10, 32, 32, 32, 32, 98, 58, 32, 49, 13, 10]) = .ok b ∧
    b.output = "a:\r\n  b: 1\r\n".toList ∧ a.output = unifyBreaks b.output := by
  have hload : (World.ofFile "x" [97, 58, 13, 10, 32, 32, 32, 32, 98, 58, 32, 49, 13, 10]
      ).settings.toOption.map (fun loaded => (start {} loaded).2) = some (some .standard) := by
    decide +kernel
  obtain ⟨loaded, hloaded, hstyle⟩ := Option.map_eq_some_iff.1 hload
  have htext : Utf8.decode [97, 58, 13, 10, 32, 32, 32, 32, 98, 58, 32, 49, 13, 10] =
      .ok "a:\r\n    b: 1\r\n".toList := eq_ok_of_toOption (by decide +kernel)
  have hformat : formatAs .standard none "a:\r\n    b: 1\r\n".toList =
      .ok "a:\r\n  b: 1\r\n".toList := eq_ok_of_toOption (by decide +kernel)
  have haccepts : Accepts {}
      (World.ofFile "x" [97, 58, 13, 10, 32, 32, 32, 32, 98, 58, 32, 49, 13, 10])
      "a:\r\n    b: 1\r\n".toList "a:\r\n  b: 1\r\n".toList :=
    ⟨loaded, (start {} loaded).1, .standard, eq_ok_of_toOption hloaded, Prod.ext rfl hstyle,
      hformat⟩
  have hread : (World.ofFile "x" [97, 58, 13, 10, 32, 32, 32, 32, 98, 58, 32, 49, 13, 10]
      ).files.read ['x'] = .ok [97, 58, 13, 10, 32, 32, 32, 32, 98, 58, 32, 49, 13, 10] := rfl
  rcases run_input_iff (o := {}) rfl rfl (by decide) (by decide) hread htext with
    ⟨fault, hfault, -⟩ | ⟨a, b, ha, hb, -, houtput, -, haccepted⟩
  · rw [eq_ok_of_toOption hloaded] at hfault
    cases hfault
  · exact ⟨a, b, ha, hb, (haccepted _ haccepts).1, houtput⟩

/-- Of one line that ends on a carriage return and a line feed, a run prints a byte less if it is
the standard input. -/
theorem run_input_differs : ∃ a b,
    run {} { World.ofFile "x" [97, 58, 32, 49, 13, 10] with
      input := [97, 58, 32, 49, 13, 10] } = .ok a ∧
    run { files := [['x']] } (World.ofFile "x" [97, 58, 32, 49, 13, 10]) = .ok b ∧
    a.exitCode = 0 ∧ b.exitCode = 0 ∧ Utf8.encode a.output ≠ Utf8.encode b.output := by
  have hinput : (run {} { World.ofFile "x" [97, 58, 32, 49, 13, 10] with
      input := [97, 58, 32, 49, 13, 10] }).toOption.map (fun r => (r.exitCode, r.output)) =
      some (0, "a: 1\n".toList) := by decide +kernel
  have hfile : (run { files := [['x']] } (World.ofFile "x" [97, 58, 32, 49, 13, 10])
      ).toOption.map (fun r => (r.exitCode, r.output)) = some (0, "a: 1\r\n".toList) := by
    decide +kernel
  obtain ⟨a, ha, hra⟩ := Option.map_eq_some_iff.1 hinput
  obtain ⟨b, hb, hrb⟩ := Option.map_eq_some_iff.1 hfile
  rw [Prod.mk.injEq] at hra hrb
  refine ⟨a, b, eq_ok_of_toOption ha, eq_ok_of_toOption hb, hra.1, hrb.1, fun he => ?_⟩
  have := Utf8.encode_injective he
  rw [hra.2, hrb.2] at this
  cases this

end YamlIndent
