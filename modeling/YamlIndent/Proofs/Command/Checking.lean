import YamlIndent.Proofs.Command.Runs
import YamlIndent.Proofs.Cycles

/-!
# Checking files

A check of some files ends well just if a rewriting of them ends well and leaves all files as they
are: either is so just if the text of each name is formatted to itself. That a file is rewritten
under one name and rewritten back under others is ruled out, since formatting has no cycles.

## Main definitions

* `World.Keeps`, `World.KeepsAll`: names whose texts are formatted to themselves.
* `World.Faulty`: a name whose file cannot be read, is not in UTF-8, or is refused by the formatter.

## Main results

* `Entry.rewrite_of_mem_periodicPts`: what comes back where it is rewritten stays as it is.
* `keepsAll_of_check`, `keepsAll_of_writes`: what a check finds that ends well, and a rewriting that
  ends well and changes nothing.
* `exists_of_changed`: only files whose text is formatted are changed, by runs that write.
* `check_predicts_inPlace`: what a check says of a rewriting, and what runs make of files.
-/

namespace YamlIndent

open Utf8 (Bytes)

variable {o : Options} {w : World} {style : Style} {asked : Option Text} {name : Text}
  {names : List Text} {r : Outcome} {bytes : Bytes}

theorem writes_iff : o.writes ↔ o.check = false ∧ o.inPlace := by
  rw [Options.writes, Bool.and_eq_true, Bool.not_eq_true']

/-! ### Files that come back -/

/-- A text where it is formatted, and kept if it cannot be. -/
def reformat (style : Style) (asked : Option Text) (text : Text) : Text :=
  (formatAs style asked text).toOption.getD text

/-- A text that comes back where it is formatted again and again stays as it is. -/
theorem reformat_of_mem_periodicPts {text : Text}
    (h : text ∈ Function.periodicPts (reformat style asked)) :
    reformat style asked text = text := by
  have hstep (t : Text) :
      reformat style asked t = t ∨ formatText style t = .ok (reformat style asked t) := by
    rw [reformat, formatAs_eq]
    split
    · cases formatText style t with
      | error => exact .inl rfl
      | ok out => exact .inr rfl
    · exact .inl rfl
  exact eq_of_mem_periodicPts_format hstep h

theorem rewriteBytes_encode (style : Style) (asked : Option Text) (text : Text) :
    rewriteBytes style asked (Utf8.encode text) = Utf8.encode (reformat style asked text) := by
  cases hformat : formatAs style asked text with
  | error => simp only [rewriteBytes, Utf8.decode_encode, reformat, hformat, Except.toOption,
      Option.getD_none]
  | ok out =>
    simp only [rewriteBytes, Utf8.decode_encode, reformat, hformat, Except.toOption,
      Option.getD_some]
    split
    case isTrue he => rw [he]
    case isFalse => rfl

/-- A file that comes back where it is rewritten again and again stays as it is. -/
theorem rewriteBytes_of_mem_periodicPts
    (h : bytes ∈ Function.periodicPts (rewriteBytes style asked)) :
    rewriteBytes style asked bytes = bytes := by
  obtain ⟨before, rfl⟩ := Function.periodicPts_subset_range h
  by_cases hstays : rewriteBytes style asked before = before
  · rw [hstays, hstays]
  · obtain ⟨-, out, -, -, -, hrewrite⟩ := exists_of_rewriteBytes_ne hstays
    rw [hrewrite] at h ⊢
    have hback := mem_periodicPts_of_injective Utf8.encode_injective
      (fun text => (rewriteBytes_encode style asked text).symm) h
    rw [rewriteBytes_encode, reformat_of_mem_periodicPts hback]

theorem Entry.rewrite_of_mem_periodicPts {e : Entry}
    (h : e ∈ Function.periodicPts (Entry.rewrite style asked)) : e.rewrite style asked = e := by
  cases e with
  | directory => rfl
  | file bytes =>
    have hinj : Function.Injective Entry.file := fun _ _ he => Entry.file.inj he
    have hbytes := mem_periodicPts_of_injective hinj (fun _ => rfl) h
    rw [Entry.rewrite, rewriteBytes_of_mem_periodicPts hbytes]

/-! ### Names that are kept -/

namespace World

/-- The text of a name is formatted to itself. -/
def Keeps (style : Style) (asked : Option Text) (w : World) (name : Text) : Prop :=
  ∃ text, w.readText name = .ok text ∧ formatAs style asked text = .ok text

/-- The text of each of some names is formatted to itself, when it is read in turn. -/
def KeepsAll (style : Style) (asked : Option Text) (w : World) : List Text → Prop
  | [] => True
  | name :: names => '\x00' ∉ name ∧ w.Keeps style asked name ∧
      (w.afterRead name).KeepsAll style asked names

/-- A report does not fail just if the text is formatted, and to itself if it is only checked. -/
theorem failed_report_iff : (w.report o style name).failed = false ↔
    ∃ text out, w.readText name = .ok text ∧ formatAs style o.format.get? text = .ok out ∧
      (o.check → out = text) := by
  rw [report]
  cases hread : w.readText name with
  | error fault => simp [reportRead, reportFault]
  | ok text =>
    cases hformat : formatAs style o.format.get? text with
    | error fault => simp [reportRead, reportFile_of_error name hformat, hformat]
    | ok out =>
      rw [reportRead, failed_reportFile name hformat]
      cases o.check <;> simp [hformat]

theorem Keeps.failed_report (h : w.Keeps style o.format.get? name) :
    (w.report o style name).failed = false := by
  obtain ⟨text, hread, hformat⟩ := h
  exact failed_report_iff.2 ⟨text, text, hread, hformat, fun _ => rfl⟩

/-- What is formatted to itself becomes nothing else. -/
theorem Keeps.becomes_report (h : w.Keeps style o.format.get? name) :
    (w.report o style name).becomes = none := by
  obtain ⟨text, hread, hformat⟩ := h
  cases hb : (w.report o style name).becomes with
  | none => rfl
  | some out =>
    obtain ⟨-, text', hread', hformat', hout⟩ := becomes_eq_some_iff.1 hb
    cases hread.symm.trans hread'
    cases hformat.symm.trans hformat'
    exact absurd rfl hout

end World

/-- A run on names that are all formatted to themselves ends well, whether it checks or writes. -/
theorem exists_runFiles_of_keepsAll (h : w.KeepsAll style o.format.get? names) :
    ∃ r, runFiles o style w names = .ok r ∧ r.failed = false ∧ r.files = w.files := by
  induction names generalizing w with
  | nil => exact ⟨_, rfl, rfl, rfl⟩
  | cons name names ih =>
    obtain ⟨hnull, hkeeps, hrest⟩ := h
    obtain ⟨rest, hrest, hfailed, hfiles⟩ := ih hrest
    rw [runFiles_cons hnull, World.turn_of_none hkeeps.becomes_report, ok_bind, hrest]
    refine ⟨_, rfl, ?_, ?_⟩
    · rw [Report.before, hkeeps.failed_report, hfailed]
      rfl
    · rw [Report.before, hfiles, World.files_afterRead]

theorem failed_before {report : Report} {rest : Outcome} (h : (report.before rest).failed = false) :
    report.failed = false ∧ rest.failed = false :=
  Bool.or_eq_false_iff.1 h

/-- A check that ends well finds all names formatted to themselves. -/
theorem keepsAll_of_check (hc : o.check) (hr : runFiles o style w names = .ok r)
    (hf : r.failed = false) : w.KeepsAll style o.format.get? names := by
  induction names generalizing w r with
  | nil => trivial
  | cons name names ih =>
    obtain ⟨hnull, w', rest, hturn, hrest, rfl⟩ := exists_of_runFiles_cons hr
    obtain ⟨hreport, hothers⟩ := failed_before hf
    obtain ⟨text, out, hread, hformat, hout⟩ := World.failed_report_iff.1 hreport
    rw [hout hc] at hformat
    have hwrites : o.writes = false := by rw [Options.writes, hc]; rfl
    rw [World.turn_of_none (becomes_of_not_writes hwrites)] at hturn
    cases hturn
    exact ⟨hnull, ⟨text, hread, hformat⟩, ih hrest hothers⟩

/-- A rewriting that ends well and leaves all files as they were finds all names formatted to
themselves. -/
theorem keepsAll_of_writes (hw : o.writes) (hr : runFiles o style w names = .ok r)
    (hf : r.failed = false) (hfiles : ∀ place, r.files.at? place = w.files.at? place) :
    w.KeepsAll style o.format.get? names := by
  induction names generalizing w r with
  | nil => trivial
  | cons name names ih =>
    obtain ⟨hnull, w', rest, hturn, hrest, rfl⟩ := exists_of_runFiles_cons hr
    obtain ⟨hreport, hothers⟩ := failed_before hf
    obtain ⟨text, out, hread, hformat, -⟩ := World.failed_report_iff.1 hreport
    cases hb : (w.report o style name).becomes with
    | none =>
      rw [World.turn_of_none hb] at hturn
      cases hturn
      have hsame := w.files_afterRead name
      refine ⟨hnull, ⟨text, hread, ?_⟩, ih hrest hothers fun place => ?_⟩
      · by_cases hout : out = text
        · rwa [hout] at hformat
        · rw [becomes_eq_some_iff.2 ⟨hw, text, hread, hformat, hout⟩] at hb
          cases hb
      · rw [hsame]
        exact hfiles place
    | some out' =>
      -- The file is rewritten, and names that follow would have to rewrite it back.
      obtain ⟨place, bytes, hplace, hentry, hne, hrewrite⟩ :=
        exists_of_becomes (ne_nil_of_turn hturn hb) hb
      have hcount : (name :: names).countP (w.files.leadsTo place) =
          names.countP (w.files.leadsTo place) + 1 :=
        List.countP_cons_of_pos (Files.leadsTo_iff.2 hplace)
      have hback := at?_files_of_runFiles hw hr place
      rw [hfiles place, hcount, hentry, Option.map_some] at hback
      have hstays := Entry.rewrite_of_mem_periodicPts (Function.mk_mem_periodicPts
        (Nat.succ_pos _) (Option.some.inj hback).symm)
      rw [Entry.rewrite, hrewrite] at hstays
      rw [← Entry.file.inj hstays, Utf8.decode_encode] at hne
      exact absurd rfl hne

/-! ### Whole runs -/

/-- A run on files ends in two ways: its settings are refused, or it runs on each of the files. -/
theorem exists_of_run (hfiles : o.files ≠ []) (hr : run o w = .ok r) :
    ∃ loaded said style?, w.settings = .ok loaded ∧ start o loaded = (said, style?) ∧
      ((style? = none ∧ r = ⟨true, [], said, w.files⟩) ∨
        ∃ style rest, style? = some style ∧ runFiles o style w o.files = .ok rest ∧
          r = { rest with errors := said ++ rest.errors }) := by
  cases hload : w.settings with
  | error fault =>
    rw [run_of_error hload] at hr
    cases hr
  | ok loaded =>
    rcases hstart : start o loaded with ⟨said, style?⟩
    refine ⟨loaded, said, style?, rfl, hstart, ?_⟩
    cases style? with
    | none =>
      rw [run_of_refused hload hstart] at hr
      exact .inl ⟨rfl, (Except.ok.inj hr).symm⟩
    | some style =>
      rw [run_of_style hload hstart, runStyled_of_files hfiles] at hr
      cases hrest : runFiles o style w o.files with
      | error => rw [hrest] at hr; cases hr
      | ok rest =>
        rw [hrest] at hr
        exact .inr ⟨style, rest, rfl, hrest, (Except.ok.inj hr).symm⟩

/-- What a run says that is not refused. -/
theorem exists_of_run_of_style (hfiles : o.files ≠ []) {loaded : Loaded} {said : Text}
    (hload : w.settings = .ok loaded) (hstart : start o loaded = (said, some style))
    (hr : run o w = .ok r) : ∃ rest, runFiles o style w o.files = .ok rest ∧
      (rest.failed → r.exitCode = 1) ∧ r.output = rest.output ∧ rest.errors <:+: r.errors ∧
      r.files = rest.files := by
  obtain ⟨loaded', said', style?, hload', hstart', ⟨rfl, -⟩ | ⟨style', rest, rfl, hrest, rfl⟩⟩ :=
    exists_of_run hfiles hr
  · cases hload.symm.trans hload'
    cases hstart.symm.trans hstart'
  · cases hload.symm.trans hload'
    cases hstart.symm.trans hstart'
    exact ⟨rest, hrest, fun h => if_pos h, rfl, (List.suffix_append _ _).isInfix, rfl⟩

/-- A run on names that are all formatted to themselves ends well and leaves the files as they are.
-/
theorem exists_run_of_keepsAll (hfiles : o.files ≠ []) {loaded : Loaded} {said : Text}
    (hload : w.settings = .ok loaded) (hstart : start o loaded = (said, some style))
    (h : w.KeepsAll style o.format.get? o.files) :
    ∃ r, run o w = .ok r ∧ r.exitCode = 0 ∧ r.files = w.files := by
  obtain ⟨rest, hrest, hfailed, hsame⟩ := exists_runFiles_of_keepsAll h
  rw [run_of_style hload hstart, runStyled_of_files hfiles, hrest]
  refine ⟨_, rfl, ?_, hsame⟩
  simp only [Outcome.exitCode, hfailed]
  rfl

theorem failed_of_exitCode (h : r.exitCode = 0) : r.failed = false := by
  rw [Outcome.exitCode] at h
  split at h
  · cases h
  · exact eq_false_of_ne_true ‹_›

/-- A check ends well just if a rewriting ends well and leaves all files as they are. -/
theorem check_iff_writes {p q : Options} (hp : p.check) (hq : q.writes)
    (hpq : start p = start q) (hformat : p.format = q.format) (hnames : p.files = q.files)
    (hfiles : q.files ≠ []) :
    (∃ r, run p w = .ok r ∧ r.exitCode = 0) ↔
      ∃ r, run q w = .ok r ∧ r.exitCode = 0 ∧ ∀ place, r.files.at? place = w.files.at? place := by
  constructor
  · rintro ⟨r, hr, hexit⟩
    obtain ⟨loaded, said, style?, hload, hstart, ⟨rfl, rfl⟩ | ⟨style, rest, rfl, hrest, rfl⟩⟩ :=
      exists_of_run (hnames ▸ hfiles) hr
    · cases hexit
    · have hkeeps := keepsAll_of_check hp hrest (failed_of_exitCode hexit)
      rw [hformat, hnames] at hkeeps
      rw [hpq] at hstart
      obtain ⟨r, hr, hexit, hsame⟩ := exists_run_of_keepsAll hfiles hload hstart hkeeps
      exact ⟨r, hr, hexit, fun place => by rw [hsame]⟩
  · rintro ⟨r, hr, hexit, hsame⟩
    obtain ⟨loaded, said, style?, hload, hstart, ⟨rfl, rfl⟩ | ⟨style, rest, rfl, hrest, rfl⟩⟩ :=
      exists_of_run hfiles hr
    · cases hexit
    · have hkeeps := keepsAll_of_writes hq hrest (failed_of_exitCode hexit) hsame
      rw [← hformat, ← hnames] at hkeeps
      rw [← hpq] at hstart
      obtain ⟨r, hr, hexit, -⟩ :=
        exists_run_of_keepsAll (hnames ▸ hfiles) hload hstart hkeeps
      exact ⟨r, hr, hexit⟩

/-! ### Faults -/

namespace World

/-- A name whose file cannot be read, is not in UTF-8, or is refused by the formatter. -/
def Faulty (style : Style) (asked : Option Text) (w : World) (name : Text) : Prop :=
  ∀ text out, w.readText name = .ok text → formatAs style asked text ≠ .ok out

theorem Faulty.becomes_report (h : w.Faulty style o.format.get? name) :
    (w.report o style name).becomes = none := by
  cases hb : (w.report o style name).becomes with
  | none => rfl
  | some out =>
    obtain ⟨-, text, hread, hformat, -⟩ := becomes_eq_some_iff.1 hb
    exact absurd hformat (h text out hread)

theorem Faulty.failed_report (h : w.Faulty style o.format.get? name) :
    (w.report o style name).failed := by
  by_contra hf
  obtain ⟨text, out, hread, hformat, -⟩ := failed_report_iff.1 (eq_false_of_ne_true hf)
  exact h text out hread hformat

end World

/-- What stands at a place changes only in a run that writes, and only if it is a file that some
name leads to and whose text is formatted to another one. -/
theorem exists_of_changed (hfiles : o.files ≠ []) (hr : run o w = .ok r) {place : Location}
    (h : r.files.at? place ≠ w.files.at? place) :
    o.writes ∧ ∃ loaded said style bytes text out, ∃ name ∈ o.files,
      w.settings = .ok loaded ∧ start o loaded = (said, some style) ∧
      w.files.locate name = .ok place ∧ w.files.at? place = some (.file bytes) ∧
      Utf8.decode bytes = .ok text ∧ formatAs style o.format.get? text = .ok out ∧ out ≠ text := by
  obtain ⟨loaded, said, style?, hload, hstart, ⟨-, rfl⟩ | ⟨style, rest, rfl, hrest, rfl⟩⟩ :=
    exists_of_run hfiles hr
  · exact absurd rfl h
  · cases hw : o.writes with
    | false => exact absurd (by rw [files_of_runFiles hw hrest]) h
    | true =>
      have hat := at?_files_of_runFiles hw hrest place
      have hne : (w.files.at? place).map (Entry.rewrite style o.format.get?)^[
          o.files.countP (w.files.leadsTo place)] ≠ w.files.at? place := hat ▸ h
      have hcount : 0 < o.files.countP (w.files.leadsTo place) := by
        rw [Nat.pos_iff_ne_zero]
        intro he
        rw [he] at hne
        exact hne Option.map_id'
      obtain ⟨name, hname, hleads⟩ := List.countP_pos_iff.1 hcount
      rcases hentry : w.files.at? place with _ | (bytes | _) <;> rw [hentry] at hne
      · exact absurd rfl hne
      · by_cases hstays : rewriteBytes style o.format.get? bytes = bytes
        · refine absurd (congrArg some (Function.iterate_fixed ?_ _)) hne
          rw [Entry.rewrite, hstays]
        · obtain ⟨text, out, hdecode, hformat, hout, -⟩ := exists_of_rewriteBytes_ne hstays
          exact ⟨rfl, loaded, said, style, bytes, text, out, name, hname, hload, hstart,
            Files.leadsTo_iff.1 hleads, rfl, hdecode, hformat, hout⟩
      · exact absurd (congrArg some (Function.iterate_fixed rfl _)) hne

/-- A check ends well just if a rewriting ends well and leaves all files as they are. A run changes
only files whose text is formatted, and these only if it writes. Each of the names has its turn. -/
theorem check_predicts_inPlace (o : Options) (w : World) (hfiles : o.files ≠ []) :
    ((∃ r, run { o with check := true } w = .ok r ∧ r.exitCode = 0) ↔
      ∃ r, run { o with check := false, inPlace := true } w = .ok r ∧ r.exitCode = 0 ∧
        ∀ place, r.files.at? place = w.files.at? place) ∧
    (∀ r, run o w = .ok r → ∀ place, r.files.at? place ≠ w.files.at? place →
      o.check = false ∧ o.inPlace ∧ ∃ loaded said style bytes text out, ∃ name ∈ o.files,
        w.settings = .ok loaded ∧ start o loaded = (said, some style) ∧
        w.files.locate name = .ok place ∧ w.files.at? place = some (.file bytes) ∧
        Utf8.decode bytes = .ok text ∧ formatAs style o.format.get? text = .ok out) ∧
    ∀ loaded said style, w.settings = .ok loaded → start o loaded = (said, some style) →
      ((∀ name ∈ o.files, name ≠ [] ∧ '\x00' ∉ name) → ∃ r, run o w = .ok r) ∧
      ∀ r, run o w = .ok r →
        (o.check = false → o.inPlace → ∀ place, r.files.at? place = (w.files.at? place).map
          (Entry.rewrite style o.format.get?)^[o.files.countP (w.files.leadsTo place)]) ∧
        ∀ name ∈ o.files, name ≠ [] →
          (w.Faulty style o.format.get? name →
            r.exitCode = 1 ∧ (w.report o style name).errors <:+: r.errors) ∧
          (o.check ∨ o.inPlace = false → (w.report o style name).output <:+: r.output ∧
            ((w.report o style name).failed → r.exitCode = 1)) := by
  refine ⟨?_, fun r hr place h => ?_, fun loaded said style hload hstart => ⟨fun hnames => ?_, ?_⟩⟩
  · exact check_iff_writes rfl rfl rfl rfl rfl hfiles
  · obtain ⟨hw, loaded, said, style, bytes, text, out, name, hname, hload, hstart, hplace, hentry,
      hdecode, hformat, -⟩ := exists_of_changed hfiles hr h
    obtain ⟨hcheck, hinPlace⟩ := writes_iff.1 hw
    exact ⟨hcheck, hinPlace, loaded, said, style, bytes, text, out, name, hname, hload, hstart,
      hplace, hentry, hdecode, hformat⟩
  · obtain ⟨rest, hrest⟩ := exists_runFiles_eq_ok hnames
    rw [run_of_style hload hstart, runStyled_of_files hfiles, hrest]
    exact ⟨_, rfl⟩
  · intro r hr
    obtain ⟨rest, hrest, hexit, houtput, herrors, hsame⟩ :=
      exists_of_run_of_style hfiles hload hstart hr
    refine ⟨fun hcheck hinPlace place => ?_,
      fun name hname hne => ⟨fun hfaulty => ?_, fun hnot => ?_⟩⟩
    · rw [hsame, at?_files_of_runFiles (writes_iff.2 ⟨hcheck, hinPlace⟩) hrest]
    · obtain ⟨hfailed, -, hinfix⟩ := report_of_runFiles hrest hname hne hfaulty.becomes_report
      exact ⟨hexit (hfailed hfaulty.failed_report), hinfix.trans herrors⟩
    · have hw : o.writes = false := by
        rw [← Bool.not_eq_true, writes_iff]
        rintro ⟨hcheck, hinPlace⟩
        rcases hnot with h | h
        · rw [hcheck] at h
          cases h
        · rw [h] at hinPlace
          cases hinPlace
      obtain ⟨hfailed, hinfix, -⟩ := report_of_runFiles hrest hname hne (becomes_of_not_writes hw)
      exact ⟨houtput ▸ hinfix, fun h => hexit (hfailed h)⟩

/-- A check of a file that is formatted to itself, under two names, ends well, and so does the
rewriting. -/
theorem check_predicts_inPlace_twice :
    (∃ r, run { files := ["x".toList, "./x".toList], check := true }
        (World.ofFile "x" [97, 58, 32, 49, 10]) = .ok r ∧ r.exitCode = 0) ∧
    ∃ r, run { files := ["x".toList, "./x".toList], inPlace := true }
        (World.ofFile "x" [97, 58, 32, 49, 10]) = .ok r ∧ r.exitCode = 0 ∧
      ∀ place, r.files.at? place = (World.ofFile "x" [97, 58, 32, 49, 10]).files.at? place := by
  have hcheck : ∃ r, run { files := ["x".toList, "./x".toList], check := true }
      (World.ofFile "x" [97, 58, 32, 49, 10]) = .ok r ∧ r.exitCode = 0 := by
    have hrun : (run { files := ["x".toList, "./x".toList], check := true }
        (World.ofFile "x" [97, 58, 32, 49, 10])).toOption.map Outcome.exitCode = some 0 := by
      decide +kernel
    obtain ⟨r, hr, hexit⟩ := Option.map_eq_some_iff.1 hrun
    exact ⟨r, eq_ok_of_toOption hr, hexit⟩
  have hiff := (check_predicts_inPlace { files := ["x".toList, "./x".toList] }
    (World.ofFile "x" [97, 58, 32, 49, 10]) (List.cons_ne_nil _ _)).1
  exact ⟨hcheck, hiff.1 hcheck⟩

end YamlIndent
