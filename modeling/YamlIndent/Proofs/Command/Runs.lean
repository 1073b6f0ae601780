import Mathlib.Logic.Function.Iterate
import YamlIndent.Proofs.Bytes
import YamlIndent.Proofs.Command.Reports
import YamlIndent.Proofs.Command.Sessions
import YamlIndent.Proofs.Command.Writing

/-!
# Runs

A run takes the names of its command line one after another. The turn of a name leaves a report, and
in a run that writes also the file that the name leads to, if its text is formatted to another one.
So a run makes of a file what as many turns make of it as names lead to it; and whatever happens to
others, a name whose file becomes nothing else has its report.

## Main definitions

* `Options.writes`: whether a run writes files.
* `rewriteBytes`, `Entry.rewrite`: what a file becomes where it is rewritten.

## Main results

* `files_of_runFiles`: a run that writes nothing leaves the files as they are.
* `at?_files_of_runFiles`: a run that writes rewrites a file as often as its names lead there.
* `report_of_runFiles`: what a run says of a name whose file becomes nothing else.
* `exists_runFiles_eq_ok`: all names have their turn.
-/

namespace YamlIndent

open Utf8 (Bytes)

/-- A world with one file in the directory that the command runs in. -/
def World.ofFile (name : String) (bytes : Bytes) : World :=
  ⟨⟨[([name], .file bytes)]⟩, [], [], ""⟩

variable {o : Options} {w w' : World} {style : Style}
  {name : Text} {names : List Text} {r : Outcome} {bytes : Bytes} {text out : Text}
  {asked : Option Text}

/-! ### The turn of a name -/

theorem exists_of_runFiles_cons (h : runFiles o style w (name :: names) = .ok r) :
    '\x00' ∉ name ∧ ∃ w' rest, w.turn o style name = .ok w' ∧
      runFiles o style w' names = .ok rest ∧ r = (w.report o style name).before rest := by
  have hnull : '\x00' ∉ name := by
    intro hmem
    rw [runFiles_of_null hmem] at h
    cases h
  rw [runFiles_cons hnull] at h
  obtain ⟨w', hturn, h⟩ := exists_of_bind_eq_ok h
  obtain ⟨rest, hrest, rfl⟩ := exists_of_map_eq_ok h
  exact ⟨hnull, w', rest, hturn, hrest, rfl⟩

/-- Whether a run writes files. -/
def Options.writes (o : Options) : Bool :=
  !o.check && o.inPlace

/-- A file becomes something only in a run that writes, and only if its text is formatted to another
one. -/
theorem becomes_eq_some_iff : (w.report o style name).becomes = some out ↔
    o.writes ∧ ∃ text, w.readText name = .ok text ∧
      formatAs style o.format.get? text = .ok out ∧ out ≠ text := by
  rw [World.report]
  cases hread : w.readText name with
  | error fault => simp [reportRead, reportFault]
  | ok text =>
    cases hformat : formatAs style o.format.get? text with
    | error fault => simp [reportRead, reportFile_of_error name hformat, hformat]
    | ok out' =>
      rw [reportRead, becomes_reportFile name hformat, ← Options.writes]
      cases o.writes with
      | false => simp
      | true =>
        by_cases hout : out' = text
        · simp [hformat, hout, eq_comm]
        · simp only [hout, Bool.true_and, bne_iff_ne, ne_eq, not_false_eq_true, if_true,
            Option.some.injEq, Except.ok.injEq, hformat, exists_eq_left', true_and]
          exact ⟨fun he => ⟨he, he ▸ hout⟩, And.left⟩

/-- A name whose turn comes to an end is a name of a file if its file becomes another text. -/
theorem ne_nil_of_turn (h : w.turn o style name = .ok w')
    (hb : (w.report o style name).becomes = some out) : name ≠ [] := by
  rintro rfl
  rw [World.turn, hb] at h
  cases h

theorem becomes_of_not_writes (h : o.writes = false) : (w.report o style name).becomes = none := by
  cases hb : (w.report o style name).becomes with
  | none => rfl
  | some out =>
    have hwrites := (becomes_eq_some_iff.1 hb).1
    rw [h] at hwrites
    cases hwrites

namespace World

theorem files_afterRead (w : World) (name : Text) : (w.afterRead name).files = w.files := by
  unfold afterRead
  split <;> rfl

theorem afterRead_of_ne_nil (w : World) (h : name ≠ []) : w.afterRead name = w := by
  rw [afterRead, List.isEmpty_eq_false_iff.2 h, if_neg Bool.false_ne_true]

/-- A name whose file becomes nothing else leaves the world as it is. -/
theorem turn_of_none (h : (w.report o style name).becomes = none) :
    w.turn o style name = .ok (w.afterRead name) := by
  rw [turn, h, store]

/-- A name whose file becomes another text has it written. -/
theorem turn_of_some (hname : name ≠ []) (h : (w.report o style name).becomes = some out) :
    w.turn o style name =
      .ok { w with files := w.files.replace name (Utf8.encode out) } := by
  rw [turn, h, store, List.isEmpty_eq_false_iff.2 hname, if_neg Bool.false_ne_true,
    w.afterRead_of_ne_nil hname]

end World

/-! ### Runs that write nothing -/

/-- A run that writes nothing leaves the files as they are. -/
theorem files_of_runFiles (h : o.writes = false) (hr : runFiles o style w names = .ok r) :
    r.files = w.files := by
  induction names generalizing w r with
  | nil =>
    cases hr
    rfl
  | cons name names ih =>
    obtain ⟨-, w', rest, hturn, hrest, rfl⟩ := exists_of_runFiles_cons hr
    rw [World.turn_of_none (becomes_of_not_writes h)] at hturn
    cases hturn
    rw [Report.before, ih hrest, World.files_afterRead]

/-! ### Runs that write files -/

/-- What the bytes of a file become: those of the formatted text, if they are a text that is
formatted to another one. -/
def rewriteBytes (style : Style) (asked : Option Text) (bytes : Bytes) : Bytes :=
  match Utf8.decode bytes with
  | .error _ => bytes
  | .ok text =>
    match formatAs style asked text with
    | .error _ => bytes
    | .ok out => if out = text then bytes else Utf8.encode out

/-- What a file becomes. -/
def Entry.rewrite (style : Style) (asked : Option Text) : Entry → Entry
  | file bytes => file (rewriteBytes style asked bytes)
  | directory => directory

/-- A file that becomes another one is a text that is formatted to another text. -/
theorem exists_of_rewriteBytes_ne (h : rewriteBytes style asked bytes ≠ bytes) :
    ∃ text out, Utf8.decode bytes = .ok text ∧ formatAs style asked text = .ok out ∧
      out ≠ text ∧ rewriteBytes style asked bytes = Utf8.encode out := by
  unfold rewriteBytes at h ⊢
  cases hdecode : Utf8.decode bytes with
  | error fault => simp only [hdecode] at h; exact absurd rfl h
  | ok text =>
    cases hformat : formatAs style asked text with
    | error fault => simp only [hdecode, hformat] at h; exact absurd rfl h
    | ok out =>
      by_cases hout : out = text
      · simp only [hdecode, hformat, if_pos hout] at h
        exact absurd rfl h
      · exact ⟨text, out, rfl, hformat, hout, by simp only [hformat, if_neg hout]⟩

theorem rewriteBytes_of_ne (hdecode : Utf8.decode bytes = .ok text)
    (hformat : formatAs style asked text = .ok out) (hout : out ≠ text) :
    rewriteBytes style asked bytes = Utf8.encode out := by
  simp only [rewriteBytes, hdecode, hformat, if_neg hout]

theorem readText_of_read (hname : name ≠ []) (hread : w.files.read name = .ok bytes) :
    w.readText name = (Utf8.decode bytes).mapError .notText := by
  rw [World.readText, List.isEmpty_eq_false_iff.2 hname, if_neg Bool.false_ne_true, fileText, hread,
    ok_bind]

/-- The empty name does not lead to a file. -/
theorem ne_nil_of_locate {fs : Files} {place : Location} (hplace : fs.locate name = .ok place)
    (h : fs.at? place = some (.file bytes)) : name ≠ [] := by
  rintro rfl
  have hfollow : fs.locate [] = fs.enter [] "" >>= fun next => .ok next := rfl
  rw [hfollow] at hplace
  obtain ⟨next, hnext, hplace⟩ := exists_of_bind_eq_ok hplace
  cases hplace
  unfold Files.enter at hnext
  rcases hentry : fs.at? [] with _ | (_ | _) <;> rw [hentry] at hnext <;> cases hnext
  rw [hentry] at h
  cases h

/-- A file whose name becomes nothing else is not rewritten. -/
theorem rewriteBytes_of_none {place : Location} (hw : o.writes)
    (hplace : w.files.locate name = .ok place) (h : w.files.at? place = some (.file bytes))
    (hb : (w.report o style name).becomes = none) :
    rewriteBytes style o.format.get? bytes = bytes := by
  by_contra hne
  obtain ⟨text, out, hdecode, hformat, hout, -⟩ := exists_of_rewriteBytes_ne hne
  have hread := readText_of_read (ne_nil_of_locate hplace h) (Files.read_of_at? hplace h)
  rw [hdecode, mapError_ok] at hread
  rw [becomes_eq_some_iff.2 ⟨hw, text, hread, hformat, hout⟩] at hb
  cases hb

/-- What stands where such a name leads stays as it is. -/
theorem map_rewrite_of_none {place : Location} (hw : o.writes)
    (hplace : w.files.locate name = .ok place) (hb : (w.report o style name).becomes = none) :
    (w.files.at? place).map (Entry.rewrite style o.format.get?) = w.files.at? place := by
  rcases hentry : w.files.at? place with _ | (bytes | _)
  · rfl
  · rw [Option.map_some, Entry.rewrite, rewriteBytes_of_none hw hplace hentry hb]
  · rfl

/-- A file whose name becomes another text is rewritten. -/
theorem exists_of_becomes (hname : name ≠ [])
    (hb : (w.report o style name).becomes = some out) :
    ∃ place bytes, w.files.locate name = .ok place ∧
      w.files.at? place = some (.file bytes) ∧ Utf8.decode bytes ≠ .ok out ∧
      rewriteBytes style o.format.get? bytes = Utf8.encode out := by
  obtain ⟨-, text, hread, hformat, hout⟩ := becomes_eq_some_iff.1 hb
  rw [World.readText, List.isEmpty_eq_false_iff.2 hname, if_neg Bool.false_ne_true, fileText]
    at hread
  obtain ⟨bytes, hbytes, hdecode⟩ := exists_of_bind_eq_ok hread
  obtain ⟨place, hplace, hentry⟩ := Files.exists_of_read hbytes
  have htext : Utf8.decode bytes = .ok text := by
    cases hd : Utf8.decode bytes with
    | error => rw [hd] at hdecode; cases hdecode
    | ok text' => rw [hd] at hdecode; cases hdecode; rfl
  refine ⟨place, bytes, hplace, hentry, fun he => ?_, rewriteBytes_of_ne htext hformat hout⟩
  rw [htext] at he
  exact hout (Except.ok.inj he).symm

/-- In a run that writes, the turn of a name rewrites what stands where the name leads, and nothing
else. -/
theorem at?_files_of_turn (hw : o.writes) (h : w.turn o style name = .ok w') (place : Location) :
    w'.files.at? place =
      if w.files.locate name = .ok place then
        (w.files.at? place).map (Entry.rewrite style o.format.get?)
      else w.files.at? place := by
  cases hb : (w.report o style name).becomes with
  | none =>
    rw [World.turn_of_none hb] at h
    cases h
    rw [World.files_afterRead]
    split
    case isTrue hplace => exact (map_rewrite_of_none hw hplace hb).symm
    case isFalse => rfl
  | some out =>
    have hname := ne_nil_of_turn h hb
    obtain ⟨target, bytes, htarget, hentry, -, hrewrite⟩ := exists_of_becomes hname hb
    rw [World.turn_of_some hname hb, Files.replace_of_locate htarget] at h
    cases h
    rw [htarget]
    by_cases he : place = target
    · rw [if_pos (by rw [he]), he, Files.at?_write_self _ _ hentry, hentry, Option.map_some,
        Entry.rewrite, hrewrite]
    · rw [if_neg (fun h => he (Except.ok.inj h).symm), Files.at?_write_of_ne _ _ he]

theorem Entry.isFile_rewrite (e : Entry) : (e.rewrite style asked).isFile = e.isFile := by
  cases e <;> rfl

/-- A turn keeps files and directories in their places. -/
theorem alike_of_turn (hw : o.writes) (h : w.turn o style name = .ok w') :
    w'.files.Alike w.files := by
  intro place
  rw [at?_files_of_turn hw h]
  split
  · rw [Option.map_map]
    exact congrArg (Option.map · _) (funext Entry.isFile_rewrite)
  · rfl

/-- Whether a name leads to a place. -/
def Files.leadsTo (fs : Files) (place : Location) (name : Text) : Bool :=
  (fs.locate name).toOption == some place

theorem Files.leadsTo_iff {fs : Files} {place : Location} :
    fs.leadsTo place name ↔ fs.locate name = .ok place := by
  rw [leadsTo, beq_iff_eq]
  cases fs.locate name <;> simp [Except.toOption]

/-- A run that writes rewrites what stands at a place as often as its names lead there. -/
theorem at?_files_of_runFiles (hw : o.writes) (hr : runFiles o style w names = .ok r)
    (place : Location) :
    r.files.at? place = (w.files.at? place).map
      (Entry.rewrite style o.format.get?)^[names.countP (w.files.leadsTo place)] := by
  induction names generalizing w r with
  | nil =>
    cases hr
    exact Option.map_id'.symm
  | cons name names ih =>
    obtain ⟨-, w', rest, hturn, hrest, rfl⟩ := exists_of_runFiles_cons hr
    have hleads : w'.files.leadsTo place = w.files.leadsTo place := by
      funext other
      rw [Files.leadsTo, Files.leadsTo, (alike_of_turn hw hturn).locate_eq]
    rw [Report.before, ih hrest, hleads, at?_files_of_turn hw hturn, List.countP_cons]
    by_cases hplace : w.files.locate name = .ok place
    · rw [if_pos hplace, if_pos (Files.leadsTo_iff.2 hplace), Option.map_map, Function.iterate_succ]
    · rw [if_neg hplace, if_neg (fun h => hplace (Files.leadsTo_iff.1 h)), Nat.add_zero]

/-! ### All names have their turn -/

theorem Files.Alike.read_eq {fs fs' : Files} (ha : fs'.Alike fs)
    (h : ∀ place, fs.locate name = .ok place → fs'.at? place = fs.at? place) :
    fs'.read name = fs.read name := by
  rw [read, read, ha.locate_eq]
  cases hplace : fs.locate name with
  | error => rfl
  | ok place => rw [ok_bind, ok_bind, h place hplace]

/-- A name whose file becomes nothing else has the same report after the turn of another name. -/
theorem report_of_turn {other : Text} (h : w.turn o style other = .ok w') (hname : name ≠ [])
    (hb : (w.report o style name).becomes = none) :
    w'.report o style name = w.report o style name := by
  have hread : w'.files.read name = w.files.read name := by
    cases hw : o.writes with
    | false =>
      rw [World.turn_of_none (becomes_of_not_writes hw)] at h
      cases h
      rw [World.files_afterRead]
    | true =>
      refine (alike_of_turn hw h).read_eq fun place hplace => ?_
      rw [at?_files_of_turn hw h, map_rewrite_of_none hw hplace hb, ite_self]
  have hempty := List.isEmpty_eq_false_iff.2 hname
  rw [World.report, World.report, World.readText, World.readText, hempty,
    if_neg Bool.false_ne_true, if_neg Bool.false_ne_true, hread]

/-- Whatever happens to others, the report on a name whose file becomes nothing else is part of what
the run says. -/
theorem report_of_runFiles (hr : runFiles o style w names = .ok r) (hmem : name ∈ names)
    (hname : name ≠ []) (hb : (w.report o style name).becomes = none) :
    ((w.report o style name).failed → r.failed) ∧ (w.report o style name).output <:+: r.output ∧
      (w.report o style name).errors <:+: r.errors := by
  induction names generalizing w r with
  | nil => cases hmem
  | cons first names ih =>
    obtain ⟨-, w', rest, hturn, hrest, rfl⟩ := exists_of_runFiles_cons hr
    rcases List.mem_cons.1 hmem with rfl | hmem
    · refine ⟨fun hf => ?_, (List.prefix_append _ _).isInfix, (List.prefix_append _ _).isInfix⟩
      rw [Report.before, hf, Bool.true_or]
    · have hsame := report_of_turn hturn hname hb
      obtain ⟨hfailed, houtput, herrors⟩ := ih hrest hmem (hsame ▸ hb)
      rw [hsame] at hfailed houtput herrors
      refine ⟨fun hf => ?_, houtput.trans (List.suffix_append _ _).isInfix,
        herrors.trans (List.suffix_append _ _).isInfix⟩
      rw [Report.before, hfailed hf, Bool.or_true]

/-- A run on names of files comes to an end. -/
theorem exists_runFiles_eq_ok (h : ∀ name ∈ names, name ≠ [] ∧ '\x00' ∉ name) :
    ∃ r, runFiles o style w names = .ok r := by
  induction names generalizing w with
  | nil => exact ⟨_, rfl⟩
  | cons name names ih =>
    obtain ⟨⟨hname, hnull⟩, hnames⟩ := List.forall_mem_cons.1 h
    have hturn : ∃ w', w.turn o style name = .ok w' := by
      cases hb : (w.report o style name).becomes with
      | none => exact ⟨_, World.turn_of_none hb⟩
      | some out => exact ⟨_, World.turn_of_some hname hb⟩
    obtain ⟨w', hturn⟩ := hturn
    obtain ⟨rest, hrest⟩ := ih (w := w') hnames
    rw [runFiles_cons hnull, hturn, ok_bind, hrest]
    exact ⟨_, rfl⟩

end YamlIndent
