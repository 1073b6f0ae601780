import YamlIndent.Command.Run
import YamlIndent.Results

/-!
# Sessions

In a world the command does nothing but what the reports on its names say: the turn of a name reads
the text of its file, writes what the file becomes, and prints the report. What was printed before
does not matter to it, so a run on some names is the turn of the first and a run on the others.

## Main definitions

* `World.readText`, `World.afterRead`, `World.store`: reading and writing in a world.
* `Report.before`: the end of a run that has some files left to do.
* `World.report`, `World.turn`: the report on a name, and the world after the turn of the name.

## Main results

* `run_of_error`, `run_of_refused`, `run_of_style`: how a run starts.
* `runStyled_of_files`, `runStyled_of_input`: how it goes on.
* `runFiles_nil`, `runFiles_of_null`, `runFiles_cons`: a run on files, name by name.
-/

namespace YamlIndent

/-! ### Reading and writing in a world -/

namespace World

/-- The text of the file of a name. -/
def readText (w : World) (name : Text) : Except ReadFault Text :=
  if name.isEmpty then (inputText w.input).mapError .notText
  else fileText (w.files.read name)

/-- The world after the file of a name was read. -/
def afterRead (w : World) (name : Text) : World :=
  if name.isEmpty then { w with input := [] } else w

/-- The world after a report on a name. -/
def store (w : World) (name : Text) : Option Text → Except Breakdown World
  | none => .ok w
  | some text =>
    if name.isEmpty then .error .writeInput
    else .ok { w with files := w.files.replace name (Utf8.encode text) }

/-- The report on a name. -/
def report (o : Options) (style : Style) (w : World) (name : Text) : Report :=
  reportRead o style name (w.readText name)

/-- The world after the turn of a name. -/
def turn (o : Options) (style : Style) (w : World) (name : Text) : Except Breakdown World :=
  (w.afterRead name).store name (w.report o style name).becomes

end World

/-- The end of a run that has some files left to do, which `rest` is the end of, after a report. -/
def Report.before (r : Report) (rest : Outcome) : Outcome where
  failed := r.failed || rest.failed
  output := r.output ++ rest.output
  errors := r.errors ++ rest.errors
  files := rest.files

variable {o : Options} {w : World} {loaded : Loaded} {style : Style} {said name : Text}
  {names : List Text}

/-! ### Steps of a session -/

section Steps

variable {ε σ α β : Type} {x : StateT σ (Except ε) α} {f : α → StateT σ (Except ε) β} {s t : σ}

theorem bind_of_eq_ok {a : α} (h : x s = .ok (a, t)) : (x >>= f) s = f a t := by
  change (x s >>= fun (a, t) => f a t) = f a t
  rw [h, ok_bind]

theorem bind_of_eq_error {e : ε} (h : x s = .error e) : (x >>= f) s = .error e := by
  change (x s >>= fun (a, t) => f a t) = .error e
  rw [h, error_bind]

end Steps

namespace Session

/-- A session whose part before is `s`, and whose part from there on is `t`. -/
def behind (s t : Session) : Session :=
  ⟨t.world, s.output ++ t.output, s.errors ++ t.errors⟩

/-- A session after it printed a report. -/
def print (s : Session) (r : Report) : Session :=
  ⟨s.world, s.output ++ r.output, s.errors ++ r.errors⟩

theorem behind_empty (s : Session) : s.behind { world := s.world } = s := by
  simp only [behind, List.append_nil]

theorem host_settings (s : Session) :
    host.settings s = (s.world.settings.mapError .settings).map (·, s) := by
  rw [Host.settings, bind_of_eq_ok rfl, bind_of_eq_ok rfl, bind_of_eq_ok rfl, World.settings]
  generalize loadSettings _ _ _ = loaded
  cases loaded <;> rfl

/-- A run that loads its settings goes on with them in the world that it started in. -/
theorem host_settings_of_eq_ok (h : w.settings = .ok loaded) :
    host.settings { world := w } = .ok (loaded, { world := w }) := by
  rw [host_settings, h]
  rfl

theorem host_readText (s : Session) (name : Text) :
    host.readText name s =
      .ok (s.world.readText name, { s with world := s.world.afterRead name }) := by
  rw [Host.readText, World.readText, World.afterRead]
  split <;> rfl

theorem host_store (s : Session) (name : Text) (becomes : Option Text) :
    host.store name becomes s =
      (s.world.store name becomes).map fun w => ((), { s with world := w }) := by
  cases becomes with
  | none => rfl
  | some text =>
    rw [Host.store, World.store]
    split <;> rfl

theorem host_say (s : Session) (r : Report) : host.say r s = .ok ((), s.print r) := rfl

theorem host_runFiles_of_null (s : Session) (h : '\x00' ∈ name) :
    host.runFiles o style (name :: names) s = .error .nullName := by
  have hcontains : name.contains '\x00' = true := by simpa using h
  rw [Host.runFiles, if_pos hcontains]
  rfl

/-- The turn of a name, and a run on the others. -/
theorem host_runFiles_cons (s : Session) (hnull : '\x00' ∉ name) :
    host.runFiles o style (name :: names) s =
      s.world.turn o style name >>= fun w =>
        (host.runFiles o style names
          ({ s with world := w }.print (s.world.report o style name))).map fun (failed, t) =>
            ((s.world.report o style name).failed || failed, t) := by
  have hcontains : name.contains '\x00' = false := by simpa using hnull
  have hstore : host.store name (s.world.report o style name).becomes
      { s with world := s.world.afterRead name } =
        (s.world.turn o style name).map fun w => ((), { s with world := w }) := host_store _ _ _
  rw [Host.runFiles, hcontains, if_neg Bool.false_ne_true, bind_of_eq_ok (host_readText s name)]
  cases hturn : s.world.turn o style name with
  | error b =>
    rw [hturn] at hstore
    exact bind_of_eq_error hstore
  | ok w =>
    rw [hturn] at hstore
    refine (bind_of_eq_ok hstore).trans ((bind_of_eq_ok (host_say _ _)).trans ?_)
    rw [ok_bind]
    cases hrest : host.runFiles o style names
        ({ s with world := w }.print (s.world.report o style name)) with
    | error b => exact bind_of_eq_error hrest
    | ok r => exact bind_of_eq_ok hrest

/-- A run on files goes as if nothing was printed before. -/
theorem host_runFiles (s : Session) (names : List Text) : host.runFiles o style names s =
    (host.runFiles o style names { world := s.world }).map fun (failed, t) =>
      (failed, s.behind t) := by
  induction names generalizing s with
  | nil =>
    change Except.ok (false, s) = .ok (false, s.behind { world := s.world })
    rw [behind_empty]
  | cons name names ih =>
    by_cases hnull : '\x00' ∈ name
    · rw [host_runFiles_of_null _ hnull, host_runFiles_of_null _ hnull]
      rfl
    · rw [host_runFiles_cons s hnull, host_runFiles_cons _ hnull]
      dsimp only
      cases s.world.turn o style name with
      | error b => rfl
      | ok w =>
        rw [ok_bind, ok_bind, ih, ih ({ world := w : Session }.print _)]
        dsimp only [print]
        cases host.runFiles o style names { world := w } with
        | error b => rfl
        | ok r => simp [Except.map, behind]

/-- A run without file names reads the standard input, and prints the report on it. -/
theorem host_runStyled_of_input (s : Session) (ho : o.files = []) : host.runStyled o style s =
    ((inputText s.world.input).mapError .input).map fun text =>
      ((reportInput o style text).failed,
        { s with world.input := [] }.print (reportInput o style text)) := by
  rw [Host.runStyled, ho, List.isEmpty_nil, if_pos rfl, bind_of_eq_ok rfl]
  cases inputText s.world.input <;> rfl

/-- A run in a style goes as if nothing was printed before. -/
theorem host_runStyled (s : Session) : host.runStyled o style s =
    (host.runStyled o style { world := s.world }).map fun (failed, t) => (failed, s.behind t) := by
  by_cases ho : o.files = []
  · rw [host_runStyled_of_input s ho, host_runStyled_of_input _ ho]
    dsimp only
    cases inputText s.world.input with
    | error fault => rfl
    | ok text => simp [Except.map, print, behind]
  · rw [Host.runStyled, List.isEmpty_eq_false_iff.2 ho, if_neg Bool.false_ne_true]
    exact s.host_runFiles o.files

end Session

/-! ### Runs on files -/

/-- A run on no files ends at once. -/
theorem runFiles_nil : runFiles o style w [] = .ok ⟨false, [], [], w.files⟩ := rfl

theorem runFiles_of_null (h : '\x00' ∈ name) :
    runFiles o style w (name :: names) = .error .nullName := by
  rw [runFiles, World.outcome, Session.host_runFiles_of_null _ h, error_bind]

/-- A run on a name and others is the turn of the name and a run on the others. -/
theorem runFiles_cons (hnull : '\x00' ∉ name) :
    runFiles o style w (name :: names) =
      w.turn o style name >>= fun w' =>
        (runFiles o style w' names).map (w.report o style name).before := by
  rw [runFiles, World.outcome, Session.host_runFiles_cons _ hnull]
  dsimp only
  cases w.turn o style name with
  | error b => rfl
  | ok w' =>
    rw [ok_bind, ok_bind, Session.host_runFiles, runFiles, World.outcome]
    dsimp only [Session.print]
    cases Session.host.runFiles o style names { world := w' } <;> rfl

/-! ### The start of a run -/

/-- A run with settings that cannot be loaded breaks down. -/
theorem run_of_error {fault : IntegerFault} (h : w.settings = .error fault) :
    run o w = .error (.settings fault) := by
  have hload : Session.host.settings { world := w } = .error (.settings fault) := by
    rw [Session.host_settings, h]
    rfl
  rw [run, World.outcome, Host.run, bind_of_eq_error hload, error_bind]

/-- A run whose command line is refused fails, and changes nothing. -/
theorem run_of_refused (h : w.settings = .ok loaded) (hs : start o loaded = (said, none)) :
    run o w = .ok ⟨true, [], said, w.files⟩ := by
  rw [run, World.outcome, Host.run, bind_of_eq_ok (Session.host_settings_of_eq_ok h), hs]
  rfl

/-- Any other run goes on in the style that is asked for. -/
theorem run_of_style (h : w.settings = .ok loaded) (hs : start o loaded = (said, some style)) :
    run o w = (runStyled o style w).map fun r => { r with errors := said ++ r.errors } := by
  have hprint : Session.host.printError said { world := w } =
      .ok ((), { world := w, errors := said }) := rfl
  rw [run, World.outcome, Host.run, bind_of_eq_ok (Session.host_settings_of_eq_ok h), hs]
  dsimp only
  rw [bind_of_eq_ok hprint, Session.host_runStyled, runStyled, World.outcome]
  cases Session.host.runStyled o style { world := w } <;> rfl

theorem runStyled_of_files (h : o.files ≠ []) :
    runStyled o style w = runFiles o style w o.files := by
  rw [runStyled, Host.runStyled, List.isEmpty_eq_false_iff.2 h, if_neg Bool.false_ne_true]
  rfl

/-- A run without file names ends with the report of its standard input. -/
theorem runStyled_of_input {text : Text} (ho : o.files = [])
    (hinput : inputText w.input = .ok text) :
    runStyled o style w = .ok ((reportInput o style text).before ⟨false, [], [], w.files⟩) := by
  rw [runStyled, World.outcome, Session.host_runStyled_of_input _ ho, hinput, mapError_ok]
  simp only [Report.before, Bool.or_false, List.append_nil]
  rfl

end YamlIndent
