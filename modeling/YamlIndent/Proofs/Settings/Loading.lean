import YamlIndent.Proofs.Bytes
import YamlIndent.Proofs.Settings.Layers

/-!
# Loading settings

What is loaded are the standard settings under the layers of a configuration file and an
environment. A file that cannot be used counts as none, but for an infinite indent size, on which
loading ends. The command line is the layer on top.

## Main definitions

* `Environment.without`: the variables of an environment but for one.

## Main results

* `settings_of_load`: the settings that are loaded, by their layers.
* `load_ok_iff`: loading fails just on an infinite indent size, and any other file that cannot be
  used counts as none.
* `settings_layered`: the settings of a command, by their layers.
-/

namespace YamlIndent

open Utf8 (Bytes)

/-! ### Loading -/

section

variable {bytes : Bytes} {data : List (Text × Value)} {file : Option (Except String Bytes)}

theorem fileData?_encode (t : Text) :
    fileData? (some (.ok (Utf8.encode t))) = (Toml.readDocument t).toOption := by
  rw [fileData?, Utf8.decode_encode]
  rfl

theorem settingsOfFile_eq (h : fileData? (some (.ok bytes)) = some data) :
    settingsOfFile bytes =
      match Settings.standard.applyData data with
      | .ok s => .ok (.ok s)
      | .error (.integer .infinite) => .ok (.error .infinite)
      | .error fault => .error fault.message := by
  rw [fileData?, Option.bind_eq_some_iff] at h
  obtain ⟨text, htext, hdata⟩ := h
  rw [settingsOfFile, eq_ok_of_toOption htext, mapError_ok, ok_bind, eq_ok_of_toOption hdata,
    ok_bind]
  rfl

theorem exists_settingsOfFile_eq_error (h : fileData? (some (.ok bytes)) = none) :
    ∃ reason, settingsOfFile bytes = .error reason := by
  rw [fileData?] at h
  rw [settingsOfFile]
  cases htext : Utf8.decode bytes with
  | error fault => exact ⟨_, rfl⟩
  | ok text =>
    rw [htext] at h
    cases hdata : Toml.readDocument text with
    | error reason => exact ⟨reason, by rw [mapError_ok, ok_bind, hdata, error_bind]⟩
    | ok data =>
      simp [Except.toOption, hdata] at h

/-- A configuration file lies over the standard settings. One that is refused says nothing. -/
theorem settingsOfFile_cases (h : ¬InfiniteFile (some (.ok bytes))) :
    settingsOfFile bytes = .ok (.ok ((fileLayer (some (.ok bytes))).onto .standard)) ∨
      fileLayer (some (.ok bytes)) = {} ∧ ∃ reason, settingsOfFile bytes = .error reason := by
  cases hdata : fileData? (some (.ok bytes)) with
  | none => exact .inr ⟨by rw [fileLayer, hdata]; rfl, exists_settingsOfFile_eq_error hdata⟩
  | some data =>
    have hlayer : fileLayer (some (.ok bytes)) = dataLayer data := by rw [fileLayer, hdata]; rfl
    have hfinite : ∀ given ∈ Value.field? sectionName data, ¬given.Infinite :=
      fun given hgiven hi => h ⟨data, hdata, given, hgiven, hi⟩
    rw [hlayer, settingsOfFile_eq hdata]
    rcases Settings.applyData_cases hfinite .standard with
      hok | ⟨⟨given, hgiven, hunusable⟩, fault, hne, herror⟩
    · rw [hok]
      exact .inl rfl
    · refine .inr ⟨dataLayer_of_unusable hgiven hunusable, fault.message, ?_⟩
      rw [herror]
      split
      · next heq => cases heq
      · next heq => exact absurd (Except.error.inj heq) hne
      · next heq => rw [Except.error.inj heq]

/-- Loading ends on an infinite indent size. -/
theorem load_of_infinite (h : InfiniteFile file) (path : Path) (env : Environment) :
    Settings.load path file env = .error .infinite := by
  obtain ⟨data, hdata, given, hgiven, hinfinite⟩ := h
  match file, hdata with
  | some (.ok bytes), hdata =>
    have hfile := settingsOfFile_eq hdata
    rw [Settings.applyData_of_infinite hgiven hinfinite] at hfile
    simp only [Settings.load, Except.bind, hfile]
    rfl

/-- Otherwise the file lies over the standard settings, and the environment over both. -/
theorem exists_load_eq_ok (h : ¬InfiniteFile file) (path : Path) (env : Environment) :
    ∃ loaded, Settings.load path file env = .ok loaded ∧
      loaded.settings = env.layer.onto ((fileLayer file).onto .standard) := by
  match file, h with
  | none, _ => exact ⟨_, rfl, Settings.applyEnvironment_eq env _⟩
  | some (.error _), _ => exact ⟨_, rfl, Settings.applyEnvironment_eq env _⟩
  | some (.ok bytes), h =>
    rcases settingsOfFile_cases h with hfile | ⟨hlayer, reason, hfile⟩
    · simp only [Settings.load, Except.bind, hfile]
      exact ⟨_, rfl, Settings.applyEnvironment_eq env _⟩
    · simp only [Settings.load, Except.bind, hfile, hlayer]
      exact ⟨_, rfl, Settings.applyEnvironment_eq env _⟩

theorem not_infinite_of_load {path : Path} {env : Environment} {loaded : Loaded}
    (h : Settings.load path file env = .ok loaded) : ¬InfiniteFile file := by
  intro hi
  rw [load_of_infinite hi] at h
  cases h

/-- What is loaded are the standard settings under the file and the environment. -/
theorem settings_of_load {path : Path} {env : Environment} {loaded : Loaded}
    (h : Settings.load path file env = .ok loaded) :
    loaded.settings = env.layer.onto ((fileLayer file).onto .standard) := by
  obtain ⟨loaded', hload, hsettings⟩ := exists_load_eq_ok (not_infinite_of_load h) path env
  rw [h] at hload
  cases hload
  exact hsettings

/-- Loading fails just on an infinite indent size, whatever the variables are. Any other file that
cannot be used is loaded as if there were none. -/
theorem load_ok_iff (path : Path) (file : Option (Except String Bytes)) (env : Environment) :
    ((∃ loaded, Settings.load path file env = .ok loaded) ↔ ¬InfiniteFile file) ∧
      (UnusableFile file → ¬InfiniteFile file → ∃ loaded without,
        Settings.load path file env = .ok loaded ∧ Settings.load path none env = .ok without ∧
          loaded.settings = without.settings) := by
  refine ⟨⟨?_, fun h => ?_⟩, fun hunusable h => ?_⟩
  · rintro ⟨loaded, hload⟩ hinfinite
    rw [load_of_infinite hinfinite] at hload
    cases hload
  · obtain ⟨loaded, hload, -⟩ := exists_load_eq_ok h path env
    exact ⟨loaded, hload⟩
  · obtain ⟨loaded, hload, hsettings⟩ := exists_load_eq_ok h path env
    obtain ⟨without, hwithout, hnone⟩ := exists_load_eq_ok not_infiniteFile_none path env
    refine ⟨loaded, without, hload, hwithout, ?_⟩
    rw [hsettings, hnone, hunusable.fileLayer_eq]
    rfl

end

/-- An indent size that is a word counts as none. -/
theorem load_ok_iff_word :
    ∃ file, file = some (.ok (Utf8.encode "[indents]\nindent_size = 'two'\n".toList)) ∧
      UnusableFile file ∧ ¬InfiniteFile file ∧ ∃ loaded without,
        Settings.load ⟨"", ["config.toml"]⟩ file [("YINDENT_INDENT_SIZE", "4")] = .ok loaded ∧
          Settings.load ⟨"", ["config.toml"]⟩ none [("YINDENT_INDENT_SIZE", "4")] = .ok without ∧
            loaded.settings = without.settings := by
  have hunusable :
      UnusableFile (some (.ok (Utf8.encode "[indents]\nindent_size = 'two'\n".toList))) := by
    refine ⟨rfl, ?_⟩
    rw [fileData?_encode]
    decide +kernel
  have hfinite :
      ¬InfiniteFile (some (.ok (Utf8.encode "[indents]\nindent_size = 'two'\n".toList))) := by
    rw [InfiniteFile, fileData?_encode]
    decide +kernel
  exact ⟨_, rfl, hunusable, hfinite, (load_ok_iff _ _ _).2 hunusable hfinite⟩

/-- An infinite indent size is no fault that loading forgives. -/
theorem load_fails_infinite :
    ¬∃ loaded, Settings.load ⟨"", ["config.toml"]⟩
      (some (.ok (Utf8.encode "[indents]\nindent_size = inf\n".toList))) [] = .ok loaded := by
  have hinfinite :
      InfiniteFile (some (.ok (Utf8.encode "[indents]\nindent_size = inf\n".toList))) := by
    rw [InfiniteFile, fileData?_encode]
    decide +kernel
  rintro ⟨loaded, hload⟩
  rw [load_of_infinite hinfinite] at hload
  cases hload

/-! ### The settings of a command -/

/-- The variables of an environment but for one. -/
def Environment.without (env : Environment) (name : String) : Environment :=
  env.filter (·.1 != name)

theorem Environment.get?_without_self (env : Environment) (name : String) :
    (env.without name).get? name = none := by
  rw [get?, without, Option.map_eq_none_iff, List.find?_eq_none]
  intro v hv
  have hne := (List.mem_filter.1 hv).2
  simpa using hne

theorem Environment.get?_without_of_ne (env : Environment) {name other : String}
    (h : other ≠ name) : (env.without name).get? other = env.get? other := by
  rw [get?, without, List.find?_filter, get?]
  congr 2
  funext v
  by_cases he : v.1 = other
  · simp [he, h]
  · simp [he]

/-- Without the variable for the indent size, an environment says the same but for the indent size.
-/
theorem Environment.layer_without_size (env : Environment) :
    (env.without "YINDENT_INDENT_SIZE").layer = { env.layer with size := none } := by
  rw [layer, get?_without_self, get?_without_of_ne env (by decide)]
  rfl

/-- The settings of a command, whatever the file and the variables are. -/
theorem settings_layered {path : Path} {file : Option (Except String Bytes)} {env : Environment}
    {loaded : Loaded} (o : Options) (h : Settings.load path file env = .ok loaded) :
    (∀ s, o.settings loaded.settings = .ok s → 0 < s.size ∧
      s.size = (([o.layer, env.layer, fileLayer file].findSome? Layer.size).map PNat.val).getD
        Settings.standard.size ∧
      s.spacing = (([o.layer, env.layer, fileLayer file].findSome? Layer.spacing).map
        Value.bool).getD Settings.standard.spacing) ∧
    ((∃ fault, o.settings loaded.settings = .error fault) ↔
      o.indent = .blank ∨ ∃ n, o.indent = .set n ∧ n < 1) ∧
    (UnusableFile file → ∃ without, Settings.load path none env = .ok without ∧
      loaded.settings = without.settings) ∧
    ((env.get? "YINDENT_INDENT_SIZE").bind (fun v => sizeOfText v.toList) = none →
      ∃ without, Settings.load path file (env.without "YINDENT_INDENT_SIZE") = .ok without ∧
        loaded.settings = without.settings) := by
  have hloaded : loaded.settings = env.layer.onto ((fileLayer file).onto .standard) :=
    settings_of_load h
  refine ⟨fun s hs => ?_, ?_, fun hunusable => ?_, fun hnone => ?_⟩
  · have hstacked : s = [o.layer, env.layer, fileLayer file].foldr Layer.onto .standard := by
      rcases o.settings_cases loaded.settings with ⟨hok, -, -⟩ | ⟨⟨fault, herror⟩, -⟩
      · rw [hs, hloaded] at hok
        exact Except.ok.inj hok
      · rw [hs] at herror
        cases herror
    refine ⟨s.size_pos, ?_, ?_⟩
    · rw [hstacked, Layer.size_stacked]
    · rw [hstacked, Layer.spacing_stacked]
  · rcases o.settings_cases loaded.settings with ⟨hok, hblank, hset⟩ | ⟨herror, hindent⟩
    · refine ⟨fun ⟨fault, herror⟩ => ?_, ?_⟩
      · rw [hok] at herror
        cases herror
      · rintro (hb | ⟨n, hn, hlt⟩)
        · exact absurd hb hblank
        · exact absurd (hset n hn) (by omega)
    · exact ⟨fun _ => hindent, fun _ => herror⟩
  · obtain ⟨without, hload, hsettings⟩ := exists_load_eq_ok not_infiniteFile_none path env
    refine ⟨without, hload, ?_⟩
    rw [hloaded, hsettings, hunusable.fileLayer_eq]
    rfl
  · obtain ⟨without, hload, hsettings⟩ :=
      exists_load_eq_ok (not_infinite_of_load h) path (env.without "YINDENT_INDENT_SIZE")
    refine ⟨without, hload, ?_⟩
    rw [hloaded, hsettings, env.layer_without_size, Environment.layer, hnone]

/-- The indent size of the file counts, as that of the variable is a word; the spacing is that of
the variable. -/
theorem settings_layered_word : ∃ loaded s,
    Settings.load ⟨"", ["config.toml"]⟩ (some (.ok (Utf8.encode
      "indents = \x7b indent_size = '4', normalize_marker_spacing = false \x7d\n".toList)))
      [("YINDENT_INDENT_SIZE", "two"), ("YINDENT_NORMALIZE_MARKER_SPACING", "Yes")] = .ok loaded ∧
    Options.settings {} loaded.settings = .ok s ∧ s.size = 4 ∧ s.spacing = .bool true := by
  have hdata := fileData?_encode
    "indents = \x7b indent_size = '4', normalize_marker_spacing = false \x7d\n".toList
  obtain ⟨loaded, hload, -⟩ := exists_load_eq_ok (by rw [InfiniteFile, hdata]; decide +kernel)
    ⟨"", ["config.toml"]⟩
    [("YINDENT_INDENT_SIZE", "two"), ("YINDENT_NORMALIZE_MARKER_SPACING", "Yes")]
  obtain ⟨-, hsize, hspacing⟩ := (settings_layered {} hload).1 loaded.settings rfl
  rw [fileLayer, hdata] at hsize hspacing
  refine ⟨loaded, loaded.settings, hload, rfl, ?_, ?_⟩
  · rw [hsize]
    decide +kernel
  · rw [hspacing]
    change _ = ((some true).map Value.bool).getD Settings.standard.spacing
    exact congrArg (fun b => (Option.map Value.bool b).getD Settings.standard.spacing)
      (by decide +kernel)

end YamlIndent
