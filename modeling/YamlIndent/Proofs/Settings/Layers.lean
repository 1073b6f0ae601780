import Mathlib.Data.PNat.Notation
import YamlIndent.Command.Options
import YamlIndent.Results
import YamlIndent.Settings.Load

/-!
# What each source of settings says

A source of settings says a layer: for each setting a value that can be used, or nothing. Under
layers, each setting has the value of the highest layer that says one. A configuration file is a
layer as a whole: with one value that cannot be used, it says nothing at all.

## Main definitions

* `Layer`, `Layer.onto`: what a source of settings says, and the settings under it.
* `dataLayer`, `fileLayer`, `Environment.layer`, `Options.layer`: what each of the sources says.
* `UnusableFile`: a configuration file that cannot be used for what it holds.
* `InfiniteFile`: a configuration file with an infinite indent size.

## Main results

* `Layer.size_stacked`, `Layer.spacing_stacked`: the highest layer that says a setting decides it.
* `Settings.applyData_cases`: configuration data lies over the settings, or cannot be used.
* `Settings.applyEnvironment_eq`: the variables of an environment lie over the settings.
* `Options.settings_cases`: a command line lies over the settings, or is refused.
-/

namespace YamlIndent

open Utf8 (Bytes)

/-! ### Layers -/

/-- What a source of settings says: for each setting a value that can be used, or nothing. -/
structure Layer where
  size : Option ℕ+ := none
  spacing : Option Bool := none

namespace Layer

/-- The settings where a layer lies over others. -/
def onto (l : Layer) (s : Settings) : Settings where
  size := (l.size.map PNat.val).getD s.size
  spacing := (l.spacing.map Value.bool).getD s.spacing
  size_pos := by
    cases l.size with
    | none => exact s.size_pos
    | some n => exact n.property

@[simp]
theorem onto_size (l : Layer) (s : Settings) :
    (l.onto s).size = (l.size.map PNat.val).getD s.size := rfl

@[simp]
theorem onto_spacing (l : Layer) (s : Settings) :
    (l.onto s).spacing = (l.spacing.map Value.bool).getD s.spacing := rfl

/-- A layer that says nothing leaves the settings as they are. -/
theorem onto_empty (s : Settings) : onto {} s = s := rfl

/-- Under layers, the first on top, the indent size is that of the highest layer that says one. -/
theorem size_stacked (layers : List Layer) (s : Settings) :
    (layers.foldr onto s).size = ((layers.findSome? size).map PNat.val).getD s.size := by
  induction layers with
  | nil => rfl
  | cons l layers ih =>
    rw [List.foldr_cons, List.findSome?_cons, onto_size, ih]
    cases l.size <;> rfl

/-- Under layers, the first on top, the spacing is that of the highest layer that says one. -/
theorem spacing_stacked (layers : List Layer) (s : Settings) :
    (layers.foldr onto s).spacing =
      ((layers.findSome? spacing).map Value.bool).getD s.spacing := by
  induction layers with
  | nil => rfl
  | cons l layers ih =>
    rw [List.foldr_cons, List.findSome?_cons, onto_spacing, ih]
    cases l.spacing <;> rfl

end Layer

/-! ### What each source says -/

theorem toNat_pos {n : Int} (h : 1 ≤ n) : 0 < n.toNat := by
  omega

/-- The indent size that an integer stands for, if it is at least 1. -/
def sizeOfInteger (n : Int) : Option ℕ+ :=
  if h : 1 ≤ n then some ⟨n.toNat, toNat_pos h⟩ else none

theorem sizeOfInteger_eq_none_iff {n : Int} : sizeOfInteger n = none ↔ n < 1 := by
  unfold sizeOfInteger
  split
  · exact ⟨nofun, by omega⟩
  · exact ⟨fun _ => by omega, fun _ => rfl⟩

/-- The indent size that a text writes. -/
def sizeOfText (t : Text) : Option ℕ+ :=
  (readInteger t).toOption.bind sizeOfInteger

/-- The indent size that a value in a configuration file stands for. -/
def Value.size? (v : Value) : Option ℕ+ :=
  v.toInteger.toOption.bind sizeOfInteger

/-- What the fields of the table of settings say: nothing if the indent size cannot be used. Any
value can be used for the spacing. -/
def fieldsLayer (fields : List (Text × Value)) : Layer :=
  let spacing := (Value.field? spacingName fields).map Value.truthy
  match Value.field? sizeName fields with
  | none => { spacing }
  | some v =>
    match v.size? with
    | some n => { size := some n, spacing }
    | none => {}

/-- What configuration data says: nothing if the settings are not in a table. -/
def dataLayer (data : List (Text × Value)) : Layer :=
  match Value.field? sectionName data with
  | some (.table fields) => fieldsLayer fields
  | some _ | none => {}

/-- The data of a configuration file that can be read and parsed. -/
def fileData? : Option (Except String Bytes) → Option (List (Text × Value))
  | some (.ok bytes) =>
    (Utf8.decode bytes).toOption.bind fun text => (Toml.readDocument text).toOption
  | some (.error _) | none => none

/-- What a configuration file says. -/
def fileLayer (file : Option (Except String Bytes)) : Layer :=
  ((fileData? file).map dataLayer).getD {}

/-- What the variables of an environment say. -/
def Environment.layer (env : Environment) : Layer where
  size := (env.get? "YINDENT_INDENT_SIZE").bind fun v => sizeOfText v.toList
  spacing := (env.get? "YINDENT_NORMALIZE_MARKER_SPACING").map fun v =>
    Settings.onWords.contains (lower v.toList)

/-- What a command line says. -/
def Options.layer (o : Options) : Layer where
  size := o.indent.get?.bind sizeOfInteger
  spacing := if o.keepGaps then some false else none

/-! ### What cannot be used -/

theorem readInteger_ne_infinite (t : Text) : readInteger t ≠ .error .infinite := by
  intro h
  unfold readInteger at h
  split at h
  split at h
  · cases h
  · split at h
    · cases h
    · split at h <;> cases h

/-- Whether a value is an infinite number. -/
def Value.isInfinite : Value → Bool
  | float (.infinite _) => true
  | _ => false

/-- Only an infinite value is beyond all integers. -/
theorem toInteger_eq_infinite_iff {v : Value} :
    v.toInteger = .error .infinite ↔ v.isInfinite := by
  refine ⟨fun h => ?_, fun h => ?_⟩
  · cases v with
    | float x =>
      cases x with
      | infinite => rfl
      | notANumber | finite => cases h
    | string t => exact absurd h (readInteger_ne_infinite t)
    | null | bool | int | array | table | moment => cases h
  · unfold Value.isInfinite at h
    split at h
    · rfl
    · cases h

/-- Settings that cannot be used: they are not in a table, or their indent size stands for none. -/
def Value.Unusable : Value → Prop
  | table fields => ∃ v ∈ field? sizeName fields, v.size? = none
  | _ => True

/-- Settings with an infinite indent size. -/
def Value.Infinite : Value → Prop
  | table fields => ∃ v ∈ field? sizeName fields, v.isInfinite
  | _ => False

/-- A configuration file that cannot be used: it cannot be read or parsed, or its settings cannot be
used. -/
def UnusableFile (file : Option (Except String Bytes)) : Prop :=
  file.isSome ∧ ∀ data ∈ fileData? file, ∃ given ∈ Value.field? sectionName data, given.Unusable

/-- A configuration file with an infinite indent size. -/
def InfiniteFile (file : Option (Except String Bytes)) : Prop :=
  ∃ data ∈ fileData? file, ∃ given ∈ Value.field? sectionName data, given.Infinite

instance : DecidablePred Value.Unusable
  | .table fields =>
    inferInstanceAs (Decidable (∃ v ∈ Value.field? sizeName fields, v.size? = none))
  | .null | .bool _ | .int _ | .float _ | .string _ | .array _ | .moment _ => .isTrue trivial

instance : DecidablePred Value.Infinite
  | .table fields =>
    inferInstanceAs (Decidable (∃ v ∈ Value.field? sizeName fields, v.isInfinite))
  | .null | .bool _ | .int _ | .float _ | .string _ | .array _ | .moment _ => .isFalse not_false

instance : DecidablePred UnusableFile := fun file =>
  inferInstanceAs (Decidable (file.isSome ∧ ∀ data ∈ fileData? file,
    ∃ given ∈ Value.field? sectionName data, given.Unusable))

instance : DecidablePred InfiniteFile := fun file =>
  inferInstanceAs (Decidable (∃ data ∈ fileData? file,
    ∃ given ∈ Value.field? sectionName data, given.Infinite))

theorem Value.unusable_of_ne_table {v : Value} (h : ∀ fields, v ≠ table fields) : v.Unusable := by
  cases v with
  | table fields => exact absurd rfl (h fields)
  | _ => trivial

theorem dataLayer_of_unusable {data : List (Text × Value)} {given : Value}
    (hgiven : given ∈ Value.field? sectionName data) (h : given.Unusable) :
    dataLayer data = {} := by
  rw [dataLayer, hgiven]
  cases given with
  | table fields =>
    obtain ⟨v, hv, hnone⟩ := h
    rw [Option.mem_def] at hv
    simp only [fieldsLayer, hv, hnone]
  | _ => rfl

theorem not_infiniteFile_none : ¬InfiniteFile none := nofun

/-- A file that cannot be used says nothing. -/
theorem UnusableFile.fileLayer_eq {file : Option (Except String Bytes)} (h : UnusableFile file) :
    fileLayer file = {} := by
  unfold fileLayer
  cases hdata : fileData? file with
  | none => rfl
  | some data =>
    obtain ⟨given, hgiven, hunusable⟩ := h.2 data hdata
    exact dataLayer_of_unusable hgiven hunusable

/-! ### Each source lies over the settings -/

namespace Settings

variable {s t : Settings} {n : Int}

theorem withSize_of_some {size : ℕ+} (h : sizeOfInteger n = some size) :
    s.withSize n = .ok (Layer.onto { size := some size } s) := by
  unfold sizeOfInteger at h
  split at h
  case isTrue hn =>
    cases h
    rw [withSize, dif_pos hn]
    rfl
  case isFalse => cases h

theorem withSize_of_none (h : sizeOfInteger n = none) : s.withSize n = .error (.belowOne n) := by
  unfold sizeOfInteger at h
  split at h
  case isTrue => cases h
  case isFalse hn => rw [withSize, dif_neg hn]

theorem applySize_eq (given : Option String) (s : Settings) :
    s.applySize given = Layer.onto { size := given.bind fun v => sizeOfText v.toList } s := by
  cases given with
  | none => rfl
  | some v =>
    simp only [applySize, Option.map_some, Option.bind_some, sizeOfText]
    cases readInteger v.toList with
    | error => rfl
    | ok n =>
      simp only [Except.toOption, Option.bind_some]
      cases h : sizeOfInteger n with
      | none => rw [withSize_of_none h]; rfl
      | some size => rw [withSize_of_some h]; rfl

/-- The variables of an environment lie over the settings. -/
theorem applyEnvironment_eq (env : Environment) (s : Settings) :
    s.applyEnvironment env = env.layer.onto s := by
  rw [applyEnvironment, applySize_eq]
  unfold applySpacing Environment.layer
  cases env.get? "YINDENT_NORMALIZE_MARKER_SPACING" <;> rfl

theorem settingOf_table (name : Text) (fields : List (Text × Value)) :
    settingOf name (.table fields) = .ok (Value.field? name fields) := rfl

/-- What is no table has no settings, and may even be refused. -/
theorem settingOf_cases (name : Text) {given : Value} (h : ∀ fields, given ≠ .table fields) :
    settingOf name given = .ok none ∨
      ∃ fault, fault ≠ .integer .infinite ∧ settingOf name given = .error fault := by
  cases given with
  | table fields => exact absurd rfl (h fields)
  | string t =>
    by_cases ht : occursIn name t
    · exact .inr ⟨.textField, nofun, if_pos ht⟩
    · exact .inl (if_neg ht)
  | array items =>
    by_cases hi : items.any (Value.isText name)
    · exact .inr ⟨.arrayField, nofun, if_pos hi⟩
    · exact .inl (if_neg hi)
  | null | bool | int | float | moment =>
    refine .inr ⟨_, ?_, rfl⟩
    nofun

/-- A table sets the spacing, and then the indent size if it can. -/
theorem applyData_table {data fields : List (Text × Value)}
    (h : Value.field? sectionName data = some (.table fields)) (s : Settings) :
    s.applyData data =
      let t := Layer.onto { spacing := (Value.field? spacingName fields).map Value.truthy } s
      match Value.field? sizeName fields with
      | none => .ok t
      | some v => v.toInteger.mapError .integer >>= fun n => (t.withSize n).mapError .setting := by
  rw [applyData, h]
  simp only [settingOf_table, ok_bind]
  cases Value.field? sizeName fields with
  | none => cases Value.field? spacingName fields <;> rfl
  | some v =>
    rw [Option.mapM_some]
    dsimp only
    cases v.toInteger <;> cases Value.field? spacingName fields <;> rfl

section

variable {data : List (Text × Value)} {given : Value}

theorem applyData_of_infinite (hgiven : given ∈ Value.field? sectionName data) (h : given.Infinite)
    (s : Settings) : s.applyData data = .error (.integer .infinite) := by
  cases given with
  | table fields =>
    obtain ⟨v, hv, hinfinite⟩ := h
    rw [applyData_table hgiven, hv]
    dsimp only
    rw [toInteger_eq_infinite_iff.2 hinfinite]
    rfl
  | _ => exact h.elim

/-- A table of settings lies over the settings as a whole, or is refused as a whole. -/
theorem applyData_table_cases {fields : List (Text × Value)}
    (hgiven : Value.field? sectionName data = some (.table fields))
    (h : ¬(Value.table fields).Infinite) (s : Settings) :
    s.applyData data = .ok ((dataLayer data).onto s) ∨ (Value.table fields).Unusable ∧
      ∃ fault, fault ≠ .integer .infinite ∧ s.applyData data = .error fault := by
  rw [applyData_table hgiven, dataLayer, hgiven]
  dsimp only [fieldsLayer]
  cases hv : Value.field? sizeName fields with
  | none => exact .inl rfl
  | some v =>
    have hunusable (hnone : v.size? = none) : (Value.table fields).Unusable := ⟨v, hv, hnone⟩
    cases hn : v.toInteger with
    | error fault =>
      dsimp only
      rw [hn, mapError_error, error_bind]
      refine .inr ⟨hunusable (by rw [Value.size?, hn]; rfl), .integer fault, ?_, rfl⟩
      rintro ⟨⟩
      exact h ⟨v, hv, toInteger_eq_infinite_iff.1 hn⟩
    | ok n =>
      have hsize : v.size? = sizeOfInteger n := by rw [Value.size?, hn]; rfl
      dsimp only
      rw [hn, mapError_ok, ok_bind, hsize]
      cases hpos : sizeOfInteger n with
      | none =>
        rw [withSize_of_none hpos]
        exact .inr ⟨hunusable (hsize.trans hpos), .setting (.belowOne n), nofun, rfl⟩
      | some size =>
        rw [withSize_of_some hpos]
        exact .inl rfl

/-- Settings that are in no table are refused, or say nothing. -/
theorem applyData_other_cases (hgiven : Value.field? sectionName data = some given)
    (h : ∀ fields, given ≠ .table fields) (s : Settings) :
    s.applyData data = .ok s ∨
      ∃ fault, fault ≠ .integer .infinite ∧ s.applyData data = .error fault := by
  rw [applyData, hgiven]
  dsimp only
  rcases settingOf_cases sizeName h with hsize | ⟨fault, hne, hsize⟩
  · rcases settingOf_cases spacingName h with hspacing | ⟨fault, hne, hspacing⟩
    · rw [hsize, hspacing]
      exact .inl rfl
    · rw [hsize, hspacing]
      exact .inr ⟨fault, hne, rfl⟩
  · rw [hsize]
    exact .inr ⟨fault, hne, rfl⟩

/-- Configuration data lies over the settings, or cannot be used and is refused. -/
theorem applyData_cases (h : ∀ given ∈ Value.field? sectionName data, ¬given.Infinite)
    (s : Settings) :
    s.applyData data = .ok ((dataLayer data).onto s) ∨
      (∃ given ∈ Value.field? sectionName data, given.Unusable) ∧
        ∃ fault, fault ≠ .integer .infinite ∧ s.applyData data = .error fault := by
  cases hgiven : Value.field? sectionName data with
  | none =>
    rw [applyData, dataLayer, hgiven]
    exact .inl rfl
  | some given =>
    by_cases htable : ∃ fields, given = .table fields
    · obtain ⟨fields, rfl⟩ := htable
      rcases applyData_table_cases hgiven (h _ hgiven) s with hok | ⟨hunusable, herror⟩
      · exact .inl hok
      · exact .inr ⟨⟨_, rfl, hunusable⟩, herror⟩
    · have hother : ∀ fields, given ≠ .table fields := fun fields he => htable ⟨fields, he⟩
      have hunusable : given.Unusable := Value.unusable_of_ne_table hother
      rcases applyData_other_cases hgiven hother s with hok | herror
      · rw [hok, dataLayer_of_unusable hgiven hunusable, Layer.onto_empty]
        exact .inl rfl
      · exact .inr ⟨⟨given, rfl, hunusable⟩, herror⟩

end

end Settings

/-- A command line lies over the settings, unless its indent size is refused. -/
theorem Options.settings_cases (o : Options) (s : Settings) :
    o.settings s = .ok (o.layer.onto s) ∧ o.indent ≠ .blank ∧ (∀ n, o.indent = .set n → 1 ≤ n) ∨
      (∃ fault, o.settings s = .error fault) ∧
        (o.indent = .blank ∨ ∃ n, o.indent = .set n ∧ n < 1) := by
  have hspacing : (if o.keepGaps then s.withSpacing (.bool false) else s) =
      Layer.onto { spacing := if o.keepGaps then some false else none } s := by
    cases o.keepGaps <;> rfl
  rw [settings, hspacing, layer]
  cases hindent : o.indent with
  | unset => exact .inl ⟨rfl, nofun, nofun⟩
  | blank => exact .inr ⟨⟨_, rfl⟩, .inl rfl⟩
  | set n =>
    have hget : (Choice.set n).get?.bind sizeOfInteger = sizeOfInteger n := rfl
    rw [hget]
    cases hsize : sizeOfInteger n with
    | none =>
      have hn : n < 1 := sizeOfInteger_eq_none_iff.1 hsize
      exact .inr ⟨⟨_, Settings.withSize_of_none hsize⟩, .inr ⟨n, rfl, hn⟩⟩
    | some size =>
      have hn : ¬n < 1 := fun hlt => by
        rw [sizeOfInteger_eq_none_iff.2 hlt] at hsize
        cases hsize
      refine .inl ⟨Settings.withSize_of_some hsize, nofun, fun m hm => ?_⟩
      cases hm
      omega

end YamlIndent
