import Mathlib.Data.List.Induction
import Mathlib.Data.List.Nodup
import YamlIndent.Format.Registry
import YamlIndent.Proofs.Text.Lower

/-!
# What a registry finds by name

After some registrations a registry holds, in the order in which the names came first, the format
that was registered last under each. Names are kept as they are given, but a key is taken in lower
case before it is looked up. So a name in lower case finds its format, in whatever case it is asked
for; a name with a capital never does as a name, and only an extension may bring its format by.

## Main definitions

* `Registry.registered`: the registry after some registrations.
* `lastNamed`, `inForce`: the format registered last under a name, and those of all names.

## Main results

* `Registry.registered_eq_inForce`: the registry holds the formats in force.
* `Registry.lookup_name_iff`: when a name finds its format.
-/

namespace YamlIndent

variable {α : Type}

/-- The format that was registered last under a name. -/
def lastNamed (name : Text) (fs : List (Format α)) : Option (Format α) :=
  fs.reverse.find? (·.name == name)

/-- The formats that are in force after some registrations: under each name the last one, in the
order in which the names came first. -/
def inForce (fs : List (Format α)) : List (Format α) :=
  (fs.map (·.name)).eraseDups.filterMap fun name => lastNamed name fs

theorem lastNamed_concat (name : Text) (fs : List (Format α)) (f : Format α) :
    lastNamed name (fs ++ [f]) = if f.name == name then some f else lastNamed name fs := by
  rw [lastNamed, List.reverse_append, List.reverse_singleton, List.singleton_append,
    List.find?_cons]
  cases f.name == name <;> rfl

theorem mem_of_lastNamed {name : Text} {fs : List (Format α)} {f : Format α}
    (h : lastNamed name fs = some f) : f ∈ fs ∧ f.name = name :=
  ⟨List.mem_reverse.1 (List.mem_of_find?_eq_some h), by simpa using List.find?_some h⟩

theorem exists_lastNamed {name : Text} {fs : List (Format α)} (h : name ∈ fs.map (·.name)) :
    ∃ f, lastNamed name fs = some f := by
  obtain ⟨f, hf, rfl⟩ := List.mem_map.1 h
  exact Option.isSome_iff_exists.1 (List.find?_isSome.2 ⟨f, List.mem_reverse.2 hf, by simp⟩)

namespace Registry

/-- The registry after some registrations in turn. -/
def registered (fs : List (Format α)) : Registry α :=
  fs.foldl (fun r f => r.register f) []

theorem registered_concat (fs : List (Format α)) (f : Format α) :
    registered (fs ++ [f]) = (registered fs).register f :=
  List.foldl_append

/-! ### One registration -/

theorem find?_register (name : Text) (f : Format α) (r : Registry α) :
    (r.register f).find? (·.name == name) =
      if f.name == name then some f else r.find? (·.name == name) := by
  induction r with
  | nil =>
    rw [register, List.find?_cons]
    cases f.name == name <;> rfl
  | cons g r ih =>
    rw [register]
    by_cases hg : g.name = f.name
    · rw [if_pos (by simpa using hg), List.find?_cons, List.find?_cons, hg]
      cases f.name == name <;> rfl
    · rw [if_neg (by simpa using hg), List.find?_cons, List.find?_cons, ih]
      by_cases hn : g.name = name
      · have hf : (f.name == name) = false := beq_false_of_ne fun h => hg (hn.trans h.symm)
        rw [hn, beq_self_eq_true, hf]
        rfl
      · rw [beq_false_of_ne hn]

/-- A name that is registered again keeps its place. -/
theorem names_register (f : Format α) (r : Registry α) : (r.register f).map (·.name) =
    if f.name ∈ r.map (·.name) then r.map (·.name) else r.map (·.name) ++ [f.name] := by
  induction r with
  | nil => rfl
  | cons g r ih =>
    rw [register]
    by_cases hg : g.name = f.name
    · rw [if_pos (by simpa using hg), if_pos (by simp [hg]), List.map_cons, List.map_cons, hg]
    · have hmem : f.name ∈ (g :: r).map (·.name) ↔ f.name ∈ r.map (·.name) := by
        rw [List.map_cons, List.mem_cons]
        exact or_iff_right fun h => hg h.symm
      rw [if_neg (by simpa using hg), List.map_cons, ih]
      by_cases hr : f.name ∈ r.map (·.name)
      · rw [if_pos hr, if_pos (hmem.2 hr), List.map_cons]
      · rw [if_neg hr, if_neg (mt hmem.1 hr), List.map_cons, List.cons_append]

/-! ### All registrations -/

/-- A name is looked up as it was registered last. -/
theorem find?_registered (name : Text) (fs : List (Format α)) :
    (registered fs).find? (·.name == name) = lastNamed name fs := by
  induction fs using List.reverseRecOn with
  | nil => rfl
  | append_singleton fs f ih => rw [registered_concat, find?_register, ih, lastNamed_concat]

/-- What comes again is left out. -/
theorem eraseDups_concat (names : List Text) (name : Text) : (names ++ [name]).eraseDups =
    if name ∈ names then names.eraseDups else names.eraseDups ++ [name] := by
  rw [List.eraseDups_append]
  by_cases h : name ∈ names
  · have hnone : [name].removeAll names = [] := by simp [h, List.removeAll]
    rw [if_pos h, hnone, List.eraseDups_nil, List.append_nil]
  · have hone : [name].removeAll names = [name] := by simp [h, List.removeAll]
    rw [if_neg h, hone, List.eraseDups_cons, List.filter_nil, List.eraseDups_nil]

/-- The names are in the order in which they came first. -/
theorem names_registered (fs : List (Format α)) :
    (registered fs).map (·.name) = (fs.map (·.name)).eraseDups := by
  induction fs using List.reverseRecOn with
  | nil => rfl
  | append_singleton fs f ih =>
    rw [registered_concat, names_register, ih, List.map_append, List.map_singleton,
      eraseDups_concat]
    simp only [List.mem_eraseDups]

theorem nodup_names_registered (fs : List (Format α)) :
    ((registered fs).map (·.name)).Nodup := by
  induction fs using List.reverseRecOn with
  | nil => exact List.nodup_nil
  | append_singleton fs f ih =>
    rw [registered_concat, names_register]
    split
    · exact ih
    · rename_i h
      rw [← List.concat_eq_append]
      exact ih.concat h

/-- Formats of different names are those that are found by their names. -/
theorem eq_filterMap_names {r : Registry α} (h : (r.map (·.name)).Nodup) :
    r = (r.map (·.name)).filterMap fun name => r.find? (·.name == name) := by
  induction r with
  | nil => rfl
  | cons g r ih =>
    rw [List.map_cons, List.nodup_cons] at h
    let found (name : Text) : Option (Format α) := (g :: r).find? (·.name == name)
    have hself : found g.name = some g := by
      change (g :: r).find? (·.name == g.name) = some g
      rw [List.find?_cons, beq_self_eq_true]
    have hothers : (r.map (·.name)).filterMap found =
        (r.map (·.name)).filterMap fun name => r.find? (·.name == name) := by
      refine List.filterMap_congr fun name hname => ?_
      change (g :: r).find? (·.name == name) = _
      have hne : g.name ≠ name := by
        rintro rfl
        exact h.1 hname
      rw [List.find?_cons, beq_false_of_ne hne]
    change g :: r = (g.name :: r.map (·.name)).filterMap found
    rw [List.filterMap_cons_some hself, hothers, ← ih h.2]

/-- A registry holds the formats in force. -/
theorem registered_eq_inForce (fs : List (Format α)) : registered fs = inForce fs := by
  have h := eq_filterMap_names (nodup_names_registered fs)
  simp only [find?_registered, names_registered] at h
  exact h

/-! ### Looking up -/

theorem lookup_of_named {key : Text} {r : Registry α} {f : Format α}
    (h : r.find? (·.name == lower key) = some f) : r.lookup key = some f := by
  simp only [lookup, h]

theorem lookup_of_not_named {key : Text} {r : Registry α}
    (h : r.find? (·.name == lower key) = none) :
    r.lookup key = r.find? (·.extensions.contains (withDot (lower key))) := by
  simp only [lookup, h]

/-- A name that is not in lower case is not registered in lower case as well, where no two names
differ only in case. -/
theorem lastNamed_lower_eq_none {fs : List (Format α)} {name : Text}
    (hcase : ∀ f ∈ fs, ∀ g ∈ fs, lower f.name = lower g.name → f.name = g.name)
    (hname : name ∈ fs.map (·.name)) (hlow : lower name ≠ name) :
    lastNamed (lower name) fs = none := by
  cases h : lastNamed (lower name) fs with
  | none => rfl
  | some g =>
    obtain ⟨hg, hgname⟩ := mem_of_lastNamed h
    obtain ⟨f, hf, rfl⟩ := List.mem_map.1 hname
    have hsame : g.name = f.name := hcase g hg f hf (by rw [hgname, lower_lower])
    exact absurd (hgname.symm.trans hsame) hlow

/-- After any registrations under names of which no two differ only in case, a registered name in
any case finds the format that was registered last under it if and only if the name is in lower
case, or that format is the first in force with the name for its extension. -/
theorem lookup_name_iff {fs : List (Format α)}
    (hcase : ∀ f ∈ fs, ∀ g ∈ fs, lower f.name = lower g.name → f.name = g.name) {name : Text}
    (hname : name ∈ fs.map (·.name)) :
    ∃ f, lastNamed name fs = some f ∧ ∀ key, lower key = lower name →
      ((registered fs).lookup key = some f ↔ lower name = name ∨
        (inForce fs).find? (·.extensions.contains (withDot (lower name))) = some f) := by
  obtain ⟨f, hf⟩ := exists_lastNamed hname
  refine ⟨f, hf, fun key hkey => ?_⟩
  by_cases hlow : lower name = name
  · have hfound : (registered fs).find? (·.name == lower key) = some f := by
      rw [find?_registered, hkey, hlow, hf]
    exact iff_of_true (lookup_of_named hfound) (.inl hlow)
  · have hnone : (registered fs).find? (·.name == lower key) = none := by
      rw [find?_registered, hkey, lastNamed_lower_eq_none hcase hname hlow]
    rw [lookup_of_not_named hnone, hkey, registered_eq_inForce]
    exact ⟨.inr, fun h => h.resolve_left hlow⟩

/-- A name that is registered twice, next to one with a capital and to an extension of that name. -/
theorem lookup_name_iff_twice :
    let format (name : String) (extensions : List String) (n : Nat) : Format Nat :=
      ⟨name.toList, extensions.map String.toList, fun _ => false, n⟩
    let fs := [format "toml" [".tml"] 0, format "Plain" [".txt"] 1, format "toml" [".plain"] 2]
    (∀ f ∈ fs, ∀ g ∈ fs, lower f.name = lower g.name → f.name = g.name) ∧
      "toml".toList ∈ fs.map (·.name) ∧
      ∃ f, lastNamed "toml".toList fs = some f ∧ ∀ key, lower key = lower "toml".toList →
        ((registered fs).lookup key = some f ↔ lower "toml".toList = "toml".toList ∨
          (inForce fs).find? (·.extensions.contains (withDot (lower "toml".toList))) = some f) := by
  intro format fs
  have hcase : ∀ f ∈ fs, ∀ g ∈ fs, lower f.name = lower g.name → f.name = g.name := by
    decide +kernel
  have hname : "toml".toList ∈ fs.map (·.name) := by decide
  exact ⟨hcase, hname, lookup_name_iff hcase hname⟩

/-- A name with capitals is not found, and finds another format that has it for an extension. -/
theorem lookup_name_fails :
    let capital : Format Nat := ⟨"JSON".toList, [], fun _ => false, 0⟩
    let other : Format Nat := ⟨"other".toList, [".json".toList], fun _ => false, 1⟩
    (registered [capital]).lookup capital.name = none ∧
      (registered [capital, other]).lookup capital.name = some other := by
  intro capital other
  have hnone : ((registered [capital]).lookup capital.name).isNone := by decide +kernel
  have hlow : lower capital.name = "json".toList := by decide +kernel
  refine ⟨Option.isNone_iff_eq_none.1 hnone, ?_⟩
  simp only [lookup, hlow]
  rfl

end Registry

end YamlIndent
