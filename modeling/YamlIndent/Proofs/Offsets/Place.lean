import YamlIndent.Proofs.Offsets.Token

/-!
# Places at offsets

A place stands at an offset of a source when the text in front of the offset is what was read up to
the place. What is scanned at the offset is then what is scanned at the place.

## Main definitions

* `Place.AtOffset`: a place stands at an offset of a source.
* `atOffsets`: what is read at places, by offsets of the source.

## Main results

* `Place.AtOffset.of_reaches`: what leads from a place to another is a slice of the source.
* `Place.AtOffset.skip_eq`, `Place.AtOffset.keyEnd_eq`, `Place.AtOffset.scalarEnd_eq`: the next
  token, and the ends of a key and of a scalar, by offsets.
-/

namespace YamlIndent

open ByOffset

variable {s t : Text} {i : Nat} {p q : Place}

/-- A place stands at an offset of a source. -/
def Place.AtOffset (s : Text) (i : Nat) (p : Place) : Prop :=
  ∃ a, s = a ++ p.rest ∧ p = between a p.rest ∧ i = a.length

/-- What is read at places, by offsets of the source. -/
def atOffsets {α : Type} (s : Text) (r : Except Rejection (α × Place)) :
    Except Failure (α × Nat) :=
  (r.map fun v => (v.1, s.length - v.2.rest.length)).mapError (Rejection.failure s)

theorem atOffsets_bind {α β : Type} {x : Except Rejection (α × Place)}
    {f : α × Place → Except Rejection (β × Place)} {g : α × Nat → Except Failure (β × Nat)}
    (h : ∀ v, x = .ok v → g (v.1, s.length - v.2.rest.length) = atOffsets s (f v)) :
    (atOffsets s x >>= g) = atOffsets s (x >>= f) := by
  cases x with
  | error e => rfl
  | ok v => exact h v rfl

theorem mapError_bind {α β : Type} {x : Except Rejection α}
    {f : α → Except Rejection (β × Place)} {g : α → Except Failure (β × Nat)}
    (h : ∀ v, x = .ok v → g v = atOffsets s (f v)) :
    (x.mapError (Rejection.failure s) >>= g) = atOffsets s (x >>= f) := by
  cases x with
  | error e => rfl
  | ok v => exact h v rfl

namespace Place

theorem atOffset_start (s : Text) : (start s).AtOffset s 0 := ⟨[], rfl, rfl, rfl⟩

namespace AtOffset

theorem length_eq (h : p.AtOffset s i) : s.length = i + p.rest.length := by
  obtain ⟨a, rfl, -, rfl⟩ := h
  rw [List.length_append]

theorem sub_eq (h : p.AtOffset s i) : s.length - p.rest.length = i := by
  rw [h.length_eq, Nat.add_sub_cancel]

theorem lt_iff (h : p.AtOffset s i) : i < s.length ↔ p.atEnd = false := by
  rw [h.length_eq, atEnd, List.isEmpty_eq_false_iff, ← List.length_pos_iff]
  omega

/-- What leads from a place to another is the slice from the offset of the one to that of the
other. -/
theorem of_reaches (h : p.AtOffset s i) (hr : p.Reaches t q) :
    q.AtOffset s (i + t.length) ∧ slice s i (i + t.length) = t := by
  obtain ⟨a, hs, hp, rfl⟩ := h
  have hline : q.line = lineAfter [] (a ++ t) := by
    rw [hr.line_eq, lineAfter_append, hp, between]
  rw [← hr.rest_eq] at hs
  refine ⟨⟨a ++ t, by rw [hs, List.append_assoc], ?_, by rw [List.length_append]⟩, ?_⟩
  · rw [between, ← hline]
  · rw [hs, ← List.length_append]
    exact slice_append a t q.rest

theorem leads (h : p.AtOffset s i) (hl : p.Leads q) : q.AtOffset s (s.length - q.rest.length) := by
  obtain ⟨t, ht⟩ := hl
  have hq := (h.of_reaches ht).1
  rwa [hq.sub_eq]

theorem gap (h : p.AtOffset s i) :
    p.gap.2.AtOffset s (i + p.gap.1.length) ∧ slice s i (i + p.gap.1.length) = p.gap.1 :=
  h.of_reaches p.reaches_gap

/-! ### Tokens at offsets -/

theorem skip_eq (h : p.AtOffset s i) : skip s i = .ok (i + p.gap.1.length) := by
  obtain ⟨a, rfl, -, rfl⟩ := h
  rw [ByOffset.skip_eq, List.length_append]
  rfl

theorem column_eq (h : p.AtOffset s i) :
    ByOffset.column s i = p.checkedColumn.mapError (Rejection.failure s) := by
  obtain ⟨a, hs, hp, rfl⟩ := h
  rw [hs, column_append, ← hp]

theorem isItemAt_eq (h : p.AtOffset s i) : isItemAt s i = .ok p.atItem := by
  obtain ⟨a, hs, hp, rfl⟩ := h
  rw [hs, isItemAt_append, ← hp]

theorem isMarkAt_eq (h : p.AtOffset s i) (mark : Text) :
    isMarkAt mark s i = .ok (p.atMark mark) := by
  obtain ⟨a, hs, hp, rfl⟩ := h
  rw [hs, isMarkAt_append, ← hp]

theorem isDocumentMarkAt_eq (h : p.AtOffset s i) :
    isDocumentMarkAt s i = .ok p.atDocumentMark := by
  obtain ⟨a, hs, hp, rfl⟩ := h
  rw [hs, isDocumentMarkAt_append, ← hp]

theorem keyEnd_eq (h : p.AtOffset s i) (he : p.atEnd = false) :
    keyEnd s i = .ok (if p.atItem || p.atDocumentMark then none
      else (splitKey p.rest).map fun split => i + split.1.length) := by
  obtain ⟨a, hs, hp, rfl⟩ := h
  cases hr : p.rest with
  | nil =>
    rw [atEnd, hr] at he
    cases he
  | cons c t =>
    rw [hr] at hs hp
    rw [hs, keyEnd_append, ← hp]
    simp only [List.length_append]

theorem scalarEnd_eq (h : p.AtOffset s i) (he : p.atEnd = false) :
    scalarEnd s i = (p.scalar.map fun v => i + v.1.length).mapError (Rejection.failure s) := by
  obtain ⟨a, hs, hp, rfl⟩ := h
  cases hr : p.rest with
  | nil =>
    rw [atEnd, hr] at he
    cases he
  | cons c t =>
    rw [hr] at hs hp
    rw [hs, scalarEnd_append, ← hp]
    cases p.scalar with
    | error e => rfl
    | ok v => exact congrArg Except.ok List.length_append

theorem trimEnd_eq {taken rest : Text} (h : p.AtOffset s i) (hr : taken ++ rest = p.rest) :
    trimEnd s i (i + taken.length) = .ok (i + (splitTrailing taken).1.length) := by
  obtain ⟨a, hs, -, rfl⟩ := h
  have ht := trimEnd_of_append_eq (a := a) hr
  rwa [← hs, List.length_append, List.length_append] at ht

/-- What stands behind a place by some text is the slice from the offset by the length of that
text. -/
theorem slice_eq {b t rest : Text} (h : p.AtOffset s i) (hr : b ++ (t ++ rest) = p.rest) :
    slice s (i + b.length) (i + b.length + t.length) = t := by
  obtain ⟨a, hs, -, rfl⟩ := h
  rw [hs, ← hr, ← List.append_assoc, ← List.length_append, ← List.length_append]
  exact slice_append (a ++ b) t rest

end AtOffset

end Place

end YamlIndent
