import YamlIndent.Trail.Forest

/-!
# Recording a measured indent

To resolve a baseline is to go up from a cursor to the nearest that tells an indent: one that notes
it, or one whose node starts its line off the margin. There the column is recorded as the note that
was missing, and is told from then on as a note. No call can see the difference: a recorded note
says what would be measured there, so whatever was resolved before, at whatever cursors and in
whatever order, a call tells the indent that it tells if it is the first.

## Main definitions

* `Cursor.Silent`, `Cursor.Records`: a cursor that tells no indent, and one that has its column
  recorded.
* `Forest.RecordsAt`: a forest with one column recorded, and all else as it was.
* `Forest.Resolves`: what a call tells and what it leaves.
* `Forest.after`: a forest after some calls.

## Main results

* `Forest.up_induction`: induction from a cursor to the one above.
* `Forest.resolves_resolve`: one call in full.
* `Forest.RecordsAt.resolve_eq`: a forest with a column recorded tells the same indents.
* `Forest.resolve_after`: calls are blind to the calls before them.
-/

namespace YamlIndent

variable {α : Type}

/-! ### One cursor -/

namespace Cursor

/-- A cursor that notes no indent, and whose node starts no line or starts it at the margin. -/
def Silent (c : Cursor α) : Prop :=
  c.indent? = none ∧ (hasBreak c.lead = true → indentOf c.lead = 0)

/-- The cursor `d` is `c`, which notes no indent and whose node starts its line at a column off the
margin, with that column for the note of an indent. -/
structure Records (c d : Cursor α) (column : Nat) : Prop where
  unset : c.indent? = none
  startsLine : hasBreak c.lead = true
  column_eq : indentOf c.lead = column
  ne_zero : column ≠ 0
  kind_eq : d.kind = c.kind
  lead_eq : d.lead = c.lead
  parent_eq : d.parent = c.parent
  get?_eq (key : String) :
    d.notes.get? key = if indentKey = key then some (.int column) else c.notes.get? key

/-- A cursor notes an indent, or one can be measured at it, or it tells none. -/
theorem indent_cases (c : Cursor α) : (∃ i, c.indent? = some i) ∨
    (c.indent? = none ∧ hasBreak c.lead = true ∧ indentOf c.lead ≠ 0) ∨ c.Silent := by
  cases hi : c.indent? with
  | some i => exact .inl ⟨i, rfl⟩
  | none =>
    by_cases hc : hasBreak c.lead = true ∧ indentOf c.lead ≠ 0
    · exact .inr (.inl ⟨rfl, hc⟩)
    · exact .inr (.inr ⟨hi, fun hb => Decidable.not_not.1 fun h => hc ⟨hb, h⟩⟩)

theorem column?_eq_none (c : Cursor α) (h : c.Silent) : c.frame.column? = none := by
  refine if_neg fun hc => ?_
  rw [Bool.and_eq_true, bne_iff_ne] at hc
  exact hc.2 (h.2 hc.1)

theorem column?_eq_some (c : Cursor α) (hb : hasBreak c.lead = true)
    (hcolumn : indentOf c.lead ≠ 0) : c.frame.column? = some (indentOf c.lead) := by
  refine if_pos ?_
  rw [Bool.and_eq_true, bne_iff_ne]
  exact ⟨hb, hcolumn⟩

/-- A recorded column is told as a note. -/
theorem Records.indent?_eq {c d : Cursor α} {column : Nat} (h : c.Records d column) :
    d.indent? = some (.int column) := by
  rw [indent?, h.get?_eq, if_pos rfl]

end Cursor

namespace Forest

variable {f g : Forest α} {c : Cursor α} {n : Nat}

/-! ### The way up -/

/-- The cursor above one. -/
def parent? (f : Forest α) (n : Nat) : Option Nat :=
  ((f.get? n).bind (·.parent)).filter (· < n)

/-- The cursors that a call at one comes to, nearest first. -/
def way (f : Forest α) : Option Nat → List Nat
  | none => []
  | some n => f.chain n

theorem way_some (f : Forest α) (n : Nat) : f.way (some n) = n :: f.way (f.parent? n) := by
  rw [way, chain, parent?]
  cases (f.get? n).bind (·.parent) with
  | none => rfl
  | some p => by_cases h : p < n <;> simp [Option.filter, h, way]

theorem way_of_missing (h : f.get? n = none) : f.way (some n) = [n] := by
  rw [way_some, parent?, h]
  rfl

/-- What holds where there is no cursor, and at a cursor if it does at the one above, holds at all
cursors. -/
@[elab_as_elim]
theorem up_induction (f : Forest α) {motive : Option Nat → Prop} (n : Option Nat)
    (none : motive none) (some : ∀ n, motive (f.parent? n) → motive (some n)) : motive n := by
  cases n with
  | none => exact none
  | some n =>
    induction n using Nat.strongRecOn with
    | ind n ih =>
      refine some n ?_
      cases hp : f.parent? n with
      | none => exact none
      | some p => exact ih p (of_decide_eq_true (Option.filter_eq_some_iff.1 hp).2)

theorem line_eq (hc : f.get? n = some c) :
    f.line n = (n, c) :: (f.parent? n).elim [] f.line := by
  have hway : f.chain n = n :: f.way (f.parent? n) := f.way_some n
  rw [line, hway, List.filterMap_cons_some (by rw [hc]; rfl)]
  cases f.parent? n <;> rfl

/-! ### A call, from one cursor to the one above -/

theorem resolve_of_missing (h : f.get? n = none) : f.resolve (some n) = (f, .int 0) := by
  have hway : f.chain n = [n] := way_of_missing h
  have hbasis : f.basisAt n = .margin := by
    rw [basisAt, line, hway, List.filterMap_cons_none (by rw [h]; rfl)]
    rfl
  rw [resolve, hbasis]
  rfl

theorem resolve_of_noted (hc : f.get? n = some c) {i : Note α} (hi : c.indent? = some i) :
    f.resolve (some n) = (f, i) := by
  have hframe : c.frame.indent = some i := hi
  have hbasis : f.basisAt n = .noted i := by
    rw [basisAt, line_eq hc, List.map_cons, basis, hframe]
  rw [resolve, hbasis]
  rfl

theorem resolve_of_measured (hc : f.get? n = some c) (hi : c.indent? = none)
    (hb : hasBreak c.lead = true) (hcolumn : indentOf c.lead ≠ 0) : f.resolve (some n) =
      (f.put n Cursor.indentKey (.int (indentOf c.lead)), .int (indentOf c.lead)) := by
  have hframe : c.frame.indent = none := hi
  have hbasis : f.basisAt n = .measured 0 (indentOf c.lead) := by
    rw [basisAt, line_eq hc, List.map_cons, basis, hframe, c.column?_eq_some hb hcolumn]
  rw [resolve, hbasis, line_eq hc]
  rfl

theorem resolve_of_silent (hc : f.get? n = some c) (hsilent : c.Silent) :
    f.resolve (some n) = f.resolve (f.parent? n) := by
  have hframe : c.frame.indent = none := hsilent.1
  have hbasis : f.basisAt n = ((f.parent? n).elim .margin f.basisAt).below := by
    rw [basisAt, line_eq hc, List.map_cons, basis, hframe, c.column?_eq_none hsilent]
    cases f.parent? n <;> rfl
  rw [resolve, hbasis, line_eq hc]
  cases f.parent? n with
  | none => rfl
  | some p =>
    rw [Option.elim_some, Option.elim_some, resolve]
    cases f.basisAt p <;> rfl

/-! ### A call in full -/

/-- The forest `g` is `f` with the column of one cursor recorded there, and all else as it was. -/
structure RecordsAt (f g : Forest α) (m column : Nat) : Prop where
  exists_records : ∃ c d, f.get? m = some c ∧ g.get? m = some d ∧ c.Records d column
  get?_eq (k : Nat) (h : k ≠ m) : g.get? k = f.get? k

/-- A call at a cursor, or at none, that tells an indent and leaves a forest. -/
inductive Resolves (f : Forest α) (n : Option Nat) : Forest α → Note α → Prop
  /-- The nearest cursor on the way that is not silent notes the indent, and nothing changes. -/
  | noted {before after : List Nat} {m : Nat} {c : Cursor α} {i : Note α}
      (hway : f.way n = before ++ m :: after)
      (hbefore : ∀ k ∈ before, ∀ c ∈ f.get? k, c.Silent)
      (hc : f.get? m = some c) (hi : c.indent? = some i) : Resolves f n f i
  /-- The nearest cursor on the way that is not silent notes no indent, and has its column recorded,
  which is told. -/
  | measured {before after : List Nat} {m column : Nat} {g : Forest α}
      (hway : f.way n = before ++ m :: after)
      (hbefore : ∀ k ∈ before, ∀ c ∈ f.get? k, c.Silent)
      (h : f.RecordsAt g m column) : Resolves f n g (.int column)
  /-- All cursors on the way are silent, and nothing changes. -/
  | margin (h : ∀ k ∈ f.way n, ∀ c ∈ f.get? k, c.Silent) : Resolves f n f (.int 0)

theorem recordsAt_put (hc : f.get? n = some c) (hi : c.indent? = none)
    (hb : hasBreak c.lead = true) (hcolumn : indentOf c.lead ≠ 0) :
    f.RecordsAt (f.put n Cursor.indentKey (.int (indentOf c.lead))) n (indentOf c.lead) where
  exists_records := by
    let d : Cursor α := { c with
      notes := c.notes.put Cursor.indentKey (.int (indentOf c.lead)) }
    have hd : (f.put n Cursor.indentKey (.int (indentOf c.lead))).get? n = some d := by
      rw [get?_put, if_pos rfl, hc, Option.map_some]
    have hnotes (key : String) := c.notes.get?_put Cursor.indentKey key (.int (indentOf c.lead))
    exact ⟨c, d, hc, hd, hi, hb, rfl, hcolumn, rfl, rfl, rfl, hnotes⟩
  get?_eq k hk := by rw [get?_put, if_neg (Ne.symm hk)]

/-- A silent cursor adds nothing to a call at the one above. -/
theorem Resolves.below {i : Note α} (hn : ∀ c ∈ f.get? n, c.Silent)
    (h : f.Resolves (f.parent? n) g i) : f.Resolves (some n) g i := by
  cases h with
  | noted hway hbefore hc hi =>
    refine .noted (by rw [way_some, hway, List.cons_append]) ?_ hc hi
    exact List.forall_mem_cons.2 ⟨hn, hbefore⟩
  | measured hway hbefore h =>
    refine .measured (by rw [way_some, hway, List.cons_append]) ?_ h
    exact List.forall_mem_cons.2 ⟨hn, hbefore⟩
  | margin h =>
    refine .margin ?_
    rw [way_some]
    exact List.forall_mem_cons.2 ⟨hn, h⟩

/-- A call tells the indent of the nearest cursor that is not silent, or the margin, and changes
nothing but that it may record a column at that cursor. -/
theorem resolves_resolve (f : Forest α) (n : Option Nat) :
    f.Resolves n (f.resolve n).1 (f.resolve n).2 := by
  induction n using up_induction f with
  | none => exact .margin nofun
  | some n ih =>
    cases hc : f.get? n with
    | none =>
      rw [resolve_of_missing hc]
      refine .margin ?_
      rw [way_of_missing hc, List.forall_mem_singleton, hc]
      exact nofun
    | some c =>
      have hway : f.way (some n) = [] ++ n :: f.way (f.parent? n) := f.way_some n
      rcases c.indent_cases with ⟨i, hi⟩ | ⟨hi, hb, hcolumn⟩ | hsilent
      · rw [resolve_of_noted hc hi]
        exact .noted hway (List.forall_mem_nil _) hc hi
      · rw [resolve_of_measured hc hi hb hcolumn]
        exact .measured hway (List.forall_mem_nil _) (recordsAt_put hc hi hb hcolumn)
      · rw [resolve_of_silent hc hsilent]
        refine ih.below fun d hd => ?_
        obtain rfl := Option.some.inj (hc.symm.trans hd)
        exact hsilent

/-! ### Calls after calls -/

/-- Forests with the same cursor at a number tell the same indent there, if they do at the cursor
above. -/
theorem resolve_snd_congr (hget : g.get? n = f.get? n)
    (habove : (g.resolve (f.parent? n)).2 = (f.resolve (f.parent? n)).2) :
    (g.resolve (some n)).2 = (f.resolve (some n)).2 := by
  have hparent : g.parent? n = f.parent? n := by rw [parent?, parent?, hget]
  cases hc : f.get? n with
  | none => rw [resolve_of_missing hc, resolve_of_missing (hget.trans hc)]
  | some c =>
    have hd := hget.trans hc
    rcases c.indent_cases with ⟨i, hi⟩ | ⟨hi, hb, hcolumn⟩ | hsilent
    · rw [resolve_of_noted hc hi, resolve_of_noted hd hi]
    · rw [resolve_of_measured hc hi hb hcolumn, resolve_of_measured hd hi hb hcolumn]
    · rw [resolve_of_silent hc hsilent, resolve_of_silent hd hsilent, hparent, habove]

/-- A forest with a column recorded tells the same indents. -/
theorem RecordsAt.resolve_eq {m column : Nat} (h : f.RecordsAt g m column) (n : Option Nat) :
    (g.resolve n).2 = (f.resolve n).2 := by
  induction n using up_induction f with
  | none => rfl
  | some n ih =>
    by_cases hn : n = m
    · -- What was measured here before is found as a note now, and neither call goes further up.
      obtain ⟨c, d, hc, hd, hrecords⟩ := h.exists_records
      rw [← hn] at hc hd
      have hcolumn : indentOf c.lead ≠ 0 := hrecords.column_eq ▸ hrecords.ne_zero
      rw [resolve_of_noted hd hrecords.indent?_eq,
        resolve_of_measured hc hrecords.unset hrecords.startsLine hcolumn, hrecords.column_eq]
    · exact resolve_snd_congr (h.get?_eq n hn) ih

/-- A call changes nothing that another call tells. -/
theorem resolve_resolve (f : Forest α) (n m : Option Nat) :
    ((f.resolve n).1.resolve m).2 = (f.resolve m).2 := by
  have h := f.resolves_resolve n
  generalize (f.resolve n).1 = g, (f.resolve n).2 = i at h ⊢
  cases h with
  | noted | margin => rfl
  | measured _ _ h => exact h.resolve_eq m

/-- The forest after some calls in turn. -/
def after (f : Forest α) : List (Option Nat) → Forest α
  | [] => f
  | n :: calls => (f.resolve n).1.after calls

theorem resolve_after_snd (f : Forest α) (calls : List (Option Nat)) (n : Option Nat) :
    ((f.after calls).resolve n).2 = (f.resolve n).2 := by
  induction calls generalizing f with
  | nil => rfl
  | cons m calls ih => exact (ih (f.resolve m).1).trans (f.resolve_resolve m n)

/-- After any calls at cursors of a forest, or at none, in any order, a call tells what it tells if
it is the first; and it leaves the forest as it finds it, or with the column recorded of one cursor
on its way that noted no indent. -/
theorem resolve_after (f : Forest α) (calls : List (Option Nat)) (n : Option Nat) :
    ((f.after calls).resolve n).2 = (f.resolve n).2 ∧
      (f.after calls).Resolves n ((f.after calls).resolve n).1 (f.resolve n).2 := by
  have htold := f.resolve_after_snd calls n
  refine ⟨htold, ?_⟩
  rw [← htold]
  exact (f.after calls).resolves_resolve n

/-- Two values below an entry at column four, where a null is no note. -/
example :
    let entry : Cursor := ⟨.mappingEntry, "\n    ".toList, none, [("last_indent", .null)]⟩
    let value : Cursor := ⟨.scalar, " ".toList, some 0, [("stop", .bool true)]⟩
    let f : Forest := ⟨#[entry, value, value]⟩
    let recorded : Forest := ⟨#[{ entry with notes := [("last_indent", .int 4)] }, value, value]⟩
    f.resolve (some 2) = (recorded, .int 4) ∧ f.after [none, some 2, some 0] = recorded ∧
      recorded.resolve (some 1) = (recorded, .int 4) := by
  decide +kernel

end Forest

end YamlIndent
