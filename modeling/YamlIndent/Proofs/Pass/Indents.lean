import Mathlib.Data.List.Chain
import YamlIndent.Proofs.Pass.Blocks
import YamlIndent.Proofs.Stopping

/-!
# Indents next to the margin

An entry whose value opens behind its `-` notes an indent one step left of that value, which may be
left of the margin, but by less than a step. So is then what goes one step inside of it not left of
the margin, as long as the entry itself is not. At the top of a document, where an entry may stand
at the indent in effect, no frame notes an indent, since no document is below an entry.

## Main definitions

* `Kind.below`, `Node.Ranked`: which kinds stand below which.
* `Frame.recorded?`: the indent that a frame notes or shows.
* `InBounds`, `Sound`: indents less than a step left of the margin, and trails that have no others.

## Main results

* `ranked_of_parse`: the trees that are read have their kinds in this order.
* `Sound.neg_step_lt_indentBelow`, `Sound.indentBelow_nonneg`: the indent in effect is in bounds.
* `Sound.placeNode_bounds`, `Sound.below`: what a step notes and hands on is in bounds.
-/

namespace YamlIndent

open Node

variable {style : Style} {n : Node Origin} {trail : List (Frame Int)} {frame : Frame Int}
  {carry : Option Int} {placed : Placed}

/-! ### Kinds below kinds -/

/-- The kinds that may stand right below a node of a kind. -/
def Kind.below : Kind → List Kind
  | stream => [document]
  | document => [scalar, mapping, sequence, documentEnd]
  | mapping => [mappingEntry]
  | sequence => [sequenceEntry]
  | mappingEntry | sequenceEntry => [scalar, mapping, sequence]
  | documentEnd | scalar => []

/-- A node with children that may stand below it, and with no more than one if it is a sequence
entry. -/
def Node.Ranked {α : Type} (n : Node α) : Prop :=
  (∀ m ∈ n.children, m.kind ∈ n.kind.below) ∧ (n.kind = .sequenceEntry → n.children.length ≤ 1)

instance {α : Type} (n : Node α) : Decidable n.Ranked :=
  inferInstanceAs (Decidable (_ ∧ _))

theorem Node.IsBlock.kind_mem {n : Tree} (h : n.IsBlock) :
    n.kind ∈ [Kind.scalar, .mapping, .sequence] := by
  rcases h with h | h
  · rw [h]
    decide
  · rw [isCollection, Kind.isCollection, Bool.or_eq_true, beq_iff_eq, beq_iff_eq] at h
    rcases h with h | h <;> rw [h] <;> decide

/-- A node of the shape that a source text has. -/
theorem Node.Shaped.ranked {n : Tree} (h : n.Shaped) : n.Ranked := by
  rw [Shaped] at h
  rw [Ranked]
  cases hk : n.kind <;> simp only [hk] at h
  case stream =>
    refine ⟨fun m hm => ?_, nofun⟩
    rw [h.2.2.2 m hm]
    decide
  case document =>
    obtain ⟨-, block, stop, hc, hstop, -, hblock⟩ := h
    refine ⟨fun m hm => ?_, nofun⟩
    rw [hc, List.mem_append, List.mem_singleton] at hm
    rcases hm with hm | rfl
    · exact List.mem_append_left [Kind.documentEnd] (hblock m hm).1.kind_mem
    · rw [hstop]
      decide
  case mapping | sequence =>
    refine ⟨fun m hm => ?_, nofun⟩
    rw [h.2.2.kind_eq m hm]
    decide
  case mappingEntry =>
    obtain ⟨-, key, value, hc, hkey, -, -, hvalue, -⟩ := h
    refine ⟨fun m hm => ?_, nofun⟩
    rw [hc, List.mem_cons, List.mem_singleton] at hm
    rcases hm with rfl | rfl
    · rw [hkey]
      decide
    · exact hvalue.kind_mem
  case sequenceEntry =>
    obtain ⟨-, value, hc, hvalue⟩ := h
    rw [hc]
    exact ⟨List.forall_mem_singleton.2 hvalue.kind_mem, fun _ => Nat.le_refl 1⟩
  case documentEnd =>
    rw [h.2]
    exact ⟨nofun, nofun⟩
  case scalar =>
    rw [h.2.2]
    exact ⟨nofun, nofun⟩

theorem ranked_untagged (n : Node Origin) : n.untagged.Ranked ↔ n.Ranked := by
  rw [Ranked, Ranked, untagged_eq, untaggedAll_eq_map, List.forall_mem_map, List.length_map]
  simp only [untagged_eq]

/-- The trees that are read have their kinds in this order. -/
theorem ranked_of_parse {source : Text} {t : Tree} (h : parse source = .ok t) :
    ∀ n ∈ t.tagged.preorder, n.Ranked := by
  intro n hn
  have hmem : n.untagged ∈ t.preorder := by
    rw [← untagged_tagged t, untagged, untagged, preorder_mapTag]
    exact List.mem_map_of_mem hn
  exact (ranked_untagged n).1 ((wellFormed_of_parse h).shaped _ hmem).ranked

/-! ### Indents in bounds -/

/-- The indent that a frame notes, or the column that is measured there. -/
def Frame.recorded? (f : Frame Int) : Option Int :=
  f.indent <|> f.column?.map Int.ofNat

theorem indentBelow_eq (f : Frame Int) (trail : List (Frame Int)) :
    indentBelow (f :: trail) = f.recorded?.getD (indentBelow trail) := by
  rw [Frame.recorded?]
  cases hi : f.indent with
  | some i => exact indentBelow_noted hi
  | none =>
    rw [indentBelow_cons hi]
    cases f.column? <;> rfl

theorem recorded?_nonneg (h : frame.indent = none) {i : Int} (hi : frame.recorded? = some i) :
    0 ≤ i := by
  rw [Frame.recorded?, h] at hi
  obtain ⟨column, -, rfl⟩ := Option.map_eq_some_iff.1 hi
  exact Int.natCast_nonneg column

/-- A trail of kinds that may stand below each other, on which entries note indents, and these less
than a step left of the margin. -/
structure Sound (style : Style) (trail : List (Frame Int)) : Prop where
  nested : trail.IsChain fun f above => f.kind ∈ above.kind.below
  entry : ∀ f ∈ trail, f.indent = none ∨ f.kind = .mappingEntry ∨ f.kind = .sequenceEntry
  noted : ∀ f ∈ trail, ∀ i, f.indent = some i → -style.step < i

/-- An indent that is handed on is less than a step left of the margin. -/
def InBounds (style : Style) (indent : Option Int) : Prop :=
  ∀ i, indent = some i → -style.step < i

theorem InBounds.of_none : InBounds style none := nofun

theorem Style.neg_step_lt_of_nonneg (style : Style) {i : Int} (h : 0 ≤ i) : -style.step < i := by
  have := style.step_pos
  omega

namespace Sound

theorem nil : Sound style [] :=
  ⟨.nil, nofun, nofun⟩

theorem tail (h : Sound style (frame :: trail)) : Sound style trail where
  nested := h.nested.tail
  entry f hf := h.entry f (List.mem_cons_of_mem _ hf)
  noted f hf := h.noted f (List.mem_cons_of_mem _ hf)

/-- What is recorded at a frame is less than a step left of the margin. -/
theorem inBounds_recorded (h : Sound style (frame :: trail)) : InBounds style frame.recorded? := by
  intro i hi
  cases hf : frame.indent with
  | none => exact style.neg_step_lt_of_nonneg (recorded?_nonneg hf hi)
  | some j =>
    rw [Frame.recorded?, hf] at hi
    obtain rfl := Option.some.inj hi
    exact h.noted frame List.mem_cons_self j hf

theorem neg_step_lt_indentBelow : {trail : List (Frame Int)} → Sound style trail →
    -style.step < indentBelow trail
  | [], _ => style.neg_step_lt_of_nonneg (Int.le_refl 0)
  | frame :: trail, h => by
    rw [indentBelow_eq]
    cases hi : frame.recorded? with
    | none => exact h.tail.neg_step_lt_indentBelow
    | some i => exact h.inBounds_recorded i hi

/-- No document is below an entry, so none of the frames from a document up notes an indent. -/
theorem indent_eq_none_of_document (h : Sound style (frame :: trail))
    (hk : frame.kind = .document) : ∀ f ∈ frame :: trail, f.indent = none := by
  have hframe : frame.indent = none := by
    rcases h.entry frame List.mem_cons_self with hi | he | he
    · exact hi
    all_goals
      rw [hk] at he
      cases he
  refine List.forall_mem_cons.2 ⟨hframe, ?_⟩
  rcases trail with _ | ⟨g, rest⟩
  · exact nofun
  obtain ⟨hg, hrest⟩ := List.isChain_cons_cons.1 h.nested
  rw [hk] at hg
  have hstream : g.kind = .stream := by
    cases hgk : g.kind <;> rw [hgk] at hg <;> first | rfl | exact absurd hg (by decide)
  rcases rest with _ | ⟨r, rest⟩
  · refine List.forall_mem_singleton.2 ?_
    rcases h.entry g (by simp) with hi | he | he
    · exact hi
    all_goals
      rw [hstream] at he
      cases he
  · have hr := (List.isChain_cons_cons.1 hrest).1
    rw [hstream] at hr
    cases hrk : r.kind <;> rw [hrk] at hr <;> exact absurd hr (by decide)

theorem indent_eq_none_of_atTop (h : Sound style trail) (ht : atTop trail) :
    ∀ f ∈ trail, f.indent = none := by
  rcases trail with _ | ⟨f, _ | ⟨g, rest⟩⟩
  · exact nofun
  · exact h.indent_eq_none_of_document (by simpa [atTop] using ht)
  · by_cases hf : f.kind = .document
    · exact h.indent_eq_none_of_document hf
    · have hg : g.kind = .document := by simpa [atTop, hf] using ht
      refine List.forall_mem_cons.2 ⟨?_, h.tail.indent_eq_none_of_document hg⟩
      have hbelow := (List.isChain_cons_cons.1 h.nested).1
      rw [hg] at hbelow
      rcases h.entry f List.mem_cons_self with hi | he | he
      · exact hi
      all_goals
        rw [he] at hbelow
        exact absurd hbelow (by decide)

/-- At the top of a document the indent in effect is not left of the margin. -/
theorem indentBelow_nonneg (h : Sound style trail) (ht : atTop trail) : 0 ≤ indentBelow trail := by
  have hnone := h.indent_eq_none_of_atTop ht
  clear h ht
  induction trail with
  | nil => exact Int.le_refl 0
  | cons f trail ih =>
    obtain ⟨hf, hs⟩ := List.forall_mem_cons.1 hnone
    rw [indentBelow_eq]
    cases hi : f.recorded? with
    | none => exact ih hs
    | some i => exact recorded?_nonneg hf hi

/-! ### One step -/

variable (h : Sound style trail) (hc : InBounds style carry)

include h hc

theorem neg_step_lt_shared : -style.step < carry.getD (indentBelow trail) := by
  cases carry with
  | none => exact h.neg_step_lt_indentBelow
  | some i => exact hc i rfl

/-- A sequence entry is not left of the margin, and what it hands on is in bounds. -/
theorem startItem_bounds (n : Node Origin) :
    0 ≤ (startItem style trail (indentBelow trail) carry n).2.1 ∧
      InBounds style (startItem style trail (indentBelow trail) carry n).2.2 := by
  have hshared := h.neg_step_lt_shared hc
  have hindent := h.neg_step_lt_indentBelow
  simp only [startItem]
  by_cases hb : hasBreak n.lead = true
  · rw [if_pos hb]
    by_cases ht : atTop trail = true
    · rw [if_pos ht]
      exact ⟨Int.natCast_nonneg _, hc⟩
    · rw [if_neg ht]
      dsimp only
      refine ⟨by omega, fun i hi => ?_⟩
      obtain rfl := Option.some.inj hi
      exact hshared
  · rw [if_neg hb]
    refine ⟨?_, hc⟩
    by_cases ht : atTop trail = true
    · rw [if_pos ht]
      exact h.indentBelow_nonneg ht
    · rw [if_neg ht]
      dsimp only
      omega

omit h hc in
/-- What opens behind the `-` of an entry is right of it. -/
theorem neg_step_lt_itemIndent (style : Style) {column : Int} (hcolumn : 0 ≤ column)
    (n : Node Origin) : -style.step < itemIndent style column n := by
  rw [itemIndent]
  split
  · omega
  · exact style.neg_step_lt_of_nonneg hcolumn

omit hc in
theorem neg_step_lt_placePair (n : Node Origin) :
    -style.step < (placePair style trail (indentBelow trail) n).2 := by
  have hindent := h.neg_step_lt_indentBelow
  simp only [placePair]
  split
  · split
    · exact style.neg_step_lt_of_nonneg (Int.natCast_nonneg _)
    · omega
  · split
    · omega
    · split <;> omega

/-- Only entries note indents, and what a node notes and hands on is in bounds. -/
theorem placeNode_bounds (hp : placeNode style trail carry n = .ok placed) :
    (placed.indent = none ∨ n.kind = .mappingEntry ∨ n.kind = .sequenceEntry) ∧
      InBounds style placed.indent ∧ InBounds style placed.carry := by
  rw [placeNode, placeWith] at hp
  cases hk : n.kind <;> rw [hk] at hp
  case sequenceEntry =>
    obtain ⟨hcolumn, hcarry⟩ := h.startItem_bounds hc n
    obtain ⟨spaced, -, hp⟩ := exists_of_bind_eq_ok hp
    obtain rfl := Except.ok.inj hp
    refine ⟨.inr (.inr rfl), fun i hi => ?_, hcarry⟩
    obtain rfl := Option.some.inj hi
    exact neg_step_lt_itemIndent style hcolumn spaced
  case mappingEntry =>
    obtain rfl := Except.ok.inj hp
    refine ⟨.inr (.inl rfl), fun i hi => ?_, hc⟩
    obtain rfl := Option.some.inj hi
    exact h.neg_step_lt_placePair n
  all_goals
    obtain rfl := Except.ok.inj hp
    exact ⟨.inl rfl, .of_none, hc⟩

/-- The trail below a node in place is sound. -/
theorem below (hn : ∀ f ∈ trail.head?, n.kind ∈ f.kind.below)
    (hp : placeNode style trail carry n = .ok placed) :
    Sound style (⟨n.kind, placed.node.lead, placed.indent⟩ :: trail) := by
  obtain ⟨hentry, hindent, -⟩ := h.placeNode_bounds hc hp
  exact ⟨h.nested.cons hn, List.forall_mem_cons.2 ⟨hentry, h.entry⟩,
    List.forall_mem_cons.2 ⟨hindent, h.noted⟩⟩

end Sound

end YamlIndent
