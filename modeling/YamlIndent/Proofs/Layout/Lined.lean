import YamlIndent.Proofs.Layout.Basic

/-!
# Blocks that are lined up

To be laid out, a block has to satisfy less than to be read where it is written: a lead that starts
a line ends on spaces, the entries after the first are at one column, and entries on the line of a
`-` are behind a gap. Columns of different entries are not compared. So a block that was laid out is
lined up even where it is no longer nested, and of two styles it was laid out in the later one
counts.

## Main definitions

* `OnSpaces`: a lead that ends on spaces, if it starts a line.
* `Block.Lined`, `Entries.Lined`: values and entries that are lined up.

## Main results

* `Block.lined_of_inside`, `Entries.lined_of_nested`: what is spelled and nested is lined up.
* `Block.lined_layout`, `Entries.lined_layoutTop`: so is what was laid out.
* `Block.layout_layout`, `Entries.layoutTop_layoutTop`: of two styles the later one counts.
-/

namespace YamlIndent

variable {a b style : Style} {column c d k : Nat} {head : Head} {lead after : Text} {kind : Kind}

/-- A lead that ends on spaces, if it starts a line. -/
def OnSpaces (lead : Text) : Prop :=
  hasBreak lead → ∃ k, StandsAt lead k

mutual

/-- The value of an entry with a head is lined up. -/
def Block.Lined (head : Head) : Block → Prop
  | .empty => True
  | .scalar lead _ => OnSpaces lead
  | .entries es =>
    OnSpaces es.lead ∧ (hasBreak es.lead = false → head = .item ∧ es.lead ≠ []) ∧ ∃ k, es.Lined k

/-- The values of entries are lined up, and the entries after the first are at a column. -/
def Entries.Lined (k : Nat) : Entries → Prop
  | .last _ head value => value.Lined head
  | .more _ head value others => value.Lined head ∧ StandsAt others.lead k ∧ others.Lined k

end

/-! ### What is nested is lined up -/

theorem Head.Holds.onSpaces (h : head.Holds kind column lead) : OnSpaces lead := by
  intro hb
  rw [Holds, if_pos hb] at h
  exact ⟨_, h.1⟩

/-- Entries that do not start a line are behind the gap of a `-`. -/
theorem Head.Holds.item_of_inline {es : Entries} (h : head.Holds es.head.blockKind column es.lead)
    (hat : head.SpelledAt lead (es.written ++ after)) (hs : es.Spelled after)
    (hb : hasBreak es.lead = false) : head = .item ∧ es.lead ≠ [] := by
  rw [Holds, hb, if_neg Bool.false_ne_true] at h
  obtain rfl := h.resolve_left (blockKind_ne_scalar _)
  refine ⟨rfl, fun hl => ?_⟩
  have hends : endsToken (es.written ++ after) := headOf?_item.1 hat.2
  have hfirst := Entries.spelledAt hs
  have hstarts := hfirst.1.1.startsToken hfirst.source_append_ne_nil
  rw [es.written_eq, hl, List.nil_append, List.append_assoc,
    endsToken_eq_false_of_startsToken hstarts] at hends
  cases hends

mutual

/-- A value that is spelled and inside of its entry is lined up. -/
theorem Block.lined_of_inside {head : Head} {k : Nat} {lead after : Text} : (v : Block) →
    head.SpelledAt lead (v.written ++ after) → v.Spelled after → v.Inside head k → v.Lined head
  | .empty, _, _, _ => trivial
  | .scalar .., _, _, hin => Head.Holds.onSpaces hin
  | .entries es, hat, hs, hin => by
    rw [Block.Spelled] at hs
    rw [Block.Inside] at hin
    exact ⟨hin.1.onSpaces, hin.1.item_of_inline hat hs, _, Entries.lined_of_nested es hs hin.2⟩

/-- Entries that are spelled and nested are lined up. -/
theorem Entries.lined_of_nested {k : Nat} {after : Text} : (es : Entries) → es.Spelled after →
    es.Nested k → es.Lined k
  | .last _ _ value, hs, hn => Block.lined_of_inside value hs.1 hs.2.2 hn
  | .more _ _ value others, hs, hn =>
    ⟨Block.lined_of_inside value hs.1 hs.2.2.1 hn.1, hn.2.1,
      Entries.lined_of_nested others hs.2.2.2 hn.2.2.2⟩

end

/-! ### What was laid out is lined up -/

theorem OnSpaces.hasBreak_valueLead (h : OnSpaces lead) (style : Style) (head : Head)
    (column : Nat) : hasBreak (style.valueLead head column lead) = hasBreak lead := by
  rw [Style.valueLead]
  by_cases hb : hasBreak lead
  · obtain ⟨k, hk⟩ := h hb
    rw [if_pos hb, (hk.moveTo _).1, hb]
  · rw [if_neg hb]
    split
    · exact (eq_false_of_ne_true hb).symm
    · rfl

theorem OnSpaces.valueLead (h : OnSpaces lead) (style : Style) (head : Head) (column : Nat) :
    OnSpaces (style.valueLead head column lead) := by
  intro hb
  rw [h.hasBreak_valueLead] at hb
  obtain ⟨k, hk⟩ := h hb
  rw [Style.valueLead, if_pos hb]
  exact ⟨_, hk.moveTo _⟩

theorem valueLead_ne_nil (style : Style) (head : Head) (column : Nat)
    (hb : hasBreak lead = false) (hl : lead ≠ []) : style.valueLead head column lead ≠ [] := by
  rw [Style.valueLead, hb, if_neg Bool.false_ne_true]
  split
  · exact List.cons_ne_nil _ _
  · exact hl

mutual

/-- A value that was laid out is lined up. -/
theorem Block.lined_layout {style : Style} {head : Head} {column : Nat} : (v : Block) →
    v.Lined head → (v.layout style head column).Lined head
  | .empty, _ => trivial
  | .scalar .., h => OnSpaces.valueLead h style head column
  | .entries es, h => by
    rw [Block.Lined] at h
    obtain ⟨hlead, hinline, k, hes⟩ := h
    rw [Block.layout, Block.Lined, Entries.lead_layout, hlead.hasBreak_valueLead]
    exact ⟨hlead.valueLead style head column,
      fun hb => ⟨(hinline hb).1, valueLead_ne_nil style head column hb (hinline hb).2⟩,
      _, Entries.lined_layout es hes⟩

/-- Entries that were laid out are lined up at their column. -/
theorem Entries.lined_layout {style : Style} {column k : Nat} {lead : Text} : (es : Entries) →
    es.Lined k → (es.layout style column lead).Lined column
  | .last _ _ value, h => Block.lined_layout value h
  | .more _ _ value others, h => by
    rw [Entries.Lined] at h
    rw [Entries.layout, Entries.Lined, Entries.lead_layout]
    exact ⟨Block.lined_layout value h.1, h.2.1.moveTo column, Entries.lined_layout others h.2.2⟩

end

/-- The entries at the top of a document that were laid out are lined up where they were. -/
theorem Entries.lined_layoutTop : (es : Entries) → es.Lined k → (es.layoutTop style column).Lined k
  | .last _ _ value, h => value.lined_layout h
  | .more _ _ value others, h => by
    rw [Lined] at h
    rw [layoutTop, Lined, lead_layout, h.2.1.indentOf_eq]
    exact ⟨value.lined_layout h.1, h.2.1.moveTo k, others.lined_layout h.2.2⟩

/-- Entries that start a line at the top of a document are laid out in their column. -/
theorem Entries.layoutTop_of_standsAt (style : Style) (es : Entries) (hl : es.Lined k)
    (hs : StandsAt es.lead k) : es.layoutTop style k = es.layout style k (moveTo k es.lead) := by
  cases es with
  | last lead head value => rw [layoutTop, layout, moveTo_eq_settle hs, Entries.lead]
  | more lead head value others =>
    rw [Lined] at hl
    rw [layoutTop, layout, moveTo_eq_settle hs, Entries.lead, hl.2.1.indentOf_eq]

/-! ### Laying out twice -/

theorem OnSpaces.valueLead_valueLead (h : OnSpaces lead) (hab : a.singleGap → b.singleGap) :
    b.valueLead head d (a.valueLead head c lead) = b.valueLead head d lead := by
  by_cases hb : hasBreak lead
  · obtain ⟨k, hk⟩ := h hb
    rw [Style.valueLead, h.hasBreak_valueLead, Style.valueLead, Style.valueLead, if_pos hb,
      if_pos hb, if_pos hb]
    exact hk.moveTo_moveTo _ _
  · have hlead : a.valueLead head c lead =
        if head = .item ∧ a.singleGap ∧ lead ≠ [] then [' '] else lead := by
      rw [Style.valueLead, if_neg hb]
    rw [hlead]
    split
    · rename_i hs
      rw [Style.valueLead, if_neg (by decide), if_pos ⟨hs.1, hab hs.2.1, List.cons_ne_nil _ _⟩,
        Style.valueLead, if_neg hb, if_pos ⟨hs.1, hab hs.2.1, hs.2.2⟩]
    · rfl

mutual

/-- A value that is laid out in two styles is laid out in the later one. -/
theorem Block.layout_layout {a b : Style} (hab : a.singleGap → b.singleGap) {head : Head}
    {c d : Nat} : (v : Block) → v.Lined head →
    (v.layout a head c).layout b head d = v.layout b head d
  | .empty, _ => rfl
  | .scalar lead text, h => by
    rw [Block.layout, Block.layout, OnSpaces.valueLead_valueLead h hab, Block.layout]
  | .entries es, h => by
    rw [Block.Lined] at h
    obtain ⟨hlead, -, k, hes⟩ := h
    simp only [Block.layout, Entries.lead_layout, hlead.valueLead_valueLead hab,
      Entries.layout_layout hab es hes]

/-- Entries that are laid out in two styles are laid out in the later one. -/
theorem Entries.layout_layout {a b : Style} (hab : a.singleGap → b.singleGap) {c d k : Nat}
    {lead lead' : Text} : (es : Entries) → es.Lined k →
    (es.layout a c lead).layout b d lead' = es.layout b d lead'
  | .last _ head value, h => by
    rw [Entries.Lined] at h
    simp only [Entries.layout, Block.layout_layout hab value h]
  | .more _ head value others, h => by
    rw [Entries.Lined] at h
    obtain ⟨hvalue, hstands, hothers⟩ := h
    simp only [Entries.layout, Block.layout_layout hab value hvalue, Entries.lead_layout,
      hstands.moveTo_moveTo, Entries.layout_layout hab others hothers]

end

/-- The entries at the top of a document that are laid out in two styles are laid out in the later
one. -/
theorem Entries.layoutTop_layoutTop (hab : a.singleGap → b.singleGap) : (es : Entries) →
    es.Lined k → isGap false es.lead →
    (es.layoutTop a c).layoutTop b d = es.layoutTop b d
  | .last lead head value, h, hg => by
    rw [Lined] at h
    rw [Entries.lead] at hg
    simp only [layoutTop, settle_settle hg, value.layout_layout hab h]
  | .more lead head value others, h, hg => by
    rw [Lined] at h
    obtain ⟨hvalue, hstands, hothers⟩ := h
    rw [Entries.lead] at hg
    simp only [layoutTop, settle_settle hg, value.layout_layout hab hvalue, lead_layout,
      hstands.indentOf_eq, (hstands.moveTo k).indentOf_eq, hstands.moveTo_moveTo,
      others.layout_layout hab hothers]

end YamlIndent
