import YamlIndent.Proofs.Layout.Basic

/-!
# Room for a block off its column

The layout of a document takes the first entry of it to be at some column. Where the entry is
further in, by a shift, what goes on later lines is laid out too far left, and it depends on the
step and on the shape of that first entry whether it still belongs where it was.

## Main definitions

* `Block.HasRoom`, `Entries.HasRoom`: a shift leaves what is laid out inside its entry.
* `Block.HasRoomTop`: the same for the block of a document, whose entries after the first are taken
  to be where they are.

## Main results

* `Block.inside_layout_iff`, `Entries.nested_layout_iff`: what is laid out is nested if and only if
  there is room.
* `Block.hasRoom_zero`: without a shift there is room.
-/

namespace YamlIndent

variable {style : Style} {column k : Nat} {head : Head} {lead : Text} {kind : Kind}

/-! ### Room -/

mutual

/-- Where an entry is further in than it is taken to be, its value is still inside of it when it is
laid out. -/
def Block.HasRoom (style : Style) (head : Head) (shift : Nat) : Block → Prop
  | .empty => True
  | .scalar lead _ => hasBreak lead → head.Owns shift style.step .scalar
  | .entries es =>
    if hasBreak es.lead then head.Owns shift style.step es.head.blockKind
    else es.HasRoom style shift

/-- Where the first of some entries is further in than it is taken to be, no others stand in line
with it when they are laid out. -/
def Entries.HasRoom (style : Style) (shift : Nat) : Entries → Prop
  | .last _ head value => value.HasRoom style head shift
  | .more .. => shift = 0

end

mutual

theorem Block.hasRoom_zero {style : Style} {head : Head} : (b : Block) → b.HasRoom style head 0
  | .empty => trivial
  | .scalar lead text => fun _ => .inl style.step_pos
  | .entries es => by
    rw [Block.HasRoom]
    split
    · exact .inl style.step_pos
    · exact Entries.hasRoom_zero es

theorem Entries.hasRoom_zero {style : Style} : (es : Entries) → es.HasRoom style 0
  | .last _ _ value => Block.hasRoom_zero value
  | .more .. => rfl

end

theorem Head.owns_add_iff {shift step : Nat} :
    head.Owns (column + shift) (column + step) kind ↔ head.Owns shift step kind := by
  rw [Owns, Owns, Nat.add_lt_add_iff_left, Nat.add_left_cancel_iff]

/-- The lead of a value that is laid out holds the value if and only if there is room. -/
theorem holds_valueLead_iff {shift : Nat} (h : head.Holds kind k lead) :
    head.Holds kind (column + shift) (style.valueLead head column lead) ↔
      (hasBreak lead → head.Owns shift style.step kind) := by
  have hv : VariantOf (style.valueLead head column lead) lead := variantOf_valueLead h
  by_cases hb : hasBreak lead
  · have hs := valueLead_of_hasBreak style column hb h
    rw [Head.Holds, if_pos hs.1, hs.indentOf_eq, Head.owns_add_iff]
    exact ⟨fun h _ => h.2, fun h => ⟨hs, h hb⟩⟩
  · rw [Head.Holds, if_neg hb] at h
    rw [Head.Holds, hv.hasBreak_eq, if_neg hb]
    exact ⟨fun _ h => absurd h hb, fun _ => h⟩

mutual

/-- A value that is laid out is inside an entry that is further in than it is taken to be, if and
only if there is room. -/
theorem Block.inside_layout_iff {style : Style} {head : Head} {column shift k : Nat} :
    (b : Block) → b.Inside head k →
    ((b.layout style head column).Inside head (column + shift) ↔ b.HasRoom style head shift)
  | .empty, _ => Iff.rfl
  | .scalar lead text, h => by
    rw [Block.Inside] at h
    rw [Block.layout, Block.Inside, Block.HasRoom, holds_valueLead_iff h]
  | .entries es, h => by
    rw [Block.Inside] at h
    obtain ⟨hh, hn⟩ := h
    rw [Block.layout, Block.Inside, Block.HasRoom, Entries.lead_layout, Entries.head_layout,
      holds_valueLead_iff hh]
    by_cases hb : hasBreak es.lead
    · have hs := valueLead_of_hasBreak style column hb hh
      have hnested (c : Nat) (lead : Text) : (es.layout style c lead).Nested (c + 0) :=
        (Entries.nested_layout_iff es hn).2 es.hasRoom_zero
      rw [if_pos hb, innerColumn_of_standsAt hs, innerColumn_of_standsAt hs]
      exact ⟨fun h => h.1 hb, fun h => ⟨fun _ => h, hnested _ _⟩⟩
    · have hv : VariantOf (style.valueLead head column es.lead) es.lead := variantOf_valueLead hh
      have hcol (c : Nat) : innerColumn c (style.valueLead head column es.lead) =
          c + 1 + (style.valueLead head column es.lead).length := by
        rw [innerColumn, hv.hasBreak_eq, if_neg hb]
      have hshift : column + shift + 1 + (style.valueLead head column es.lead).length =
          column + 1 + (style.valueLead head column es.lead).length + shift := by
        omega
      rw [if_neg hb, hcol, hcol, hshift, Entries.nested_layout_iff es hn]
      exact ⟨fun h => h.2, fun h => ⟨fun h => absurd h hb, h⟩⟩

/-- Entries that are laid out are nested further in, if and only if there is room. -/
theorem Entries.nested_layout_iff {style : Style} {column shift k : Nat} {lead : Text} :
    (es : Entries) → es.Nested k →
    ((es.layout style column lead).Nested (column + shift) ↔ es.HasRoom style shift)
  | .last _ head value, h => by
    rw [Entries.Nested] at h
    rw [Entries.layout, Entries.Nested, Entries.HasRoom, Block.inside_layout_iff value h]
  | .more _ head value others, h => by
    rw [Entries.Nested] at h
    obtain ⟨hin, hstands, hkind, hn⟩ := h
    rw [Entries.layout, Entries.Nested, Entries.HasRoom, Entries.lead_layout, Entries.head_layout]
    constructor
    · rintro ⟨-, hs, -⟩
      have := hs.unique (hstands.moveTo column)
      omega
    · rintro rfl
      exact ⟨(Block.inside_layout_iff value hin).2 value.hasRoom_zero, hstands.moveTo column, hkind,
        (Entries.nested_layout_iff others hn).2 others.hasRoom_zero⟩

end

/-- The first entry at the top of a document leaves room for a shift. The entries after it are each
taken to be where they are. -/
def Entries.HasRoomTop (style : Style) (shift : Nat) : Entries → Prop
  | .last _ head value | .more _ head value _ => value.HasRoom style head shift

/-- The block of a document leaves room for a shift. -/
def Block.HasRoomTop (style : Style) (shift : Nat) : Block → Prop
  | .empty | .scalar .. => True
  | .entries es => es.HasRoomTop style shift

theorem Block.hasRoomTop_zero : (b : Block) → b.HasRoomTop style 0
  | .empty | .scalar .. => trivial
  | .entries (.last _ _ value) | .entries (.more _ _ value _) => value.hasRoom_zero

/-- The entries at the top of a document that are laid out are nested where they are, if and only if
there is room. -/
theorem Entries.nested_layoutTop_iff {shift : Nat} : (es : Entries) → es.Nested (column + shift) →
    ((es.layoutTop style column).Nested (column + shift) ↔ es.HasRoomTop style shift)
  | .last _ head value, h => by
    rw [Nested] at h
    rw [layoutTop, Nested, HasRoomTop, value.inside_layout_iff h]
  | .more _ head value others, h => by
    rw [Nested] at h
    obtain ⟨hin, hstands, hkind, hn⟩ := h
    have hothers (c : Nat) (lead : Text) : (others.layout style c lead).Nested (c + 0) :=
      (others.nested_layout_iff hn).2 others.hasRoom_zero
    rw [layoutTop, Nested, HasRoomTop, value.inside_layout_iff hin, lead_layout, head_layout,
      hstands.indentOf_eq]
    exact ⟨fun h => h.1, fun h => ⟨h, hstands.moveTo _, hkind, hothers _ _⟩⟩

end YamlIndent
