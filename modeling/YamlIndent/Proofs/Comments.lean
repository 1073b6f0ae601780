import Mathlib.Data.List.Forall2
import YamlIndent.Proofs.InnerBlanks
import YamlIndent.Proofs.Tree.Pieces

/-!
# Comments that are laid out

The comment that a lead begins with, in front of any break, trails what stands in front of the lead.
Where a lead is moved, its first line stays; only the lead of a document is realigned with its first
line. So, piece by piece, a tree that is laid out keeps such comments but for those of documents.

## Main definitions

* `KeepsComment`: a lead with the comment on the first line of another.
* `Piece.KeepsComment`: a piece with the comment that another piece begins with.

## Main results

* `keepsComment_settle`, `keepsComment_moveTo`, `keepsComment_valueLead`: leads that are moved keep
  the comment on their first line.
* `LaidAll.keepsComment_layout`: so do the pieces of documents that are laid out.
-/

namespace YamlIndent

open Node

variable {style : Style} {column k : Nat} {head : Head} {lead lead' rest after line : Text}
  {d : Document}

/-! ### Leads that keep their first line -/

theorem mem_of_mem_firstLine {c : Char} {t : Text} (h : c ∈ firstLine t) : c ∈ t := by
  obtain ⟨rest, -, he⟩ := firstLine_append_rest t
  rw [he]
  exact List.mem_append_left rest h

/-- A lead keeps what stands in it, and the comment on its first line with the blanks in front. It
has no more blanks behind ink than before. -/
structure KeepsComment (lead lead' : Text) : Prop where
  ink_eq : ink lead' = ink lead
  inner_le (b : Bool) : innerBlanks b lead' ≤ innerBlanks b lead
  nil : lead = [] → lead' = []
  comment : '#' ∈ firstLine lead → firstLine lead' = firstLine lead

theorem KeepsComment.refl (lead : Text) : KeepsComment lead lead :=
  ⟨rfl, fun _ => Nat.le_refl _, id, fun _ => rfl⟩

theorem keepsComment_settle (h : isGap false lead) : KeepsComment lead (settle lead) where
  ink_eq := ink_realign _ h
  inner_le b := Nat.le_of_eq (innerBlanks_realign _ h b)
  nil := by
    rintro rfl
    rfl
  comment _ := sameLine_realign _ lead

theorem keepsComment_moveTo (h : StandsAt lead k) (hg : isGap false lead) (d : Nat) :
    KeepsComment lead (moveTo d lead) where
  ink_eq := ink_moveTo h hg d
  inner_le b := Nat.le_of_eq (innerBlanks_moveTo h hg d b)
  nil := by
    rintro rfl
    cases h.1
  comment _ := h.sameLine_moveTo d

theorem keepsComment_valueLead (style : Style) (head : Head) (column : Nat) (h : OnSpaces lead)
    (hg : GapBefore lead rest) (hr : rest ≠ []) :
    KeepsComment lead (style.valueLead head column lead) where
  ink_eq := ink_valueLead style head column h hg hr
  inner_le := innerBlanks_valueLead_le style head column h hg hr
  nil := by
    rintro rfl
    simp [Style.valueLead]
  comment hc := by
    rw [Style.valueLead]
    by_cases hb : hasBreak lead
    · obtain ⟨k, hk⟩ := h hb
      rw [if_pos hb]
      exact hk.sameLine_moveTo _
    · -- A gap on the line of a token is blank, so no comment is there to keep.
      have hmem := hg.not_mem_lastLine hr
      rw [lastLine_of_not_hasBreak (eq_false_of_ne_true hb)] at hmem
      exact absurd (mem_of_mem_firstLine hc) hmem

/-! ### Pieces that keep their comments -/

/-- A piece keeps its text and what stands in its lead, and, unless it begins a document, the
comment on the first line of its lead. The lead of a document is realigned with that comment. -/
structure Piece.KeepsComment (p p' : Piece) : Prop where
  kind_eq : p'.kind = p.kind
  text_eq : p'.text = p.text
  ink_eq : ink p'.lead = ink p.lead
  inner_le (b : Bool) : innerBlanks b p'.lead ≤ innerBlanks b p.lead
  nil : p.lead = [] → p'.lead = []
  comment : p.kind ≠ .document → '#' ∈ firstLine p.lead → firstLine p'.lead = firstLine p.lead
  document : p.kind = .document → p'.lead = realignDocument 0 p.lead

theorem KeepsComment.piece (h : KeepsComment lead lead') {kind : Kind} (hk : kind ≠ .document)
    (text : Text) : Piece.KeepsComment ⟨kind, lead, text⟩ ⟨kind, lead', text⟩ :=
  ⟨rfl, rfl, h.ink_eq, h.inner_le, h.nil, fun _ => h.comment, fun he => absurd he hk⟩

theorem blockKind_ne_document (head : Head) : head.blockKind ≠ .document := by
  cases head <;> exact Kind.noConfusion

theorem KeepsComment.pieces (h : KeepsComment lead lead') (head : Head) :
    List.Forall₂ Piece.KeepsComment (head.pieces lead) (head.pieces lead') := by
  cases head with
  | item => exact .cons (h.piece Kind.noConfusion _) .nil
  | key text indicator =>
    have hnil := KeepsComment.refl []
    exact .cons (h.piece Kind.noConfusion _)
      (.cons (hnil.piece Kind.noConfusion _) (.cons (hnil.piece Kind.noConfusion _) .nil))

theorem KeepsComment.entry (h : KeepsComment lead lead') (head : Head) {value value' : Tree}
    (hv : List.Forall₂ Piece.KeepsComment value.pieces value'.pieces) :
    List.Forall₂ Piece.KeepsComment (head.entry lead value).pieces
      (head.entry lead' value').pieces := by
  rw [head.pieces_entry, head.pieces_entry]
  exact List.rel_append (h.pieces head) hv

mutual

/-- A value keeps its comments where it is laid out. -/
theorem Block.keepsComment_layout {style : Style} {head : Head} {column : Nat} {after : Text} :
    (v : Block) → v.Spelled after → v.Lined head →
    List.Forall₂ Piece.KeepsComment v.tree.pieces (v.layout style head column).tree.pieces
  | .empty, _, _ => .cons ((KeepsComment.refl []).piece Kind.noConfusion _) .nil
  | .scalar lead text, hs, hl => by
    rw [Block.Spelled] at hs
    rw [Block.Lined] at hl
    have hrest := List.append_ne_nil_of_left_ne_nil hs.1 after
    rw [Block.layout, Block.tree, Block.tree, pieces_scalarNode, pieces_scalarNode]
    have hlead := keepsComment_valueLead style head column hl hs.2.1.1 hrest
    exact .cons (hlead.piece Kind.noConfusion _) .nil
  | .entries es, hs, hl => by
    rw [Block.Spelled] at hs
    rw [Block.Lined] at hl
    obtain ⟨hlead, -, k, hes⟩ := hl
    have hat := Entries.spelledAt hs
    have hopening := keepsComment_valueLead style head column hlead hat.1.1 hat.source_append_ne_nil
    rw [Block.layout, Block.pieces_entries, Block.pieces_entries, Entries.head_layout]
    exact .cons ((KeepsComment.refl []).piece (blockKind_ne_document es.head) _)
      (Entries.keepsComment_layout es hs hes hopening)

/-- Entries keep their comments where they are laid out, if their first lead does. -/
theorem Entries.keepsComment_layout {style : Style} {column k : Nat} {lead after : Text} :
    (es : Entries) → es.Spelled after → es.Lined k → KeepsComment es.lead lead →
    List.Forall₂ Piece.KeepsComment (piecesAll es.trees)
      (piecesAll (es.layout style column lead).trees)
  | .last _ head value, hs, hl, hk => by
    rw [Entries.Spelled] at hs
    rw [Entries.Lined] at hl
    rw [Entries.lead] at hk
    simp only [Entries.layout, Entries.trees, piecesAll, List.append_nil]
    exact hk.entry head (Block.keepsComment_layout value hs.2.2 hl)
  | .more _ head value others, hs, hl, hk => by
    rw [Entries.Spelled] at hs
    rw [Entries.Lined] at hl
    rw [Entries.lead] at hk
    obtain ⟨-, -, hvalue, hothers⟩ := hs
    have hmoved := keepsComment_moveTo hl.2.1 (Entries.spelledAt hothers).1.1.1 column
    simp only [Entries.layout, Entries.trees, piecesAll]
    exact List.rel_append (hk.entry head (Block.keepsComment_layout value hvalue hl.1))
      (Entries.keepsComment_layout others hothers hl.2.2 hmoved)

end

theorem Entries.keepsComment_layoutTop : (es : Entries) → es.Spelled after → es.Lined k →
    List.Forall₂ Piece.KeepsComment (piecesAll es.trees)
      (piecesAll (es.layoutTop style column).trees)
  | .last lead head value, hs, hl => by
    have hlead := keepsComment_settle (Entries.spelledAt hs).1.1.1
    rw [Spelled] at hs
    rw [Lined] at hl
    simp only [layoutTop, trees, piecesAll, List.append_nil]
    exact hlead.entry head (value.keepsComment_layout hs.2.2 hl)
  | .more lead head value others, hs, hl => by
    have hlead := keepsComment_settle (Entries.spelledAt hs).1.1.1
    rw [Spelled] at hs
    rw [Lined] at hl
    obtain ⟨-, -, hvalue, hothers⟩ := hs
    have hmoved :=
      keepsComment_moveTo hl.2.1 (Entries.spelledAt hothers).1.1.1 (indentOf others.lead)
    simp only [layoutTop, trees, piecesAll]
    exact List.rel_append (hlead.entry head (value.keepsComment_layout hvalue hl.1))
      (others.keepsComment_layout hothers hl.2.2 hmoved)

theorem Document.Laid.keepsComment_block (style : Style) (h : d.Laid line after) :
    List.Forall₂ Piece.KeepsComment (piecesAll d.block.children)
      (piecesAll (d.block.layoutTop style d.column).children) := by
  have hs := h.spelled
  cases hb : d.block with
  | empty => exact .nil
  | scalar lead text =>
    rw [hb, Block.Spelled] at hs
    simp only [Block.layoutTop, Block.children, Block.tree, piecesAll, pieces_scalarNode]
    exact .cons ((keepsComment_settle hs.2.1.1.1).piece Kind.noConfusion _) .nil
  | entries es =>
    obtain ⟨k, hes⟩ := h.lined.entries hb
    rw [hb] at hs
    simp only [Block.layoutTop, Block.children, piecesAll, List.append_nil, Block.pieces_entries,
      Entries.head_layoutTop]
    exact .cons ((KeepsComment.refl []).piece (blockKind_ne_document es.head) _)
      (es.keepsComment_layoutTop hs hes)

/-- A document keeps its comments where it is laid out, but for one that it begins with. -/
theorem Document.Laid.keepsComment_layout (style : Style) (h : d.Laid line after) :
    List.Forall₂ Piece.KeepsComment d.tree.pieces (d.layout style).tree.pieces := by
  have hnil (he : d.lead = []) : realignDocument 0 d.lead = [] := by
    rw [he]
    rfl
  have hlead : Piece.KeepsComment ⟨.document, d.lead, d.mark⟩
      ⟨.document, (d.layout style).lead, (d.layout style).mark⟩ :=
    ⟨rfl, rfl, ink_realignDocument h.gap.1, innerBlanks_realignDocument_le h.gap.1, hnil,
      fun hk => absurd rfl hk, fun _ => rfl⟩
  rw [pieces_tree, pieces_tree]
  exact .cons hlead (List.rel_append (h.keepsComment_block style)
    (.cons ((keepsComment_settle h.endGap.1).piece Kind.noConfusion _) .nil))

theorem LaidAll.keepsComment_layout (style : Style) : {line : Text} → (ds : List Document) →
    LaidAll line ds →
    List.Forall₂ Piece.KeepsComment (piecesAll (ds.map Document.tree))
      (piecesAll ((ds.map (Document.layout style)).map Document.tree))
  | _, [], _ => .nil
  | _, _ :: ds, h =>
    List.rel_append (h.1.keepsComment_layout style) (keepsComment_layout style ds h.2.2)

end YamlIndent
