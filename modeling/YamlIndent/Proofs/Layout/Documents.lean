import YamlIndent.Proofs.Layout.Room

/-!
# Documents laid out in a style

The block of a document is laid out from the column that the leads in front of it speak for. That is
the column where it stands, unless it opens on a line that the document did not break: the first
line of the source, or the line of a `---` or a `...`. What is in front of it on that line shifts
it.

## Main definitions

* `Document.layout`: a document laid out.
* `Document.column`, `Document.shift`: the column a block is laid out from, and how much further in
  it stands.

## Main results

* `Document.Laid.layout_iff`: a document that is laid out is read where it is written, if and only
  if its block has room for its shift, and a `...` at its end is still a mark.
-/

namespace YamlIndent

variable {style : Style} {line lead after after' : Text} {d : Document}

namespace Document

/-- The column that the leads in front of a block speak for. -/
def column (d : Document) : Nat :=
  if hasBreak d.block.lead then indentOf d.block.lead
  else if hasBreak d.lead then indentOf d.lead
  else 0

/-- How much further in the block of a document stands than its leads speak for. -/
def shift (line : Text) (d : Document) : Nat :=
  (lineAfter (d.blockLine line) d.block.lead).length - d.column

/-- A document laid out. -/
def layout (style : Style) (d : Document) : Document where
  lead := realignDocument 0 d.lead
  marked := d.marked
  block := d.block.layoutTop style d.column
  endLead := settle d.endLead
  ended := d.ended

@[simp] theorem mark_layout (style : Style) (d : Document) : (d.layout style).mark = d.mark := rfl

end Document

/-! ### How texts begin -/

theorem eq_nil_of_head?_eq {s t : Text} (h : s.head? = t.head?) (ht : t = []) : s = [] := by
  rw [ht] at h
  exact List.head?_eq_none_iff.1 h

theorem endsToken_eq_of_head?_eq {s t : Text} (h : s.head? = t.head?) :
    endsToken s = endsToken t := by
  cases s <;> cases t <;> simp_all [endsToken]

theorem startsToken_eq_of_head?_eq {s t : Text} (h : s.head? = t.head?) :
    startsToken s = startsToken t := by
  cases s <;> cases t <;> simp_all [startsToken]

theorem GapBefore.of_head?_eq {gap s t : Text} (hg : GapBefore gap t) (h : s.head? = t.head?) :
    GapBefore gap s := by
  refine ⟨hg.1, hg.2.imp (eq_nil_of_head?_eq h) fun ht => ⟨ht.1, ?_⟩⟩
  rw [startsToken_eq_of_head?_eq h, ht.2]

theorem head?_append_congr {s s' t t' : Text} (hs : s'.head? = s.head?) (ht : t'.head? = t.head?) :
    (s' ++ t').head? = (s ++ t).head? := by
  rw [List.head?_append, List.head?_append, hs, ht]

theorem head?_append_of_ne_nil {s : Text} (hs : s ≠ []) (t t' : Text) :
    (s ++ t).head? = (s ++ t').head? := by
  cases s with
  | nil => exact absurd rfl hs
  | cons c s => rfl

theorem head?_settle (lead : Text) : (settle lead).head? = lead.head? :=
  head?_realign _ lead

/-- The block of a document that is laid out begins as before. -/
theorem Block.head?_layoutTop {column : Nat} (b : Block) (hs : b.Spelled after)
    (ha : after'.head? = after.head?) :
    ((b.layoutTop style column).written ++ after').head? = (b.written ++ after).head? := by
  cases b with
  | empty => exact ha
  | scalar lead text =>
    rw [layoutTop, written, written]
    exact head?_append_congr (head?_append_congr (head?_settle lead) rfl) ha
  | entries es =>
    rw [Spelled] at hs
    rw [layoutTop, written, written, Entries.written_eq, es.written_eq, Entries.lead_layoutTop,
      Entries.head_layoutTop, List.append_assoc, List.append_assoc, List.append_assoc,
      List.append_assoc]
    exact head?_append_congr (head?_settle es.lead)
      (head?_append_of_ne_nil (source_ne_nil (Entries.spelledAt hs).2) _ _)

/-! ### The block of a document -/

/-- The block of a document is spelled as before where it is laid out. -/
theorem Block.spelled_layoutTop {column : Nat} (b : Block) (hs : b.Spelled after)
    (ho : b.Opens line after) (ha : SameLine after' after) :
    (b.layoutTop style column).Spelled after' := by
  cases b with
  | empty => trivial
  | scalar lead text =>
    have h := hs
    rw [Spelled] at h
    have hne := List.append_ne_nil_of_left_ne_nil h.1 after
    exact spelled_scalar_of_variantOf hs (variantOf_settle hne h.2.1.1) ha
  | entries es => exact es.spelled_layoutTop hs ho.2.2 ha

theorem Entries.overlooks_layoutTop {k : Nat} (style : Style) (column : Nat) :
    (es : Entries) → es.Spelled after → es.Nested k → SameLine after' after →
    es.head.Overlooks ((es.layoutTop style column).tail ++ after') (es.tail ++ after)
  | .last _ head value, hs, hn, ha => head.overlooks_layout value hs.2.2 hn ha
  | .more _ head value others, hs, hn, ha => by
    rw [Spelled] at hs
    rw [Nested] at hn
    rw [layoutTop, tail, tail, List.append_assoc, List.append_assoc]
    refine head.overlooks_layout value hs.2.2.1 hn.1 ?_
    refine others.sameLine_layout _ _ hn.2.1 (variantOf_moveTo hn.2.1 fun h0 => ?_) after' after
    rw [← hn.2.1.indentOf_eq, h0]

/-- No mark of a document stands where a block starts behind some text on its line, and a scalar is
no entry there. -/
def Block.Begins (line after : Text) : Block → Prop
  | .empty => True
  | .scalar lead text => headOf? (text ++ after) = none ∧
      Place.atDocumentMark ⟨lineAfter line lead, text ++ after⟩ = false
  | .entries es =>
    Place.atDocumentMark ⟨lineAfter line es.lead, es.head.source ++ (es.tail ++ after)⟩ = false

theorem Block.Opens.begins {b : Block} (h : b.Opens line after) : b.Begins line after := by
  cases b with
  | empty => trivial
  | scalar => exact h
  | entries => exact h.1

/-- The block of a document that is laid out starts where it stands. -/
theorem Block.begins_layoutTop {column : Nat} (b : Block) (hs : b.Spelled after)
    (ho : b.Opens line after) (ha : SameLine after' after) :
    (b.layoutTop style column).Begins line after' := by
  cases b with
  | empty => trivial
  | scalar lead text =>
    rw [Spelled] at hs
    have hne := List.append_ne_nil_of_left_ne_nil hs.1 after
    have hline := lineAfter_realign (indentOf lead) (hs.2.1.1.all_isBlank_lastLine hne) line
    refine ⟨headOf?_eq_none_of_sameLine (ha.append_left text) ho.1, ?_⟩
    have hm := ho.2
    rw [Place.atDocumentMark_eq] at hm ⊢
    rw [← hm, settle, hline, startsMark_eq_of_sameLine (ha.append_left text)]
  | entries es =>
    rw [Spelled] at hs
    obtain ⟨hm, -, hn⟩ := ho
    have hat := Entries.spelledAt hs
    have hline := lineAfter_realign (indentOf es.lead)
      (hat.1.1.all_isBlank_lastLine hat.source_append_ne_nil) line
    have hmark := ((es.overlooks_layoutTop style column hs hn ha).headOf?_eq hat.2).2
    rw [Place.atDocumentMark_eq] at hm
    rw [layoutTop, Begins, Entries.lead_layoutTop, Entries.head_layoutTop, settle, hline,
      Place.atDocumentMark_eq, hmark]
    exact hm

/-- The block of a document that is laid out opens where it stands, if and only if it has room. -/
theorem Block.opens_layoutTop_iff {column shift : Nat} (b : Block) (hs : b.Spelled after)
    (ho : b.Opens line after) (ha : SameLine after' after)
    (hc : (lineAfter line b.lead).length = column + shift) :
    (b.layoutTop style column).Opens line after' ↔ b.HasRoomTop style shift := by
  have hbegins : (b.layoutTop style column).Begins line after' := b.begins_layoutTop hs ho ha
  cases b with
  | empty => exact Iff.rfl
  | scalar lead text => exact iff_of_true hbegins trivial
  | entries es =>
    rw [Spelled] at hs
    obtain ⟨-, ht, hn⟩ := ho
    have hat := Entries.spelledAt hs
    have hline := lineAfter_realign (indentOf es.lead)
      (hat.1.1.all_isBlank_lastLine hat.source_append_ne_nil) line
    have hcol : Place.column ⟨lineAfter line es.lead, es.head.source ++ (es.tail ++ after)⟩ =
        column + shift := hc
    rw [hcol] at hn
    rw [layoutTop, Begins, Entries.lead_layoutTop, settle, hline] at hbegins
    rw [layoutTop, Opens, HasRoomTop, ← Entries.nested_layoutTop_iff es hn]
    simp only [Entries.lead_layoutTop, settle, hline]
    change _ ∧ _ ∧ (es.layoutTop style column).Nested (lineAfter line es.lead).length ↔ _
    have hc' : (lineAfter line es.lead).length = column + shift := hc
    rw [hc']
    exact ⟨fun h => h.2.2, fun h => ⟨hbegins, ht, h⟩⟩

/-! ### The ends of a document -/

namespace Document

/-- What follows a document that has no mark at its end is nothing, or a document with a mark. -/
def FollowedAlike (d : Document) (after' after : Text) : Prop :=
  d.ended = false → (after' = [] ∧ after = []) ∨ ∃ t t', after = Place.startMark ++ t ∧
    after' = Place.startMark ++ t' ∧ endsToken t ∧ endsToken t'

theorem head?_endText (hf : d.FollowedAlike after' after) :
    (d.endText ++ after').head? = (d.endText ++ after).head? := by
  cases hd : d.ended with
  | true =>
    rw [endText, hd]
    rfl
  | false =>
    rw [endText, hd]
    rcases hf hd with ⟨rfl, rfl⟩ | ⟨t, t', rfl, rfl, -, -⟩ <;> rfl

theorem head?_afterBlock (hf : d.FollowedAlike after' after) :
    ((d.layout style).afterBlock after').head? = (d.afterBlock after).head? :=
  head?_append_congr (head?_settle d.endLead) (head?_endText hf)

theorem head?_afterLead (style : Style) (h : d.Spaced after)
    (hf : d.FollowedAlike after' after) :
    ((d.layout style).afterLead after').head? = (d.afterLead after).head? :=
  head?_append_congr rfl (d.block.head?_layoutTop h.spelled (head?_afterBlock hf))

/-- The line of a block goes on as before where the document is laid out. -/
theorem Laid.sameLine_afterBlock (h : d.Laid line after) (hf : d.FollowedAlike after' after)
    (hb : d.block.children ≠ []) :
    SameLine ((d.layout style).afterBlock after') (d.afterBlock after) := by
  have hlead : SameLine (settle d.endLead) d.endLead := sameLine_realign _ d.endLead
  rcases h.end_cases with he | hm
  · have he' : d.endText ++ after' = [] := eq_nil_of_head?_eq (head?_endText hf) he
    change SameLine (settle d.endLead ++ (d.endText ++ after')) (d.endLead ++ (d.endText ++ after))
    rw [he, he', List.append_nil, List.append_nil]
    exact hlead
  · have hs := (standsAt_zero_of_atDocumentMark
      (Block.lineAfter_written_ne_nil _ h.spelled (.inr hb)) hm).1
    exact .append_of_hasBreak ((hasBreak_realign _ _).trans hs.1) hs.1 hlead _ _

theorem spelled_block_layout (h : d.Laid line after) (hf : d.FollowedAlike after' after) :
    (d.layout style).block.Spelled ((d.layout style).afterBlock after') := by
  by_cases hb : d.block.children = []
  · rw [layout, d.block.children_eq_nil_iff.1 hb]
    trivial
  · exact d.block.spelled_layoutTop h.spelled h.opens (h.sameLine_afterBlock hf hb)

/-- A document that is laid out is spelled as before. -/
theorem Laid.spaced_layout (h : d.Laid line after) (hf : d.FollowedAlike after' after) :
    (d.layout style).Spaced after' where
  gap := gapBefore_realignDocument 0 (h.gap.of_head?_eq (head?_afterLead style h.toSpaced hf))
  spelled := spelled_block_layout h hf
  endGap := gapBefore_realign _ (h.endGap.of_head?_eq (head?_endText hf))

/-! ### The lines of a document -/

theorem Spaced.blockLine_layout (h : d.Spaced after) (hne : d.afterLead after ≠ [])
    (line : Text) : (d.layout style).blockLine line = d.blockLine line := by
  change lineAfter (lineAfter line (realignDocument 0 d.lead)) d.mark = _
  rw [lineAfter_realignDocument 0 (h.gap.all_isBlank_lastLine hne)]
  rfl

theorem indentOf_le_length_lineAfter {lead : Text} (h : hasBreak lead) (line : Text) :
    indentOf lead ≤ (lineAfter line lead).length := by
  rw [lineAfter_of_hasBreak h, List.length_reverse]
  exact List.IsPrefix.length_le (List.takeWhile_prefix isBlank)

theorem hasBreak_mark (d : Document) : hasBreak d.mark = false := by
  unfold mark
  split <;> rfl

/-- A block stands no further out than its leads speak for. -/
theorem column_add_shift (line : Text) (d : Document) :
    (lineAfter (d.blockLine line) d.block.lead).length = d.column + d.shift line := by
  have hle : d.column ≤ (lineAfter (d.blockLine line) d.block.lead).length := by
    rw [column]
    split
    · rename_i hb
      exact indentOf_le_length_lineAfter hb _
    · rename_i hb
      split
      · rename_i hl
        have := indentOf_le_length_lineAfter hl line
        rw [length_lineAfter (eq_false_of_ne_true hb), blockLine,
          length_lineAfter d.hasBreak_mark]
        omega
      · exact Nat.zero_le _
  rw [shift]
  omega

theorem Laid.endLine_eq_nil (h : d.Laid line after) (hne : d.endText ++ after ≠ []) :
    d.endLine line = [] := by
  have hm := h.end_cases.resolve_left hne
  rw [Place.atDocumentMark_eq, Bool.and_eq_true] at hm
  exact List.isEmpty_iff.1 hm.1

/-- A document that is laid out ends at the start of a line if it did before. -/
theorem Laid.endLine_layout_eq_nil (h : d.Laid line after) (hne : d.endText ++ after ≠ []) :
    (d.layout style).endLine line = [] := by
  by_cases hb : d.block.children = []
  · have hempty := d.block.children_eq_nil_iff.1 hb
    have hafter : d.afterLead after ≠ [] := by
      intro he
      rw [afterLead, afterBlock] at he
      simp only [List.append_eq_nil_iff] at he
      exact hne (List.append_eq_nil_iff.2 he.2.2.2)
    have hend := h.endLine_eq_nil hne
    rw [endLine, h.blockLine_layout hafter, layout, hempty]
    rw [endLine, hempty] at hend
    exact (lineAfter_realign _ (h.endGap.all_isBlank_lastLine hne) _).trans hend
  · have hs := (standsAt_zero_of_atDocumentMark
      (Block.lineAfter_written_ne_nil _ h.spelled (.inr hb)) (h.end_cases.resolve_left hne)).1
    exact (hs.realign (indentOf d.endLead)).lineAfter_eq _

/-! ### Documents that are laid where they are laid out -/

theorem Laid.opens_layout_iff (h : d.Laid line after) (hf : d.FollowedAlike after' after) :
    (d.layout style).block.Opens ((d.layout style).blockLine line)
      ((d.layout style).afterBlock after') ↔ d.block.HasRoomTop style (d.shift line) := by
  by_cases hb : d.block.children = []
  · rw [layout, d.block.children_eq_nil_iff.1 hb]
    exact Iff.rfl
  · rw [h.blockLine_layout (h.afterLead_ne_nil hb)]
    exact d.block.opens_layoutTop_iff h.spelled h.opens (h.sameLine_afterBlock hf hb)
      (d.column_add_shift line)

/-- The block of a document that is laid out starts behind what is in front of it. -/
theorem Laid.begins_layout (h : d.Laid line after) (hf : d.FollowedAlike after' after) :
    (d.layout style).block.Begins ((d.layout style).blockLine line)
      ((d.layout style).afterBlock after') := by
  by_cases hb : d.block.children = []
  · rw [layout, d.block.children_eq_nil_iff.1 hb]
    trivial
  · rw [h.blockLine_layout (h.afterLead_ne_nil hb)]
    exact d.block.begins_layoutTop h.spelled h.opens (h.sameLine_afterBlock hf hb)

theorem isGap_lead_block (b : Block) (h : b.Spelled after) : isGap false b.lead := by
  cases b with
  | empty => rfl
  | scalar lead text =>
    rw [Block.Spelled] at h
    exact h.2.1.1.1
  | entries es => exact (Entries.spelledAt h).1.1.1

/-- No mark stands where a block starts without a lead. -/
theorem atDocumentMark_of_begins (b : Block) (hb : b.children ≠ []) (h : b.Begins line after)
    (hl : b.lead = []) : Place.atDocumentMark ⟨line, b.written ++ after⟩ = false := by
  cases b with
  | empty => exact absurd rfl hb
  | scalar lead text =>
    obtain rfl : lead = [] := hl
    exact h.2
  | entries es =>
    have hl' : es.lead = [] := hl
    have hm := h
    rw [Block.Begins, hl'] at hm
    rw [Block.written, es.written_eq, hl', List.nil_append, List.append_assoc]
    exact hm

theorem exists_written_eq (b : Block) : ∃ t, b.written = b.lead ++ t := by
  cases b with
  | empty => exact ⟨[], rfl⟩
  | scalar lead text => exact ⟨text, rfl⟩
  | entries es => exact ⟨_, es.written_eq⟩

theorem lead_layoutTop (style : Style) (column : Nat) (b : Block) :
    (b.layoutTop style column).lead = settle b.lead := by
  cases b with
  | empty => rfl
  | scalar => rfl
  | entries es => exact es.lead_layoutTop

theorem mark_of_not_marked (hm : d.marked = false) : d.mark = [] := by
  rw [mark, hm]
  rfl

theorem atStartMark_nil (line : Text) : Place.atMark Place.startMark ⟨line, []⟩ = false := by
  rw [Place.atMark_eq]
  exact Bool.and_false _

/-- No mark stands where a document without a mark and without a block ends. -/
theorem Laid.not_marked_of_empty (h : d.Laid line after) (hf : d.FollowedAlike after' after)
    (hm : d.marked = false) (hb : d.block = .empty) (hend : d.endLead = []) (line' : Text) :
    Place.atMark Place.startMark ⟨line', d.endText ++ after'⟩ = false := by
  have hmark := mark_of_not_marked hm
  cases hd : d.ended with
  | true =>
    rw [endText, hd, Place.atMark_eq]
    exact Bool.and_false _
  | false =>
    rw [endText, hd, if_neg Bool.false_ne_true, List.nil_append]
    rcases hf hd with ⟨rfl, rfl⟩ | ⟨t, t', rfl, rfl, -, -⟩
    · exact atStartMark_nil line'
    · -- Behind an empty document without a mark of its own there is no other mark.
      have hstops := h.stops
      have hmarked := h.marked_eq
      rw [endLine, blockLine, hb, hend, hmark] at hstops
      rw [afterLead, afterBlock, hb, hend, hmark, endText, hd, hm] at hmarked
      rcases hstops with he | he | he
      · rw [hd] at he
        cases he
      · cases he
      · exact absurd (he.symm.trans hmarked) Bool.false_ne_true.symm

theorem children_layout_ne_nil (style : Style) (hb : d.block.children ≠ []) :
    (d.layout style).block.children ≠ [] := by
  intro he
  rw [Block.children_eq_nil_iff] at he
  refine hb (d.block.children_eq_nil_iff.2 ?_)
  revert he
  cases hd : d.block <;> simp [layout, hd, Block.layoutTop]

/-- A document without a mark has none where it is laid out, either. -/
theorem Laid.not_marked_layout (h : d.Laid line after) (hf : d.FollowedAlike after' after)
    (hm : d.marked = false) :
    Place.atMark Place.startMark
      ⟨lineAfter line (d.layout style).lead, (d.layout style).afterLead after'⟩ = false := by
  have hhead := head?_afterLead style h.toSpaced hf
  have hmark := mark_of_not_marked hm
  by_cases hX : d.afterLead after = []
  · rw [eq_nil_of_head?_eq hhead hX, atStartMark_nil]
  have htoken := h.gap.startsToken hX
  rw [afterLead, hmark, List.nil_append] at htoken
  rw [afterLead, mark_layout, hmark, List.nil_append]
  by_cases hb : d.block.children = []
  · have hempty := d.block.children_eq_nil_iff.1 hb
    rw [hempty, Block.written, List.nil_append] at htoken
    have hend : d.endLead = [] := eq_nil_of_isGap h.endGap.1 htoken
    have hafter : (d.layout style).block.written ++ (d.layout style).afterBlock after' =
        d.endText ++ after' := by
      rw [afterBlock, layout, hempty, hend]
      rfl
    rw [hafter]
    exact h.not_marked_of_empty hf hm hempty hend _
  · obtain ⟨t, ht⟩ := exists_written_eq d.block
    rw [ht, List.append_assoc] at htoken
    have hlead : d.block.lead = [] :=
      eq_nil_of_isGap (isGap_lead_block d.block h.spelled) htoken
    have hm' := atDocumentMark_of_begins _ (children_layout_ne_nil style hb)
      (h.begins_layout hf) (by
      change (d.block.layoutTop style d.column).lead = []
      rw [lead_layoutTop, hlead]
      rfl)
    rw [Place.atDocumentMark_eq_or, Bool.or_eq_false_iff, blockLine, mark_layout, hmark] at hm'
    exact hm'.1

/-- A document with a mark has it where it is laid out. -/
theorem Laid.marked_layout (h : d.Laid line after) (hf : d.FollowedAlike after' after)
    (hm : d.marked = true) : Place.atMark Place.startMark
      ⟨lineAfter line (d.layout style).lead, (d.layout style).afterLead after'⟩ = true := by
  have hmarked := h.marked_eq
  have hmark : d.mark = Place.startMark := by rw [mark, hm]; rfl
  have hne : d.afterLead after ≠ [] := by
    rw [afterLead, hmark]
    exact List.cons_ne_nil _ _
  have hline : lineAfter line (d.layout style).lead = lineAfter line d.lead :=
    lineAfter_realignDocument 0 (h.gap.all_isBlank_lastLine hne) line
  rw [hm, afterLead, hmark, Place.atMark_append_eq] at hmarked
  rw [hline, afterLead, mark_layout, hmark, Place.atMark_append_eq, ← hmarked]
  congr 1
  exact endsToken_eq_of_head?_eq (d.block.head?_layoutTop h.spelled (head?_afterBlock hf))

/-- A document that is laid out has a mark in front just if it had one. -/
theorem Laid.marked_eq_layout (h : d.Laid line after) (hf : d.FollowedAlike after' after) :
    Place.atMark Place.startMark
      ⟨lineAfter line (d.layout style).lead, (d.layout style).afterLead after'⟩ = d.marked := by
  cases hm : d.marked with
  | false => exact h.not_marked_layout hf hm
  | true => exact h.marked_layout hf hm

theorem Laid.ended_layout (style : Style) (h : d.Laid line after)
    (hf : d.FollowedAlike after' after) (hend : d.ended → endsToken after') :
    Place.atMark Place.endMark ⟨(d.layout style).endLine line, d.endText ++ after'⟩ = d.ended := by
  cases hd : d.ended with
  | true =>
    have hne : d.endText ++ after ≠ [] := by
      rw [endText, hd]
      exact List.cons_ne_nil _ _
    rw [h.endLine_layout_eq_nil hne, endText, hd, if_pos rfl, Place.atMark_append_eq, hend hd]
    rfl
  | false =>
    rw [endText, hd, if_neg Bool.false_ne_true, List.nil_append, Place.atMark_eq]
    rcases hf hd with ⟨rfl, rfl⟩ | ⟨t, t', rfl, rfl, -, -⟩ <;> exact Bool.and_false _

theorem Laid.stops_layout (style : Style) (h : d.Laid line after)
    (hf : d.FollowedAlike after' after) : d.ended ∨ after' = [] ∨
      Place.atMark Place.startMark ⟨(d.layout style).endLine line, after'⟩ := by
  cases hd : d.ended with
  | true => exact .inl rfl
  | false =>
    rcases hf hd with ⟨rfl, rfl⟩ | ⟨t, t', rfl, rfl, -, he⟩
    · exact .inr (.inl rfl)
    · have hne : d.endText ++ (Place.startMark ++ t) ≠ [] := by
        rw [endText, hd]
        exact List.cons_ne_nil _ _
      refine .inr (.inr ?_)
      rw [h.endLine_layout_eq_nil hne, Place.atMark_append_eq, he]
      rfl

/-- A document that is laid out is read where it is written, if and only if its block has room for
its shift and a mark at its end is still one. -/
theorem Laid.layout_iff (style : Style) (h : d.Laid line after)
    (hf : d.FollowedAlike after' after) :
    (d.layout style).Laid line after' ↔
      d.block.HasRoomTop style (d.shift line) ∧ (d.ended → endsToken after') := by
  constructor
  · intro hl
    refine ⟨(h.opens_layout_iff hf).1 hl.opens, fun he => ?_⟩
    have hended := hl.ended_eq
    change Place.atMark Place.endMark ⟨_, d.endText ++ after'⟩ = d.ended at hended
    rw [endText, he, if_pos rfl, Place.atMark, Bool.and_eq_true, List.drop_left] at hended
    exact hended.2
  · rintro ⟨hroom, hend⟩
    have ho := (h.opens_layout_iff hf).2 hroom
    exact ⟨h.spaced_layout hf, h.marked_eq_layout hf, ho, h.ended_layout style hf hend,
      h.stops_layout style hf⟩

end Document

end YamlIndent
