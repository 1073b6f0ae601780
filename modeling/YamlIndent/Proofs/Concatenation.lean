import YamlIndent.Proofs.Formatting

/-!
# Streams one after another

A document does not depend on the documents around it. Where one stream ends with a line, and its
last document has a block or a mark, another stream that begins with a mark may be put behind it:
the documents are those of the one and then those of the other, and they are formatted one by one.

The tokens of a document are read on their lines, so they do not see what is put behind the line,
and a mark at the start of a line ends whatever is open.

## Main results

* `Block.spelled_of_sameLine`: a block is spelled by the line on which it ends.
* `Document.Laid.of_sameLine`: a document is laid in front of another text that goes on alike.
* `laidAll_append`: documents are laid behind others.
* `parse_formatText_append`: what is read and formatted of two streams together.
-/

namespace YamlIndent

variable {line lead after after' : Text}

/-! ### Blocks in front of another text -/

theorem Head.overlooks_of_sameLine (head : Head) {rest rest' : Text} (h : SameLine rest' rest) :
    head.Overlooks rest' rest := by
  cases head with
  | item => exact fun he => h.endsToken_eq.trans he
  | key => exact h

theorem Head.SpelledAt.of_sameLine {head : Head} {rest rest' : Text} (h : head.SpelledAt lead rest)
    (hl : SameLine rest' rest) : head.SpelledAt lead rest' :=
  h.of_variantOf (.refl lead) (head.overlooks_of_sameLine hl)

theorem Head.Admits.of_sameLine {head : Head} {value : Block} (h : head.Admits value after)
    (hl : SameLine after' after) : head.Admits value after' := by
  cases value with
  | empty | entries => exact fun _ => trivial
  | scalar lead text =>
    exact fun hor => headOf?_eq_none_of_sameLine (hl.append_left text) (h hor)

mutual

/-- A block is spelled in front of any text that ends its line alike. -/
theorem Block.spelled_of_sameLine {after after' : Text} : (b : Block) → b.Spelled after →
    SameLine after' after → b.Spelled after'
  | .empty, _, _ => trivial
  | .scalar lead text, h, hl => Block.spelled_scalar_of_variantOf h (.refl lead) hl
  | .entries es, h, hl => by
    rw [Block.Spelled] at h ⊢
    exact es.spelled_of_sameLine h hl

/-- Entries are spelled in front of any text that ends their last line alike. -/
theorem Entries.spelled_of_sameLine {after after' : Text} : (es : Entries) → es.Spelled after →
    SameLine after' after → es.Spelled after'
  | .last _ head value, h, hl => by
    rw [Entries.Spelled] at h ⊢
    exact ⟨h.1.of_sameLine (hl.append_left _), h.2.1.of_sameLine hl,
      value.spelled_of_sameLine h.2.2 hl⟩
  | .more _ head value others, h, hl => by
    rw [Entries.Spelled] at h ⊢
    obtain ⟨hat, hadm, hval, hoth⟩ := h
    have hline := hl.append_left others.written
    exact ⟨hat.of_sameLine (hline.append_left _), hadm.of_sameLine hline,
      value.spelled_of_sameLine hval hline, others.spelled_of_sameLine hoth hl⟩

end

theorem Place.atDocumentMark_of_sameLine {rest rest' : Text} (h : SameLine rest' rest) :
    atDocumentMark ⟨line, rest'⟩ = atDocumentMark ⟨line, rest⟩ := by
  rw [atDocumentMark_eq, atDocumentMark_eq, startsMark_eq_of_sameLine h]

theorem Block.opens_of_sameLine (b : Block) (h : b.Opens line after) (hl : SameLine after' after) :
    b.Opens line after' := by
  cases b with
  | empty => trivial
  | scalar lead text =>
    have hline := hl.append_left text
    exact ⟨headOf?_eq_none_of_sameLine hline h.1,
      (Place.atDocumentMark_of_sameLine hline).trans h.2⟩
  | entries es =>
    have hline := (hl.append_left es.tail).append_left es.head.source
    exact ⟨(Place.atDocumentMark_of_sameLine hline).trans h.1, h.2⟩

/-! ### Documents in front of another text -/

namespace Document

variable {d : Document}

/-- A document is laid in front of another text if the line of its block goes on alike, its gaps go
no further, and it ends there. -/
theorem Laid.of_sameLine (h : d.Laid line after)
    (hl : SameLine (d.afterBlock after') (d.afterBlock after))
    (hgap : GapBefore d.lead (d.afterLead after'))
    (hend : GapBefore d.endLead (d.endText ++ after'))
    (hended : Place.atMark Place.endMark ⟨d.endLine line, d.endText ++ after'⟩ = d.ended)
    (hstops : d.ended ∨ after' = [] ∨ Place.atMark Place.startMark ⟨d.endLine line, after'⟩) :
    d.Laid line after' := by
  have hlead : SameLine (d.afterLead after') (d.afterLead after) :=
    (hl.append_left d.block.written).append_left d.mark
  exact ⟨⟨hgap, d.block.spelled_of_sameLine h.spelled hl, hend⟩,
    (Place.atMark_of_sameLine rfl _ hlead).trans h.marked_eq,
    d.block.opens_of_sameLine h.opens hl, hended, hstops⟩

/-- A document that more of its source follows, down to a break, is laid in front of yet more. -/
theorem Laid.append (h : d.Laid line after) (hne : after ≠ []) (hb : hasBreak after) (more : Text) :
    d.Laid line (after ++ more) := by
  have hafter : SameLine (after ++ more) after := by
    rw [SameLine, firstLine_append_of_hasBreak hb]
  have hline := hafter.append_left d.endText
  have hlead : d.afterLead (after ++ more) = d.afterLead after ++ more := by
    simp only [afterLead, afterBlock, List.append_assoc]
  refine h.of_sameLine (hline.append_left d.endLead) ?_ ?_
    ((Place.atMark_of_sameLine rfl _ hline).trans h.ended_eq) ?_
  · rw [hlead]
    refine h.gap.append (fun he => hne ?_) more
    simp only [afterLead, afterBlock, List.append_eq_nil_iff] at he
    exact he.2.2.2.2
  · rw [← List.append_assoc]
    exact h.endGap.append (List.append_ne_nil_of_right_ne_nil _ hne) more
  · refine h.stops.imp_right fun hs => .inr ?_
    exact (Place.atMark_of_sameLine rfl _ hafter).trans (hs.resolve_left hne)

/-- Behind the mark and the block of a document, if it has one of them, the line is begun. -/
theorem Spaced.lineAfter_block_ne_nil (h : d.Spaced after)
    (hc : d.marked ∨ d.block.children ≠ []) (line : Text) :
    lineAfter (d.blockLine line) d.block.written ≠ [] := by
  refine Block.lineAfter_written_ne_nil d.block h.spelled (hc.imp_left fun hm => ?_)
  rw [blockLine, mark, hm]
  exact lineAfter_ne_nil_of_ne_nil rfl (List.cons_ne_nil _ _) _

theorem Spaced.mark_append_written_ne_nil (h : d.Spaced after)
    (hc : d.marked ∨ d.block.children ≠ []) : d.mark ++ d.block.written ≠ [] := by
  intro he
  rw [List.append_eq_nil_iff] at he
  rcases hc with hm | hb
  · rw [mark, hm] at he
    cases he.1
  · have hw : lineAfter [] d.block.written ≠ [] :=
      Block.lineAfter_written_ne_nil d.block h.spelled (.inr hb)
    rw [he.2] at hw
    exact hw rfl

/-- The last document of a source that ends with a line is laid in front of a mark, if it has a mark
or a block. -/
theorem Laid.append_marked (h : d.Laid line []) (hc : d.marked ∨ d.block.children ≠ [])
    (hline : lineAfter line d.written = []) {more : Text}
    (hm : (Place.start more).atMark Place.startMark) : d.Laid line more := by
  obtain ⟨rest, rfl⟩ : ∃ rest, more = Place.startMark ++ rest := ⟨_, (Place.atMark_append hm).symm⟩
  have hended : d.ended = false := by
    cases hd : d.ended with
    | false => rfl
    | true =>
      rw [lineAfter_written, endText, if_pos hd] at hline
      exact absurd hline (lineAfter_ne_nil_of_ne_nil rfl (List.cons_ne_nil _ _) _)
  have htext : d.endText = [] := by rw [endText, hended]; rfl
  have hend : d.endLine line = [] := by rwa [lineAfter_written, htext] at hline
  have hb : hasBreak d.endLead := by
    cases hb : hasBreak d.endLead with
    | true => rfl
    | false => exact absurd hend (lineAfter_ne_nil (h.lineAfter_block_ne_nil hc line) hb)
  have hlast : lastLine d.endLead = [] := by
    rw [endLine, lineAfter_of_hasBreak hb] at hend
    exact List.reverse_eq_nil_iff.1 hend
  refine h.of_sameLine ?_ ?_ ?_ ?_ ?_
  · rw [SameLine, afterBlock, afterBlock, firstLine_append_of_hasBreak hb,
      firstLine_append_of_hasBreak hb]
  · have hg := h.gap
    rw [afterLead, ← List.append_assoc] at hg ⊢
    exact gapBefore_of_head (h.mark_append_written_ne_nil hc) hg
  · obtain ⟨front, c, hbr, he⟩ := exists_eq_append_lastLine hb
    rw [hlast] at he
    rw [htext]
    refine ⟨h.endGap.1, .inr ⟨?_, rfl⟩⟩
    rw [he]
    exact inComment_append_break false front hbr []
  · rw [hend, htext, hended]
    rfl
  · exact .inr (.inr (by rwa [hend]))

end Document

/-! ### Texts that end with a line -/

/-- A text that ends with a break. -/
def endsLine (t : Text) : Bool :=
  t.getLast?.any isBreak

theorem endsLine_append {s t : Text} (ht : t ≠ []) : endsLine (s ++ t) = endsLine t := by
  rw [endsLine, endsLine, List.getLast?_append, List.getLast?_eq_some_getLast ht, Option.some_or]

theorem exists_of_endsLine {t : Text} (h : endsLine t) :
    ∃ front c, isBreak c ∧ t = front ++ [c] := by
  obtain ⟨c, hc, hbr⟩ := (Option.any_eq_true _ _).1 h
  obtain ⟨front, rfl⟩ := List.getLast?_eq_some_iff.1 hc
  exact ⟨front, c, hbr, rfl⟩

theorem hasBreak_of_endsLine {t : Text} (h : endsLine t) : hasBreak t := by
  obtain ⟨front, c, hc, rfl⟩ := exists_of_endsLine h
  simp [hasBreak_cons, hc]

theorem lineAfter_of_endsLine {t : Text} (h : endsLine t) (line : Text) :
    lineAfter line t = [] := by
  obtain ⟨front, c, hc, rfl⟩ := exists_of_endsLine h
  rw [lineAfter_append, lineAfter, if_pos hc]
  rfl

/-! ### Streams -/

/-- Documents that begin with a mark are laid behind documents that end with a line, the last of
which has a mark or a block. -/
theorem laidAll_append {es : List Document} (hes : LaidAll [] es)
    (hm : (Place.start (writtenAll es)).atMark Place.startMark) : {line : Text} →
    (ds : List Document) → LaidAll line ds → endsLine (writtenAll ds) →
    (∀ d ∈ ds.getLast?, d.marked ∨ d.block.children ≠ []) → LaidAll line (ds ++ es)
  | _, [], _, hline, _ => by cases hline
  | line, [d], h, hline, hlast => by
    rw [writtenAll, writtenAll, List.append_nil] at hline
    have hline := lineAfter_of_endsLine hline line
    refine ⟨h.1.append_marked (hlast d rfl) hline hm, fun he => ?_, ?_⟩
    · have he' : writtenAll es = [] := he
      rw [he'] at hm
      cases hm
    · rw [hline]
      exact hes
  | line, d :: e :: ds, h, hline, hlast => by
    have hne : writtenAll (e :: ds) ≠ [] := fun he => List.cons_ne_nil _ _ (h.2.1 he)
    rw [writtenAll, endsLine_append hne] at hline
    have hmore := laidAll_append hes hm (e :: ds) h.2.2 hline hlast
    have hd := h.1.append hne (hasBreak_of_endsLine hline) (writtenAll es)
    rw [← writtenAll_append] at hd
    refine ⟨hd, fun he => absurd ?_ hne, hmore⟩
    have he' : writtenAll ((e :: ds) ++ es) = [] := he
    rw [writtenAll_append] at he'
    exact (List.append_eq_nil_iff.1 he').1

/-- A document with a mark at its beginning, or with a block. -/
def Node.isBegun (d : Tree) : Bool :=
  d.text == Place.startMark || d.children.any (·.kind != .documentEnd)

theorem Document.isBegun_tree {d : Document} (h : d.tree.isBegun) :
    d.marked ∨ d.block.children ≠ [] := by
  rw [Node.isBegun, Bool.or_eq_true, beq_iff_eq] at h
  refine h.imp (fun hm => ?_) fun hb he => ?_
  · cases hd : d.marked with
    | true => rfl
    | false =>
      rw [tree, mark, hd] at hm
      cases hm
  · rw [tree, he] at hb
    cases hb

/-- Of two sources, the first of which ends with a line and has a mark or a block in its last
document, while the second begins with a mark, the documents of both are read one after the other,
and are formatted one after the other. -/
theorem parse_formatText_append {s₁ s₂ : Text} {t₁ t₂ : Tree} (h₁ : parse s₁ = .ok t₁)
    (hline : endsLine s₁) (hlast : ∀ d ∈ t₁.children.getLast?, d.isBegun)
    (h₂ : parse s₂ = .ok t₂) (hm : (Place.start s₂).atMark Place.startMark) :
    parse (s₁ ++ s₂) = .ok ⟨(), .stream, [], [], t₁.children ++ t₂.children⟩ ∧
      ∀ style, ∃ out₁ out₂, formatText style s₁ = .ok out₁ ∧ formatText style s₂ = .ok out₂ ∧
        formatText style (s₁ ++ s₂) = .ok (out₁ ++ out₂) := by
  obtain ⟨ds, hds, rfl⟩ := parse_eq_ok_iff.1 h₁
  obtain ⟨es, hes, rfl⟩ := parse_eq_ok_iff.1 h₂
  have hbegun : ∀ d ∈ ds.getLast?, d.marked ∨ d.block.children ≠ [] := by
    intro d hd
    refine Document.isBegun_tree (hlast d.tree ?_)
    rw [streamTree, List.getLast?_map]
    exact Option.mem_map_of_mem Document.tree hd
  have hall : Consists (s₁ ++ s₂) (ds ++ es) := by
    refine ⟨List.append_ne_nil_of_left_ne_nil hds.ne_nil es, ?_, ?_⟩
    · refine laidAll_append hes.laid ?_ ds hds.laid ?_ hbegun
      · rwa [hes.written_eq]
      · rwa [hds.written_eq]
    · rw [writtenAll_append, hds.written_eq, hes.written_eq]
  refine ⟨?_, fun style => ⟨_, _, formatText_of_consists style hds,
    formatText_of_consists style hes, ?_⟩⟩
  · rw [parse_eq_ok_iff.2 ⟨_, hall, rfl⟩, streamTree, List.map_append]
    rfl
  · rw [formatText_of_consists style hall, List.map_append, writtenAll_append]

/-- A block that is still open where the next document begins. -/
theorem parse_formatText_append_open :
    ∃ t₁ t₂, parse "a:\n    - b\n".toList = .ok t₁ ∧ parse "--- # c\nd\n".toList = .ok t₂ ∧
      parse "a:\n    - b\n--- # c\nd\n".toList =
        .ok ⟨(), .stream, [], [], t₁.children ++ t₂.children⟩ ∧
      ∃ out₁ out₂, formatText .standard "a:\n    - b\n".toList = .ok out₁ ∧
        formatText .standard "--- # c\nd\n".toList = .ok out₂ ∧
        formatText .standard "a:\n    - b\n--- # c\nd\n".toList = .ok (out₁ ++ out₂) := by
  have h₁ : (parse "a:\n    - b\n".toList).toOption.map
      (fun t => t.children.getLast?.all (·.isBegun)) = some true := by decide +kernel
  have h₂ : (parse "--- # c\nd\n".toList).isOk := by decide +kernel
  obtain ⟨t₁, ht₁, hlast⟩ := Option.map_eq_some_iff.1 h₁
  obtain ⟨t₂, ht₂⟩ := exists_eq_ok_of_isOk h₂
  have hread := eq_ok_of_toOption ht₁
  have hbegun : ∀ d ∈ t₁.children.getLast?, d.isBegun := fun d hd => by
    rw [Option.mem_def.1 hd] at hlast
    exact hlast
  obtain ⟨happend, hformat⟩ :=
    parse_formatText_append hread (by decide) hbegun ht₂ (by decide)
  exact ⟨t₁, t₂, hread, ht₂, happend, hformat .standard⟩

end YamlIndent
