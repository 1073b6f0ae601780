import YamlIndent.Proofs.Layout.Stream
import YamlIndent.Proofs.Layout.Tokens

/-!
# Documents token by token

A text has its documents, and the tokens of each, from its marks and its tokens alone. So a document
that is laid out has them in the formatted text even where its tokens no longer belong to the
entries that they belonged to, and what is read there are documents with these very tokens.

## Main definitions

* `Document.Framed`: a document whose leads, marks and tokens are read where they are written.
* `Document.Agrees`: documents with the same leads, marks and tokens.

## Main results

* `Document.Laid.framed`, `Document.Laid.framed_layout`: a document is framed where it is laid, and
  where it is laid out if a `...` at its end is still a mark.
* `Document.Framed.agrees`: a text begins with one such document only.
-/

namespace YamlIndent

variable {style : Style} {line after after' : Text} {d d' : Document}

/-- The block of a document that is spelled and lined up is read token by token where it starts. -/
theorem Block.lexed_of_begins (b : Block) (hs : b.Spelled after) (ho : b.Begins line after)
    (hl : ∀ {es}, b = .entries es → ∃ k, es.Lined k)
    (hend : ∀ owner, Lexed (lineAfter line b.written) owner after []) :
    Lexed line none after b.tokens := by
  cases b with
  | empty => exact hend none
  | scalar lead text =>
    rw [Spelled] at hs
    refine ⟨hs.2.1.1, ho.2, ⟨hs.1, hs.2.2, fun _ => ho.1⟩, ?_⟩
    rw [← lineAfter_append]
    exact hend none
  | entries es =>
    obtain ⟨k, hk⟩ := hl rfl
    have hkey : ¬ OnKey none es.lead := by
      rintro ⟨⟨_, he, -⟩, -⟩
      cases he
    rw [tokens, ← List.append_nil es.tokens]
    exact es.lexed hs hk ho hkey hend

namespace Document

/-- The leads, marks and tokens of a document are read where they are written, behind some text on a
line and with some text after the document. -/
structure Framed (line after : Text) (d : Document) : Prop where
  gap : GapBefore d.lead (d.afterLead after)
  marked_eq : Place.atMark Place.startMark ⟨lineAfter line d.lead, d.afterLead after⟩ = d.marked
  lexed : Lexed (d.blockLine line) none (d.afterBlock after) d.block.tokens
  endGap : GapBefore d.endLead (d.endText ++ after)
  ended_eq : Place.atMark Place.endMark ⟨d.endLine line, d.endText ++ after⟩ = d.ended

/-- A document that is laid is read token by token. -/
theorem Laid.framed (h : d.Laid line after) : d.Framed line after where
  gap := h.gap
  marked_eq := h.marked_eq
  lexed := d.block.lexed_of_begins h.spelled h.opens.begins h.lined.entries
    fun _ => ⟨d.endLead, _, rfl, h.endGap, h.end_cases⟩
  endGap := h.endGap
  ended_eq := h.ended_eq

/-- A document that is laid out is read token by token, if a mark at its end is still one. -/
theorem Laid.framed_layout (style : Style) (h : d.Laid line after)
    (hf : d.FollowedAlike after' after) (hend : d.ended → endsToken after') :
    (d.layout style).Framed line after' where
  gap := (h.spaced_layout hf).gap
  marked_eq := h.marked_eq_layout hf
  lexed := (d.layout style).block.lexed_of_begins (h.spaced_layout hf).spelled
    (h.begins_layout hf) (h.lined.layout style).entries
    fun _ => ⟨_, _, rfl, (h.spaced_layout hf).endGap,
      Document.end_cases (h.ended_layout style hf hend) (h.stops_layout style hf)⟩
  endGap := (h.spaced_layout hf).endGap
  ended_eq := h.ended_layout style hf hend

/-- Documents with the same leads, marks and tokens. -/
structure Agrees (d d' : Document) : Prop where
  lead_eq : d.lead = d'.lead
  marked_eq : d.marked = d'.marked
  tokens_eq : d.block.tokens = d'.block.tokens
  endLead_eq : d.endLead = d'.endLead
  ended_eq : d.ended = d'.ended

theorem Agrees.mark_eq (h : d.Agrees d') : d.mark = d'.mark := by
  rw [mark, mark, h.marked_eq]

theorem Agrees.endText_eq (h : d.Agrees d') : d.endText = d'.endText := by
  rw [endText, endText, h.ended_eq]

theorem Agrees.block_written_eq (h : d.Agrees d') : d.block.written = d'.block.written := by
  rw [← d.block.spelling_tokens, ← d'.block.spelling_tokens, h.tokens_eq]

theorem Agrees.written_eq (h : d.Agrees d') : d.written = d'.written := by
  rw [written, written, h.lead_eq, h.mark_eq, h.block_written_eq, h.endLead_eq, h.endText_eq]

/-- A text begins with the leads, marks and tokens of one document only. -/
theorem Framed.agrees (h : d.Framed line after) (h' : d'.Framed line after')
    (he : d.written ++ after = d'.written ++ after') : d.Agrees d' ∧ after = after' := by
  rw [written_append, written_append] at he
  obtain ⟨hlead, hafter⟩ := h.gap.unique h'.gap he
  have hmarked : d.marked = d'.marked := by
    rw [← h.marked_eq, ← h'.marked_eq, hlead, hafter]
  have hmark : d.mark = d'.mark := by rw [mark, mark, hmarked]
  have hline : d.blockLine line = d'.blockLine line := by rw [blockLine, blockLine, hlead, hmark]
  rw [afterLead, afterLead, hmark, ← d.block.spelling_tokens, ← d'.block.spelling_tokens] at hafter
  have hlexed := h.lexed
  rw [hline] at hlexed
  obtain ⟨htokens, hblock⟩ := hlexed.unique h'.lexed (List.append_cancel_left hafter)
  obtain ⟨hendLead, hend⟩ := h.endGap.unique h'.endGap hblock
  have hendLine : d.endLine line = d'.endLine line := by
    rw [endLine, endLine, hline, ← d.block.spelling_tokens, ← d'.block.spelling_tokens, htokens,
      hendLead]
  have hended : d.ended = d'.ended := by rw [← h.ended_eq, ← h'.ended_eq, hendLine, hend]
  have hagrees : d.Agrees d' := ⟨hlead, hmarked, htokens, hendLead, hended⟩
  rw [hagrees.endText_eq] at hend
  exact ⟨hagrees, List.append_cancel_left hend⟩

end Document

end YamlIndent
