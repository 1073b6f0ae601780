import Mathlib.Dynamics.PeriodicPts.Defs
import YamlIndent.Proofs.Comments
import YamlIndent.Proofs.Formatting
import YamlIndent.Proofs.Layout.Again

/-!
# Formatting has no cycles

A formatted text may change where it is formatted again, and then again. But no text comes back once
it has changed: a comment that loses its gap behind a `...` is a blank behind ink less, and else a
formatted text gets shorter where it changes.

## Main results

* `innerBlanks_formatText_le`: a formatted text has no more blanks behind ink than the text.
* `noWider_formatText`: if it has as many, it stays as it is or gets shorter where it is formatted
  again.
* `eq_of_mem_periodicPts_format`: a text that comes back where it is formatted again and again stays
  as it is.
-/

namespace YamlIndent

variable {style : Style} {line after source mid out : Text} {b : Bool} {ds : List Document}

/-! ### Blanks behind ink, text by text -/

section Append

variable {s s' t t' : Text}

theorem innerBlanks_append_le (hi : ink s' = ink s) (hs : innerBlanks b s' ≤ innerBlanks b s)
    (ht : innerBlanks (inked b s) t' ≤ innerBlanks (inked b s) t) :
    innerBlanks b (s' ++ t') ≤ innerBlanks b (s ++ t) := by
  rw [innerBlanks_append, innerBlanks_append, inked_eq_of_ink_eq hi]
  exact Nat.add_le_add hs ht

theorem innerBlanks_append_lt_right (hi : ink s' = ink s) (hs : innerBlanks b s' ≤ innerBlanks b s)
    (ht : innerBlanks (inked b s) t' < innerBlanks (inked b s) t) :
    innerBlanks b (s' ++ t') < innerBlanks b (s ++ t) := by
  rw [innerBlanks_append, innerBlanks_append, inked_eq_of_ink_eq hi]
  exact Nat.add_lt_add_of_le_of_lt hs ht

theorem innerBlanks_append_lt_left (hi : ink s' = ink s) (hs : innerBlanks b s' < innerBlanks b s)
    (ht : innerBlanks (inked b s) t' ≤ innerBlanks (inked b s) t) :
    innerBlanks b (s' ++ t') < innerBlanks b (s ++ t) := by
  rw [innerBlanks_append, innerBlanks_append, inked_eq_of_ink_eq hi]
  exact Nat.add_lt_add_of_lt_of_le hs ht

end Append

theorem innerBlanks_joined_le {ps ps' : List Piece} (h : List.Forall₂ Piece.KeepsComment ps ps')
    (b : Bool) : innerBlanks b (joined ps') ≤ innerBlanks b (joined ps) := by
  induction h generalizing b with
  | nil => exact Nat.le_refl _
  | @cons p p' ps ps' hp _ ih =>
    rw [joined_cons, joined_cons, hp.text_eq]
    exact innerBlanks_append_le hp.ink_eq (hp.inner_le b)
      (innerBlanks_append_le rfl (Nat.le_refl _) (ih _))

theorem Document.Laid.innerBlanks_layout_le {d : Document} (style : Style) (h : d.Laid line after)
    (b : Bool) : innerBlanks b (d.layout style).written ≤ innerBlanks b d.written := by
  rw [← (d.layout style).joined_pieces, ← d.joined_pieces]
  exact innerBlanks_joined_le (h.keepsComment_layout style) b

/-- A document loses blanks behind ink if it begins with a comment behind ink and a gap. -/
theorem Document.Laid.innerBlanks_layout_lt {d : Document} (style : Style) (h : d.Laid line after)
    (hc : '#' ∈ firstLine d.lead) (he : endsToken d.lead) :
    innerBlanks true (d.layout style).written < innerBlanks true d.written := by
  have hpieces := h.keepsComment_layout style
  rw [← (d.layout style).joined_pieces, ← d.joined_pieces]
  rw [pieces_tree, pieces_tree] at hpieces ⊢
  obtain ⟨hlead, hbody⟩ := List.forall₂_cons.1 hpieces
  rw [joined_cons, joined_cons, hlead.text_eq]
  exact innerBlanks_append_lt_left hlead.ink_eq (innerBlanks_realignDocument_lt h.gap.1 hc he)
    (innerBlanks_append_le rfl (Nat.le_refl _) (innerBlanks_joined_le hbody _))

theorem LaidAll.innerBlanks_layout_le (style : Style) (h : LaidAll line ds) (b : Bool) :
    innerBlanks b (writtenAll (ds.map (Document.layout style))) ≤
      innerBlanks b (writtenAll ds) := by
  rw [← joined_documents, ← joined_documents]
  exact innerBlanks_joined_le (LaidAll.keepsComment_layout style ds h) b

theorem Document.inked_written {d : Document} (h : d.ended) (b : Bool) :
    inked b d.written = true := by
  rw [written, endText, h, if_pos rfl]
  simp only [← List.append_assoc]
  rw [inked_append]
  rfl

/-- Documents that are laid out lose blanks behind ink if a comment trails a mark in front of one of
them. -/
theorem LaidAll.innerBlanks_layout_lt (style : Style) (h : LaidAll line ds)
    (hc : ∃ d ∈ ds.tail, '#' ∈ firstLine d.lead) (b : Bool) :
    innerBlanks b (writtenAll (ds.map (Document.layout style))) <
      innerBlanks b (writtenAll ds) := by
  induction ds generalizing line b with
  | nil => obtain ⟨_, hmem, -⟩ := hc; cases hmem
  | cons d ds ih =>
    obtain ⟨e, hmem, hc⟩ := hc
    rw [List.map_cons, writtenAll, writtenAll]
    refine innerBlanks_append_lt_right (h.1.ink_layout style) (h.1.innerBlanks_layout_le style b) ?_
    cases ds with
    | nil => cases hmem
    | cons e' es =>
      rcases List.mem_cons.1 hmem with rfl | hmem
      · have hne : e.lead ≠ [] := List.ne_nil_of_mem (mem_of_mem_firstLine hc)
        obtain ⟨hended, hends⟩ := h.endsToken_next hne
        rw [Document.inked_written hended, List.map_cons, writtenAll, writtenAll]
        exact innerBlanks_append_lt_left (h.2.2.1.ink_layout style)
          (h.2.2.1.innerBlanks_layout_lt style hc hends) (h.2.2.2.2.innerBlanks_layout_le style _)
      · exact ih h.2.2 ⟨e, hmem, hc⟩ _

/-! ### Texts that are formatted -/

/-- A formatted text has no more blanks behind ink than the text. -/
theorem innerBlanks_formatText_le (h : formatText style source = .ok out) (b : Bool) :
    innerBlanks b out ≤ innerBlanks b source := by
  obtain ⟨ds, hds, rfl⟩ := exists_consists_of_formatText h
  rw [← hds.written_eq]
  exact hds.laid.innerBlanks_layout_le style b

/-- A formatted text with the blanks behind ink of the text gets no wider where it is formatted
again. -/
theorem noWider_formatText (h : formatText style source = .ok mid)
    (hb : innerBlanks b mid = innerBlanks b source) (h' : formatText style mid = .ok out) :
    NoWider out mid := by
  obtain ⟨ds, hds, rfl⟩ := exists_consists_of_formatText h
  obtain ⟨es, hes, rfl⟩ := exists_consists_of_formatText h'
  have hc : ∀ d ∈ ds.tail, '#' ∉ firstLine d.lead := by
    intro d hd hc
    have hlt := hds.laid.innerBlanks_layout_lt style ⟨d, hd, hc⟩ b
    rw [hds.written_eq, hb] at hlt
    exact Nat.lt_irrefl _ hlt
  have hnil : es = [] ↔ ds = [] := iff_of_false hes.ne_nil hds.ne_nil
  have hle := hes.laid.noWider_layout style hds.laid hnil hc hes.written_eq
  rwa [hes.written_eq] at hle

/-! ### Formatting again and again -/

section Iterate

open Function

variable {α β : Type} {f : α → α} {a : α}

theorem iterate_mem_periodicPts (h : a ∈ periodicPts f) (n : Nat) : f^[n] a ∈ periodicPts f := by
  obtain ⟨k, hk, h⟩ := h
  exact mk_mem_periodicPts hk (h.apply_iterate n)

/-- What never grows along the way stays the same if the way leads back. -/
theorem eq_of_mem_periodicPts {m : α → Nat} (hm : ∀ n, m (f^[n + 1] a) ≤ m (f^[n] a))
    (h : a ∈ periodicPts f) : m (f a) = m a := by
  obtain ⟨k, hk, h⟩ := h
  have hanti : Antitone fun n => m (f^[n] a) := antitone_nat_of_succ_le hm
  have hle : m (f^[k] a) ≤ m (f^[1] a) := hanti hk
  rw [h.eq] at hle
  exact Nat.le_antisymm (hm 0) hle

/-- What comes back where it is stepped again is a fixed point already. -/
theorem eq_of_apply_apply_eq (h : a ∈ periodicPts f) (hf : f (f a) = f a) : f a = a := by
  obtain ⟨k, hk, h⟩ := h
  exact h.apply.eq_of_apply_eq_same h hk hf

theorem mem_periodicPts_of_injective {g : α → β} {f' : β → β} (hg : Injective g)
    (hs : Semiconj g f f') (h : g a ∈ periodicPts f') : a ∈ periodicPts f := by
  obtain ⟨k, hk, h⟩ := h
  exact mk_mem_periodicPts hk (hg (((hs.iterate_right k).eq a).trans h.eq))

end Iterate

/-- A text that comes back where it is formatted again and again, and kept where it cannot be, stays
as it is. -/
theorem eq_of_mem_periodicPts_format {f : Text → Text} {t : Text}
    (hf : ∀ t, f t = t ∨ formatText style t = .ok (f t)) (h : t ∈ Function.periodicPts f) :
    f t = t := by
  have hblanks (n : Nat) : innerBlanks false (f (f^[n] t)) = innerBlanks false (f^[n] t) := by
    refine eq_of_mem_periodicPts (fun m => ?_) (iterate_mem_periodicPts h n)
    rw [Function.iterate_succ_apply']
    rcases hf (f^[m] (f^[n] t)) with he | he
    · rw [he]
    · exact innerBlanks_formatText_le he false
  have hwidth (n : Nat) : NoWider (f (f (f^[n] t))) (f (f^[n] t)) := by
    rcases hf (f^[n] t) with he | he
    · rw [he, he]
      exact .refl _
    · rcases hf (f (f^[n] t)) with he' | he'
      · rw [he']
        exact .refl _
      · exact noWider_formatText he (hblanks n) he'
  -- The widths never grow along the way, which leads back; so the first step in it is none.
  have hlength : (f (f t)).length = (f t).length := by
    refine eq_of_mem_periodicPts (fun n => ?_) (iterate_mem_periodicPts h 1)
    rw [← Function.iterate_succ_apply, ← Function.iterate_succ_apply,
      Function.iterate_succ_apply' f (n + 1), Function.iterate_succ_apply' f n]
    exact (hwidth n).length_le
  exact eq_of_apply_apply_eq h ((hwidth 0).resolve_right fun hlt => Nat.ne_of_lt hlt hlength)

end YamlIndent
