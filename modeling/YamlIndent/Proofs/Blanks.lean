import Mathlib.Data.List.Basic
import YamlIndent.Proofs.Formatting

/-!
# Nothing but blanks changes

A lead is moved by giving its comment lines and its last line other blanks in front, and a gap
behind a `-` holds nothing but blanks. So a text and the formatted text agree in all that is no
blank, breaks included, in the order in which it stands.

## Main definitions

* `ink`: what stands in a text besides blanks.

## Main results

* `ink_mapLines`: lines that keep what stands in them keep what stands in the text.
* `ink_moveTo`, `ink_valueLead`: so do leads that are moved.
* `exists_formatText_ink`: a formatted text has the ink of the text.
-/

namespace YamlIndent

variable {style : Style} {column k : Nat} {head : Head} {lead rest after line : Text}

/-- What stands in a text besides blanks. -/
def ink (t : Text) : Text :=
  t.filter fun c => !isBlank c

/-! ### Ink of leads -/

@[simp] theorem ink_append (a b : Text) : ink (a ++ b) = ink a ++ ink b :=
  List.filter_append a b

theorem ink_cons (c : Char) (t : Text) : ink (c :: t) = ink [c] ++ ink t :=
  ink_append [c] t

theorem ink_of_all_isBlank {t : Text} (h : t.all isBlank) : ink t = [] := by
  rw [ink, List.filter_eq_nil_iff]
  intro c hc
  rw [List.all_eq_true.1 h c hc]
  exact Bool.false_ne_true

theorem ink_joinLines (first : Text) (later : List (Char × Text)) :
    ink (joinLines first later) = ink first ++ later.flatMap fun l => ink [l.1] ++ ink l.2 := by
  rw [joinLines, ink_append, ink, ink, List.filter_flatMap]
  congr 1
  exact List.flatMap_congr fun l _ => ink_cons l.1 l.2

/-- Changes of lines that keep what stands in the lines of gaps keep what stands in a gap. -/
theorem ink_mapLines {f g : Text → Text}
    (hf : ∀ l, hasBreak l = false → isGap false l → ink (f l) = ink l)
    (hg : ∀ l, hasBreak l = false → isGap false l → ink (g l) = ink l) {t : Text}
    (h : isGap false t) : ink (mapLines f g t) = ink t := by
  obtain ⟨hb, hbs⟩ := cutLines_lines t
  obtain ⟨hgap, hgaps⟩ := isGap_cutLines h
  have hlater : ((cutLines t).2.flatMap fun l => ink [l.1] ++ ink (g l.2)) =
      (cutLines t).2.flatMap fun l => ink [l.1] ++ ink l.2 :=
    List.flatMap_congr fun l hl => by rw [hg l.2 (hbs l hl).2 (hgaps l hl)]
  simp only [mapLines, ink_joinLines, hf _ hb hgap, List.flatMap_map]
  rw [hlater, ← ink_joinLines, joinLines_cutLines]

theorem ink_placeComment (column : Int) (line : Text) (hb : hasBreak line = false)
    (hg : isGap false line) : ink (placeComment column line) = ink line := by
  rcases isGap_line_cases hb hg with ⟨h, -⟩ | ⟨blanks, comment, h, -, rfl⟩
  · rw [placeComment_of_all_isBlank h]
  · rw [placeComment_append_comment h, ink_append, ink_append, ink_of_all_isBlank h, spaces,
      ink_of_all_isBlank (all_isBlank_replicate _)]

theorem ink_realign (column : Int) (h : isGap false lead) : ink (realign column lead) = ink lead :=
  ink_mapLines (fun _ _ _ => rfl) (ink_placeComment column) h

theorem ink_realignDocument (h : isGap false lead) : ink (realignDocument 0 lead) = ink lead :=
  ink_mapLines (ink_placeComment 0) (ink_placeComment 0) h

theorem ink_moveTo (h : StandsAt lead k) (hg : isGap false lead) (d : Nat) :
    ink (moveTo d lead) = ink lead := by
  obtain ⟨front, br, hbr, rfl⟩ := h.exists_eq_append
  rw [isGap_append_break false front hbr, Bool.and_eq_true] at hg
  have hlast (n : Nat) : ink (br :: List.replicate n ' ') = ink [br] := by
    rw [ink_cons, ink_of_all_isBlank (all_isBlank_replicate n), List.append_nil]
  rw [moveTo_append hbr, ink_append, ink_append, ink_realign d hg.1, hlast, hlast]

/-- The lead of a value keeps its breaks and comments where it is laid out. -/
theorem ink_valueLead (style : Style) (head : Head) (column : Nat) (h : OnSpaces lead)
    (hg : GapBefore lead rest) (hr : rest ≠ []) :
    ink (style.valueLead head column lead) = ink lead := by
  rw [Style.valueLead]
  by_cases hb : hasBreak lead
  · obtain ⟨k, hk⟩ := h hb
    rw [if_pos hb, ink_moveTo hk hg.1]
  · rw [if_neg hb]
    split
    · -- A gap on the line of a token is blank.
      have hblank := hg.all_isBlank_lastLine hr
      rw [lastLine_of_not_hasBreak (eq_false_of_ne_true hb)] at hblank
      rw [ink_of_all_isBlank hblank]
      rfl
    · rfl

/-! ### Ink of blocks -/

mutual

/-- A value has the same ink where it is laid out. -/
theorem Block.ink_layout {style : Style} {head : Head} {column : Nat} {after : Text} :
    (v : Block) → v.Spelled after → v.Lined head →
    ink (v.layout style head column).written = ink v.written
  | .empty, _, _ => rfl
  | .scalar lead text, hs, hl => by
    rw [Block.Spelled] at hs
    rw [Block.Lined] at hl
    have hrest := List.append_ne_nil_of_left_ne_nil hs.1 after
    rw [Block.layout, Block.written, Block.written, ink_append, ink_append,
      ink_valueLead style head column hl hs.2.1.1 hrest]
  | .entries es, hs, hl => by
    rw [Block.Spelled] at hs
    rw [Block.Lined] at hl
    obtain ⟨hlead, -, k, hes⟩ := hl
    have hat := Entries.spelledAt hs
    have hopening := ink_valueLead style head column hlead hat.1.1 hat.source_append_ne_nil
    rw [Block.layout, Block.written, Block.written]
    exact Entries.ink_layout es hs hes hopening

/-- Entries have the same ink where they are laid out, if their first lead has it. -/
theorem Entries.ink_layout {style : Style} {column k : Nat} {lead after : Text} :
    (es : Entries) → es.Spelled after → es.Lined k → ink lead = ink es.lead →
    ink (es.layout style column lead).written = ink es.written
  | .last _ head value, hs, hl, he => by
    rw [Entries.Spelled] at hs
    rw [Entries.Lined] at hl
    rw [Entries.lead] at he
    simp only [Entries.layout, Entries.written, ink_append, he, Block.ink_layout value hs.2.2 hl]
  | .more _ head value others, hs, hl, he => by
    rw [Entries.Spelled] at hs
    rw [Entries.Lined] at hl
    obtain ⟨-, -, hvalue, hothers⟩ := hs
    rw [Entries.lead] at he
    have hmoved : ink (moveTo column others.lead) = ink others.lead :=
      ink_moveTo hl.2.1 (Entries.spelledAt hothers).1.1.1 column
    simp only [Entries.layout, Entries.written, ink_append, he, Block.ink_layout value hvalue hl.1,
      Entries.ink_layout others hothers hl.2.2 hmoved]

end

theorem Entries.ink_layoutTop : (es : Entries) → es.Spelled after → es.Lined k →
    ink (es.layoutTop style column).written = ink es.written
  | .last lead head value, hs, hl => by
    have hlead : ink (settle lead) = ink lead := ink_realign _ (Entries.spelledAt hs).1.1.1
    rw [Spelled] at hs
    rw [Lined] at hl
    simp only [layoutTop, written, ink_append, hlead, value.ink_layout hs.2.2 hl]
  | .more lead head value others, hs, hl => by
    have hlead : ink (settle lead) = ink lead := ink_realign _ (Entries.spelledAt hs).1.1.1
    rw [Spelled] at hs
    rw [Lined] at hl
    obtain ⟨-, -, hvalue, hothers⟩ := hs
    have hmoved : ink (moveTo (indentOf others.lead) others.lead) = ink others.lead :=
      ink_moveTo hl.2.1 (Entries.spelledAt hothers).1.1.1 _
    simp only [layoutTop, written, ink_append, hlead, value.ink_layout hvalue hl.1,
      others.ink_layout hothers hl.2.2 hmoved]

/-! ### Ink of documents -/

/-- A document has the same ink where it is laid out. -/
theorem Document.Laid.ink_layout {d : Document} (style : Style) (h : d.Laid line after) :
    ink (d.layout style).written = ink d.written := by
  have hend : ink (settle d.endLead) = ink d.endLead := ink_realign _ h.endGap.1
  have hblock : ink (d.block.layoutTop style d.column).written = ink d.block.written := by
    have hs := h.spelled
    cases hb : d.block with
    | empty => rfl
    | scalar lead text =>
      rw [hb, Block.Spelled] at hs
      rw [Block.layoutTop, Block.written, Block.written, ink_append, ink_append, settle,
        ink_realign _ hs.2.1.1.1]
    | entries es =>
      obtain ⟨k, hes⟩ := h.lined.entries hb
      rw [hb] at hs
      exact es.ink_layoutTop hs hes
  simp only [written, ink_append, layout, ink_realignDocument h.gap.1, hblock, hend]
  rfl

theorem ink_layoutAll (style : Style) : {line : Text} → (ds : List Document) → LaidAll line ds →
    ink (writtenAll (ds.map (Document.layout style))) = ink (writtenAll ds)
  | _, [], _ => rfl
  | _, d :: ds, h => by
    rw [List.map_cons, writtenAll, writtenAll, ink_append, ink_append, h.1.ink_layout style,
      ink_layoutAll style ds h.2.2]

/-- A text that is read is formatted, and but for its blanks the formatted text is the text. -/
theorem exists_formatText_ink {source : Text} {t : Tree} (style : Style)
    (h : parse source = .ok t) :
    ∃ out, formatText style source = .ok out ∧ ink out = ink source := by
  obtain ⟨ds, hds, rfl⟩ := parse_eq_ok_iff.1 h
  refine ⟨_, formatText_of_consists style hds, ?_⟩
  rw [ink_layoutAll style ds hds.laid, hds.written_eq]

/-- A source with gaps of tabs, carriage returns and comments. -/
theorem exists_formatText_ink_tabs :
    ∃ t out, parse "# c\r\na:\r\n   # d\r\n   -\t\tb: 1 # e\r\n... \n".toList = .ok t ∧
      formatText .standard "# c\r\na:\r\n   # d\r\n   -\t\tb: 1 # e\r\n... \n".toList = .ok out ∧
      ink out = ink "# c\r\na:\r\n   # d\r\n   -\t\tb: 1 # e\r\n... \n".toList := by
  have h : (parse "# c\r\na:\r\n   # d\r\n   -\t\tb: 1 # e\r\n... \n".toList).isOk := by
    decide +kernel
  obtain ⟨t, ht⟩ := exists_eq_ok_of_isOk h
  obtain ⟨out, hout, hink⟩ := exists_formatText_ink .standard ht
  exact ⟨t, out, ht, hout, hink⟩

end YamlIndent
