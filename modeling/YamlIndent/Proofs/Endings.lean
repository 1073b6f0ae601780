import YamlIndent.Proofs.Formatting
import YamlIndent.Proofs.Source.Likeness
import YamlIndent.Proofs.Text.Ending

/-!
# Line endings do not matter

A source with other breaks in the place of its breaks is read to the same tree, but that the breaks
are changed in the leads too; it is rejected for the same fault, in the same column of its line; and
it is formatted to the same text, with the breaks changed. So it is with another line ending for
each of its line feeds.

Reading is in step, since a place and the rest of the source behind it change alike. Laying out
moves leads only, and a lead is moved before or after its breaks are changed.

## Main definitions

* `Block.mapLead`, `Document.mapLead`: syntax with other leads.

## Main results

* `Document.layout_mapLead`: documents are laid out before or after their breaks are changed.
* `Rebreaks.toOption_formatText`: a source is formatted before or after its breaks are changed.
* `parse_formatText_convert`: what is read and formatted of a source with another line ending.
-/

namespace YamlIndent

/-! ### Syntax with other leads -/

mutual

/-- The block with each lead changed by `f`. -/
def Block.mapLead (f : Text → Text) : Block → Block
  | .empty => .empty
  | .scalar lead text => .scalar (f lead) text
  | .entries es => .entries (es.mapLead f)

/-- The entries with each lead changed by `f`. -/
def Entries.mapLead (f : Text → Text) : Entries → Entries
  | .last lead head value => .last (f lead) head (value.mapLead f)
  | .more lead head value others => .more (f lead) head (value.mapLead f) (others.mapLead f)

end

/-- The document with each lead changed by `f`. -/
def Document.mapLead (f : Text → Text) (d : Document) : Document :=
  { d with lead := f d.lead, block := d.block.mapLead f, endLead := f d.endLead }

variable {f : Text → Text}

@[simp] theorem Entries.lead_mapLead (es : Entries) : (es.mapLead f).lead = f es.lead := by
  cases es <;> rw [mapLead] <;> rfl

@[simp] theorem Entries.head_mapLead (es : Entries) : (es.mapLead f).head = es.head := by
  cases es <;> rw [mapLead] <;> rfl

theorem Block.lead_mapLead (hf : f [] = []) (b : Block) : (b.mapLead f).lead = f b.lead := by
  cases b with
  | empty => exact hf.symm
  | scalar lead text => rfl
  | entries es => exact es.lead_mapLead

theorem Head.mapLead_entry (hf : f [] = []) (lead : Text) (value : Tree) (head : Head) :
    (head.entry lead value).mapLead f = head.entry (f lead) (value.mapLead f) := by
  cases head with
  | item => rfl
  | key text indicator =>
    simp only [entry, scalarNode, Node.mapLead, Node.mapLeadAll, hf]

mutual

theorem Block.tree_mapLead (hf : f [] = []) : (b : Block) →
    (b.mapLead f).tree = b.tree.mapLead f
  | .empty => by
    rw [Block.mapLead, Block.tree, Head.scalarNode, Node.mapLead, hf]
    rfl
  | .scalar lead text => by
    rw [Block.mapLead, Block.tree, Block.tree]
    rfl
  | .entries es => by
    rw [Block.mapLead, Block.tree, Block.tree, Node.mapLead, hf, es.trees_mapLead hf,
      es.head_mapLead]

theorem Entries.trees_mapLead (hf : f [] = []) : (es : Entries) →
    (es.mapLead f).trees = Node.mapLeadAll f es.trees
  | .last lead head value => by
    rw [Entries.mapLead, Entries.trees, Entries.trees, Node.mapLeadAll, Node.mapLeadAll,
      head.mapLead_entry hf, value.tree_mapLead hf]
  | .more lead head value others => by
    rw [Entries.mapLead, Entries.trees, Entries.trees, Node.mapLeadAll, head.mapLead_entry hf,
      value.tree_mapLead hf, others.trees_mapLead hf]

end

theorem Block.children_mapLead (hf : f [] = []) (b : Block) :
    (b.mapLead f).children = Node.mapLeadAll f b.children := by
  cases b with
  | empty => rfl
  | scalar lead text => exact congrArg (fun t => [t]) ((scalar lead text).tree_mapLead hf)
  | entries es => exact congrArg (fun t => [t]) ((entries es).tree_mapLead hf)

theorem Document.tree_mapLead (hf : f [] = []) (d : Document) :
    (d.mapLead f).tree = d.tree.mapLead f := by
  rw [tree, tree, Node.mapLead, Node.mapLeadAll_append, ← d.block.children_mapLead hf]
  rfl

theorem streamTree_mapLead (hf : f [] = []) (ds : List Document) :
    streamTree (ds.map (Document.mapLead f)) = (streamTree ds).mapLead f := by
  have hall : (ds.map (Document.mapLead f)).map Document.tree =
      Node.mapLeadAll f (ds.map Document.tree) := by
    induction ds with
    | nil => rfl
    | cons d ds ih =>
      rw [List.map_cons, List.map_cons, List.map_cons, Node.mapLeadAll, ih, d.tree_mapLead hf]
  rw [streamTree, streamTree, Node.mapLead, hf, hall]

/-- The place with the rest of its source changed by `f`. -/
def Place.mapRest (f : Text → Text) (p : Place) : Place :=
  ⟨p.line, f p.rest⟩

/-! ### Laying out what has other breaks -/

namespace Rebreaks

variable (h : Rebreaks f) {style : Style} {head : Head} {lead : Text} {k : Nat}

include h

theorem onSpaces (hl : OnSpaces lead) : OnSpaces (f lead) := by
  intro hb
  rw [h.hasBreak_eq] at hb
  exact (hl hb).imp fun _ => h.standsAt_iff.2

theorem innerColumn_eq (column : Nat) (lead : Text) :
    innerColumn column (f lead) = innerColumn column lead := by
  rw [innerColumn, innerColumn, h.hasBreak_eq, h.indentOf_eq]
  split
  · rfl
  · rename_i hb
    rw [h.eq_self (eq_false_of_ne_true hb)]

/-- The lead of a value is laid out before or after its breaks are changed. -/
theorem valueLead_eq (style : Style) (head : Head) (column : Nat) (hl : OnSpaces lead) :
    style.valueLead head column (f lead) = f (style.valueLead head column lead) := by
  rw [Style.valueLead, Style.valueLead, h.hasBreak_eq]
  split
  · rename_i hb
    obtain ⟨k, hk⟩ := hl hb
    exact h.moveTo_eq hk _
  · rename_i hb
    rw [h.eq_self (eq_false_of_ne_true hb)]
    split
    · exact (h.eq_self rfl).symm
    · rw [h.eq_self (eq_false_of_ne_true hb)]

end Rebreaks

variable (h : Rebreaks f) {style : Style}

include h

mutual

theorem Block.layout_mapLead {head : Head} {column : Nat} : (b : Block) → b.Lined head →
    (b.mapLead f).layout style head column = (b.layout style head column).mapLead f
  | .empty, _ => by rw [Block.mapLead, Block.layout, Block.mapLead]
  | .scalar lead text, hb => by
    rw [Block.Lined] at hb
    rw [Block.mapLead, Block.layout, Block.layout, Block.mapLead, h.valueLead_eq _ _ _ hb]
  | .entries es, hb => by
    rw [Block.Lined] at hb
    obtain ⟨hl, -, k, hk⟩ := hb
    rw [Block.mapLead, Block.layout, Block.layout, Block.mapLead, es.lead_mapLead,
      h.valueLead_eq _ _ _ hl, h.innerColumn_eq, es.layout_mapLead hk]

theorem Entries.layout_mapLead {column k : Nat} {lead : Text} : (es : Entries) → es.Lined k →
    (es.mapLead f).layout style column (f lead) = (es.layout style column lead).mapLead f
  | .last _ head value, hes => by
    rw [Entries.Lined] at hes
    rw [Entries.mapLead, Entries.layout, Entries.layout, Entries.mapLead,
      value.layout_mapLead hes]
  | .more _ head value others, hes => by
    rw [Entries.Lined] at hes
    rw [Entries.mapLead, Entries.layout, Entries.layout, Entries.mapLead,
      value.layout_mapLead hes.1, others.lead_mapLead, h.moveTo_eq hes.2.1,
      others.layout_mapLead hes.2.2]

end

theorem Entries.layoutTop_mapLead {column k : Nat} (es : Entries) (hes : es.Lined k) :
    (es.mapLead f).layoutTop style column = (es.layoutTop style column).mapLead f := by
  cases es with
  | last lead head value =>
    rw [Lined] at hes
    rw [mapLead, layoutTop, layoutTop, mapLead, h.settle_eq, value.layout_mapLead h hes]
  | more lead head value others =>
    rw [Lined] at hes
    rw [mapLead, layoutTop, layoutTop, mapLead, h.settle_eq, value.layout_mapLead h hes.1,
      others.lead_mapLead, h.indentOf_eq, h.moveTo_eq hes.2.1, others.layout_mapLead h hes.2.2]

namespace Document

variable {d : Document}

theorem column_mapLead (d : Document) : (d.mapLead f).column = d.column := by
  simp only [column, mapLead, d.block.lead_mapLead h.nil, h.hasBreak_eq, h.indentOf_eq]

/-- A document is laid out before or after its breaks are changed. -/
theorem layout_mapLead (hd : d.Lined) :
    (d.mapLead f).layout style = (d.layout style).mapLead f := by
  have hblock : (d.block.mapLead f).layoutTop style d.column =
      (d.block.layoutTop style d.column).mapLead f := by
    cases hb : d.block with
    | empty => rfl
    | scalar lead text => exact congrArg (Block.scalar · text) (h.settle_eq lead)
    | entries es =>
      obtain ⟨k, hk⟩ := hd.entries hb
      exact congrArg Block.entries (es.layoutTop_mapLead h hk)
  have hcolumn := d.column_mapLead h
  rw [layout, hcolumn]
  simp only [layout, mapLead, hblock, h.realignDocument_eq, h.settle_eq]

end Document

mutual

theorem Block.lined_mapLead {head : Head} : (b : Block) → b.Lined head →
    (b.mapLead f).Lined head
  | .empty, _ => by
    rw [Block.mapLead, Block.Lined]
    trivial
  | .scalar lead text, hb => by
    rw [Block.Lined] at hb
    rw [Block.mapLead, Block.Lined]
    exact h.onSpaces hb
  | .entries es, hb => by
    rw [Block.Lined] at hb
    obtain ⟨hl, hne, k, hk⟩ := hb
    rw [Block.mapLead, Block.Lined, es.lead_mapLead, h.hasBreak_eq, Ne, h.eq_nil_iff]
    exact ⟨h.onSpaces hl, hne, k, es.lined_mapLead hk⟩

theorem Entries.lined_mapLead {k : Nat} : (es : Entries) → es.Lined k → (es.mapLead f).Lined k
  | .last _ head value, hes => by
    rw [Entries.Lined] at hes
    rw [Entries.mapLead, Entries.Lined]
    exact value.lined_mapLead hes
  | .more _ head value others, hes => by
    rw [Entries.Lined] at hes
    rw [Entries.mapLead, Entries.Lined, others.lead_mapLead, h.standsAt_iff]
    exact ⟨value.lined_mapLead hes.1, hes.2.1, others.lined_mapLead hes.2.2⟩

end

/-- A document that is lined up is so with other breaks. -/
theorem Document.Lined.mapLead {d : Document} (hd : d.Lined) : (d.mapLead f).Lined where
  blank hb := by
    change (lastLine (f d.lead)).all isBlank
    rw [h.lastLine_eq]
    refine hd.blank fun hn => hb ?_
    change (d.block.mapLead f).children = []
    rw [d.block.children_mapLead h.nil, hn]
    rfl
  gap := by
    change isGap false (d.block.mapLead f).lead
    rw [d.block.lead_mapLead h.nil, h.isGap_eq]
    exact hd.gap
  entries {es} he := by
    change d.block.mapLead f = .entries es at he
    cases hb : d.block with
    | empty | scalar =>
      rw [hb] at he
      cases he
    | entries es' =>
      obtain ⟨k, hk⟩ := hd.entries hb
      rw [hb] at he
      cases he
      exact ⟨k, es'.lined_mapLead h hk⟩
  endGap := by
    change isGap false (f d.endLead)
    rw [h.isGap_eq]
    exact hd.endGap

/-! ### The text of what has other breaks -/

theorem GapBefore.rebreaks_append {gap rest : Text} (hg : GapBefore gap rest) :
    f (gap ++ rest) = f gap ++ f rest := by
  refine h.append gap ?_
  rcases hg.2 with rfl | ⟨-, hrest⟩
  · rfl
  · cases rest with
    | nil => rfl
    | cons c rest =>
      simp only [YamlIndent.startsToken, Bool.not_eq_true', Bool.or_eq_false_iff] at hrest
      exact staysOnLine_cons.2 hrest.1.2

mutual

theorem Block.written_mapLead {after : Text} : (b : Block) → b.Spelled after →
    f (b.written ++ after) = (b.mapLead f).written ++ f after
  | .empty, _ => by
    rw [Block.mapLead, Block.written]
    rfl
  | .scalar lead text, hb => by
    rw [Block.Spelled] at hb
    have htoken := hb.2.1.1.startsToken fun he => hb.1 (List.append_eq_nil_iff.1 he).1
    rw [Block.mapLead, Block.written, Block.written, List.append_assoc,
      hb.2.1.1.rebreaks_append h, h.line_append (hasBreak_of_scalarOf? htoken hb.2.2),
      List.append_assoc]
  | .entries es, hb => by
    rw [Block.Spelled] at hb
    rw [Block.mapLead, Block.written, Block.written, es.written_mapLead hb]

theorem Entries.written_mapLead {after : Text} : (es : Entries) → es.Spelled after →
    f (es.written ++ after) = (es.mapLead f).written ++ f after
  | .last _ head value, hes => by
    rw [Entries.Spelled] at hes
    rw [Entries.mapLead, Entries.written, Entries.written, List.append_assoc, List.append_assoc,
      hes.1.1.1.rebreaks_append h, h.line_append (hasBreak_source hes.1.2),
      value.written_mapLead hes.2.2, List.append_assoc, List.append_assoc]
  | .more _ head value others, hes => by
    rw [Entries.Spelled] at hes
    rw [Entries.mapLead, Entries.written, Entries.written, List.append_assoc, List.append_assoc,
      List.append_assoc, hes.1.1.1.rebreaks_append h, h.line_append (hasBreak_source hes.1.2),
      value.written_mapLead hes.2.2.1, others.written_mapLead hes.2.2.2, List.append_assoc,
      List.append_assoc, List.append_assoc]

end

theorem Document.written_mapLead {d : Document} {after : Text} (hd : d.Spaced after) :
    f (d.written ++ after) = (d.mapLead f).written ++ f after := by
  have hend : hasBreak d.endText = false := by
    rw [endText]
    split <;> rfl
  rw [written_append, hd.gap.rebreaks_append h, afterLead, h.line_append d.hasBreak_mark,
    d.block.written_mapLead h hd.spelled, afterBlock, hd.endGap.rebreaks_append h,
    h.line_append hend]
  simp only [written, List.append_assoc]
  rfl

theorem writtenAll_mapLead : (ds : List Document) → SpacedAll ds →
    f (writtenAll ds) = writtenAll (ds.map (Document.mapLead f))
  | [], _ => h.nil
  | d :: ds, hds => by
    rw [List.map_cons, writtenAll, writtenAll, Document.written_mapLead h hds.1,
      writtenAll_mapLead ds hds.2]

/-! ### Reading what has other breaks -/

theorem Place.gap_mapRest (p : Place) :
    (p.mapRest f).gap = (f p.gap.1, p.gap.2.mapRest f) := by
  simp only [gap, mapRest, past, h.splitGap_eq, h.lineAfter_eq]

/-- Places and gaps are like what they are with other breaks. -/
theorem Rebreaks.likeness :
    Likeness 0 (fun p p' => p.mapRest f = p') (fun lead lead' => f lead = lead') where
  line_eq := by
    rintro p _ rfl
    rfl
  sameLine := by
    rintro p _ rfl
    exact h.sameLine p.rest
  atEnd_eq := by
    rintro p _ rfl -
    rw [Bool.eq_iff_iff, Place.atEnd, Place.atEnd, List.isEmpty_iff, List.isEmpty_iff]
    exact h.eq_nil_iff.symm
  past := by
    rintro p _ t r r' rfl ht hr hr'
    have hrest : t ++ r' = t ++ f r := by
      rw [hr', Place.mapRest, ← hr, h.line_append ht]
    rw [List.append_cancel_left hrest]
    rfl
  lead := by
    rintro p _ rfl -
    rw [p.gap_mapRest h]
  breaks := by
    rintro p _ rfl -
    rw [p.gap_mapRest h, h.hasBreak_eq]
  gap := by
    rintro p _ rfl -
    rw [p.gap_mapRest h]
  nil := h.nil

namespace Rebreaks

variable {source : Text} {t : Tree} {r : Rejection}

/-- A source is read in step with itself with other breaks. -/
theorem inStep (source : Text) :
    InStep 0 (fun p p' => p.mapRest f = p') sourceEnd
      (Node.Alike fun lead lead' => f lead = lead') (parse source) (parse (f source)) := by
  have hgap := Place.gap_mapRest h (.start source)
  refine h.likeness.parse ?_ ?_
  · exact congrArg Prod.fst hgap.symm
  · exact congrArg Prod.snd hgap.symm

/-- With other breaks a source has the same tree, with other breaks in the leads. -/
theorem parse_eq_ok (hs : parse source = .ok t) : parse (f source) = .ok (t.mapLead f) := by
  obtain ⟨t', ht', halike⟩ := (h.inStep source).exists_ok hs
  rw [ht', halike.eq_mapLead]

/-- With other breaks a source has the same fault. -/
theorem parse_eq_error (hs : parse source = .error r) :
    parse (f source) = .error ⟨r.fault, r.place.mapRest f⟩ := by
  obtain ⟨r', hr', hfault, hplace⟩ := (h.inStep source).exists_error hs (Nat.zero_le _)
  rw [hr', hfault, hplace]

/-- With other breaks a source is formatted to what it is formatted to, with other breaks. -/
theorem formatText_eq (style : Style) (hs : Consists source ds) :
    formatText style (f source) = (formatText style source).map f := by
  have hread := h.parse_eq_ok (parse_eq_ok_iff.2 ⟨ds, hs, rfl⟩)
  rw [← streamTree_mapLead h.nil] at hread
  have hlined : ∀ d ∈ ds.map (Document.mapLead f), d.Lined :=
    List.forall_mem_map.2 fun d hd => (hs.laid.lined d hd).mapLead h
  have hlayout : (ds.map (Document.mapLead f)).map (Document.layout style) =
      (ds.map (Document.layout style)).map (Document.mapLead f) := by
    rw [List.map_map, List.map_map]
    exact List.map_congr_left fun d hd => Document.layout_mapLead h (hs.laid.lined d hd)
  rw [formatText_of_lined style hread hlined, formatText_of_consists style hs, hlayout,
    ← writtenAll_mapLead h _ (hs.laid.spacedAll_layout style)]
  rfl

/-- A source is formatted before or after its breaks are changed. -/
theorem toOption_formatText (style : Style) (source : Text) :
    (formatText style (f source)).toOption = (formatText style source).toOption.map f := by
  cases hs : parse source with
  | ok t =>
    obtain ⟨ds, hds, -⟩ := parse_eq_ok_iff.1 hs
    rw [h.formatText_eq style hds]
    cases formatText style source <;> rfl
  | error r =>
    rw [toOption_formatText_of_error style hs,
      toOption_formatText_of_error style (h.parse_eq_error hs)]
    rfl

end Rebreaks

omit h

/-! ### Other endings of lines -/

namespace Ending

variable (e : Ending) {source : Text} {t : Tree} {r : Rejection}

theorem parse_convert (hs : parse source = .ok t) :
    parse (e.convert source) = .ok (t.mapLead e.convert) :=
  e.rebreaks.parse_eq_ok hs

theorem parse_convert_error (hs : parse source = .error r) :
    parse (e.convert source) = .error ⟨r.fault, r.place.mapRest e.convert⟩ :=
  e.rebreaks.parse_eq_error hs

theorem formatText_convert (style : Style) (hs : Consists source ds) :
    formatText style (e.convert source) = (formatText style source).map e.convert :=
  e.rebreaks.formatText_eq style hs

end Ending

/-- A source with another ending for each of its line feeds is accepted if the source is, and its
tree is that of the source with the ending changed in the leads. It is rejected with the same
message, hint and column, and every style formats it to the text of the source with the ending
changed. -/
theorem parse_formatText_convert (e : Ending) (source : Text) :
    (parse (e.convert source)).isOk = (parse source).isOk ∧
      (∀ t, parse source = .ok t → parse (e.convert source) = .ok (t.mapLead e.convert)) ∧
      (∀ r, parse source = .error r → ∃ r', parse (e.convert source) = .error r' ∧
        (r'.report (e.convert source)).message = (r.report source).message ∧
        (r'.report (e.convert source)).hint = (r.report source).hint ∧
        (r'.report (e.convert source)).column = (r.report source).column) ∧
      ∀ style, (formatText style (e.convert source)).toOption =
        (formatText style source).toOption.map e.convert := by
  cases h : parse source with
  | ok t =>
    have hread := e.parse_convert h
    obtain ⟨ds, hds, -⟩ := parse_eq_ok_iff.1 h
    refine ⟨by rw [hread]; rfl, ?_, (fun r hr => by cases hr), fun style => ?_⟩
    · rintro _ ⟨⟩
      exact hread
    · rw [e.formatText_convert style hds]
      cases formatText style source <;> rfl
  | error r =>
    have hread := e.parse_convert_error h
    refine ⟨by rw [hread]; rfl, (fun t ht => by cases ht), ?_, fun style => ?_⟩
    · rintro _ ⟨⟩
      exact ⟨_, hread, rfl, rfl, rfl⟩
    · rw [toOption_formatText_of_error style h, toOption_formatText_of_error style hread]
      rfl

/-- A source with comments on two lines, and one with a tab in its second line. -/
theorem parse_formatText_convert_pair :
    (∃ t, parse "a: # b\n    # c\n    - d\n".toList = .ok t ∧
      parse "a: # b\r\n    # c\r\n    - d\r\n".toList = .ok (t.mapLead Ending.pair.convert) ∧
      (formatText .standard "a: # b\r\n    # c\r\n    - d\r\n".toList).toOption =
        some "a: # b\r\n  # c\r\n  - d\r\n".toList) ∧
    ∃ r r', parse "a:\n\tb\n".toList = .error r ∧ parse "a:\r\tb\r".toList = .error r' ∧
      (r'.report "a:\r\tb\r".toList).message = (r.report "a:\n\tb\n".toList).message := by
  constructor
  · have h : (parse "a: # b\n    # c\n    - d\n".toList).isOk := by decide +kernel
    have hout : (formatText .standard "a: # b\n    # c\n    - d\n".toList).toOption =
        some "a: # b\n  # c\n  - d\n".toList := by decide +kernel
    obtain ⟨t, ht⟩ := exists_eq_ok_of_isOk h
    obtain ⟨-, hread, -, hformat⟩ :=
      parse_formatText_convert .pair "a: # b\n    # c\n    - d\n".toList
    refine ⟨t, ht, hread t ht, (hformat .standard).trans ?_⟩
    rw [hout]
    rfl
  · have h : (parse "a:\n\tb\n".toList).isOk = false := by decide +kernel
    obtain ⟨r, hr⟩ := exists_eq_error_of_isOk_eq_false h
    obtain ⟨-, -, hread, -⟩ := parse_formatText_convert .carriageReturn "a:\n\tb\n".toList
    obtain ⟨r', hr', hmessage, -⟩ := hread r hr
    exact ⟨r, r', hr, hr', hmessage⟩

end YamlIndent
