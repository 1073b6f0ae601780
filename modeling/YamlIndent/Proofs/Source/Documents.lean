import YamlIndent.Proofs.Source.Reading
import YamlIndent.Source.Stream

/-!
# Reading documents

A document is its lead, its mark or none, its block or none, and its end. The places at which one
document ends and the next begins are at the start of a line or behind a `...`, so the line in front
of a document belongs to what makes it part of a stream.

## Main definitions

* `Document`: a document, with its text (`written`) and its tree (`tree`).
* `Document.Laid`: a document that is read where it is written, on a line and with some text after
  it; and `LaidAll`, for documents one after another.
* `Consists`: a source is the text of some documents that are laid.

## Main results

* `documents_eq_ok`: documents that are laid are read.
* `exists_documents_of_eq_ok`: what is read are such documents.
* `parse_eq_ok_iff`: a source has the tree of the documents that are laid in it.
-/

namespace YamlIndent

/-- A document as it is written. -/
structure Document where
  lead : Text
  /-- Whether it begins with a `---`. -/
  marked : Bool
  block : Block
  endLead : Text
  /-- Whether it ends with a `...`. -/
  ended : Bool

namespace Document

/-- The mark that a document begins with, if it has one. -/
def mark (d : Document) : Text :=
  if d.marked then Place.startMark else []

/-- The mark that a document ends with, if it has one. -/
def endText (d : Document) : Text :=
  if d.ended then Place.endMark else []

/-- What stands behind the block of a document. -/
def afterBlock (d : Document) (after : Text) : Text :=
  d.endLead ++ (d.endText ++ after)

/-- What stands behind the lead of a document. -/
def afterLead (d : Document) (after : Text) : Text :=
  d.mark ++ (d.block.written ++ d.afterBlock after)

/-- The text of a document. -/
def written (d : Document) : Text :=
  d.lead ++ (d.mark ++ (d.block.written ++ (d.endLead ++ d.endText)))

theorem written_append (d : Document) (after : Text) :
    d.written ++ after = d.lead ++ d.afterLead after := by
  simp only [written, afterLead, afterBlock, List.append_assoc]

/-- The tree of a document. -/
def tree (d : Document) : Tree :=
  ⟨(), .document, d.lead, d.mark,
    d.block.children ++ [⟨(), .documentEnd, d.endLead, d.endText, []⟩]⟩

/-- The line in front of the block of a document. -/
def blockLine (line : Text) (d : Document) : Text :=
  lineAfter (lineAfter line d.lead) d.mark

/-- The line on which a document ends. -/
def endLine (line : Text) (d : Document) : Text :=
  lineAfter (lineAfter (d.blockLine line) d.block.written) d.endLead

end Document

/-! ### Documents that are laid -/

/-- A block opens behind some text on its line: no mark of a document stands there, and entries are
nested from the column where they open. -/
def Block.Opens (line after : Text) : Block → Prop
  | .empty => True
  | .scalar lead text => headOf? (text ++ after) = none ∧
      Place.atDocumentMark ⟨lineAfter line lead, text ++ after⟩ = false
  | .entries es =>
    let place : Place := ⟨lineAfter line es.lead, es.head.source ++ (es.tail ++ after)⟩
    place.atDocumentMark = false ∧ place.tabbed = false ∧ es.Nested place.column

/-- The gaps of a document go as far as the text behind them lets them, and its tokens are read
where they are written. -/
structure Document.Spaced (after : Text) (d : Document) : Prop where
  gap : GapBefore d.lead (d.afterLead after)
  spelled : d.block.Spelled (d.afterBlock after)
  endGap : GapBefore d.endLead (d.endText ++ after)

/-- A document is read where it is written, behind some text on its line and with some text after
it. -/
structure Document.Laid (line after : Text) (d : Document) : Prop extends d.Spaced after where
  marked_eq : Place.atMark Place.startMark ⟨lineAfter line d.lead, d.afterLead after⟩ = d.marked
  opens : d.block.Opens (d.blockLine line) (d.afterBlock after)
  ended_eq : Place.atMark Place.endMark ⟨d.endLine line, d.endText ++ after⟩ = d.ended
  /-- A document ends with its own mark, with the source, or in front of the next mark. -/
  stops : d.ended ∨ after = [] ∨ Place.atMark Place.startMark ⟨d.endLine line, after⟩

/-- The tree of a stream of documents. -/
def streamTree (ds : List Document) : Tree :=
  ⟨(), .stream, [], [], ds.map Document.tree⟩

/-- The text of some documents. -/
def writtenAll : List Document → Text
  | [] => []
  | d :: ds => d.written ++ writtenAll ds

theorem writtenAll_append (ds es : List Document) :
    writtenAll (ds ++ es) = writtenAll ds ++ writtenAll es := by
  induction ds with
  | nil => rfl
  | cons d ds ih => rw [List.cons_append, writtenAll, writtenAll, ih, List.append_assoc]

/-- Documents are laid one after another, and each that follows another has some text. -/
def LaidAll (line : Text) : List Document → Prop
  | [] => True
  | d :: ds => d.Laid line (writtenAll ds) ∧ (writtenAll ds = [] → ds = []) ∧
      LaidAll (lineAfter line d.written) ds

/-! ### What is written is read -/

variable {line after : Text}

theorem lineAfter_ne_nil_of_ne_nil {t : Text} (hb : hasBreak t = false) (ht : t ≠ [])
    (line : Text) : lineAfter line t ≠ [] := by
  rw [lineAfter_of_not_hasBreak hb]
  exact fun h => ht (List.reverse_eq_nil_iff.1 (List.append_eq_nil_iff.1 h).1)

mutual

/-- A block leaves the line on which it ends begun, if it finds it begun. -/
theorem Block.lineAfter_written_ne_nil {after line : Text} : (b : Block) → b.Spelled after →
    line ≠ [] ∨ b.children ≠ [] → lineAfter line b.written ≠ []
  | .empty, _, h => h.resolve_right fun h => h rfl
  | .scalar lead text, hs, _ => by
    rw [Block.Spelled] at hs
    have htoken := hs.2.1.1.startsToken fun h => hs.1 (List.append_eq_nil_iff.1 h).1
    rw [Block.written, lineAfter_append]
    exact lineAfter_ne_nil_of_ne_nil (hasBreak_of_scalarOf? htoken hs.2.2) hs.1 _
  | .entries es, hs, _ => by
    rw [Block.Spelled] at hs
    rw [Block.written]
    exact Entries.lineAfter_written_ne_nil es hs

/-- Entries leave the line on which they end begun. -/
theorem Entries.lineAfter_written_ne_nil {after line : Text} : (es : Entries) → es.Spelled after →
    lineAfter line es.written ≠ []
  | .last lead head value, hs => by
    rw [Entries.Spelled] at hs
    rw [Entries.written, lineAfter_append, lineAfter_append]
    exact Block.lineAfter_written_ne_nil value hs.2.2 (.inl (lineAfter_source_ne_nil hs.1.2 _))
  | .more lead head value others, hs => by
    rw [Entries.Spelled] at hs
    rw [Entries.written, lineAfter_append, lineAfter_append, lineAfter_append]
    exact Entries.lineAfter_written_ne_nil others hs.2.2.2

end

theorem Place.atMark_eq (mark line rest : Text) :
    atMark mark ⟨line, rest⟩ =
      (line.isEmpty && (mark.isPrefixOf rest && endsToken (rest.drop mark.length))) := by
  rw [atMark, Bool.and_assoc]

theorem Place.atMark_append_eq (mark line rest : Text) :
    atMark mark ⟨line, mark ++ rest⟩ = (line.isEmpty && endsToken rest) := by
  have hp : mark.isPrefixOf (mark ++ rest) = true := by
    rw [List.isPrefixOf_iff_prefix]
    exact List.prefix_append mark rest
  rw [atMark_eq, hp, List.drop_left, Bool.true_and]

theorem Place.atDocumentMark_eq_or (p : Place) :
    p.atDocumentMark = (p.atMark startMark || p.atMark endMark) := rfl

theorem Place.takeMark_eq {mark line rest : Text} {b : Bool}
    (h : atMark mark ⟨line, (if b then mark else []) ++ rest⟩ = b) :
    takeMark mark ⟨line, (if b then mark else []) ++ rest⟩ =
      (if b then mark else [], ⟨lineAfter line (if b then mark else []), rest⟩) := by
  cases b with
  | false => rw [takeMark, h]; rfl
  | true =>
    simp only [if_true] at h ⊢
    rw [takeMark, if_pos h, past, List.drop_left]

/-- A mark of a document stands behind some text on a line only if a break is in between. -/
theorem standsAt_zero_of_atDocumentMark {gap rest : Text} (hl : line ≠ [])
    (h : Place.atDocumentMark ⟨lineAfter line gap, rest⟩) :
    StandsAt gap 0 ∧ startsMark rest := by
  rw [Place.atDocumentMark_eq, Bool.and_eq_true, List.isEmpty_iff] at h
  refine ⟨?_, h.2⟩
  by_cases hb : hasBreak gap
  · rw [lineAfter_of_hasBreak hb, List.reverse_eq_nil_iff] at h
    exact ⟨hb, h.1⟩
  · exact absurd h.1 (lineAfter_ne_nil hl (by simpa using hb))

namespace Document

variable {d : Document}

theorem Spaced.afterLead_ne_nil (h : d.Spaced after) (hb : d.block.children ≠ []) :
    d.afterLead after ≠ [] := by
  intro he
  rw [afterLead] at he
  simp only [List.append_eq_nil_iff] at he
  have hw : lineAfter [] d.block.written ≠ [] :=
    Block.lineAfter_written_ne_nil d.block h.spelled (.inr hb)
  rw [he.2.1] at hw
  exact hw rfl

/-- Where a document ends, the source does, or a mark stands. -/
theorem end_cases
    (hended : Place.atMark Place.endMark ⟨d.endLine line, d.endText ++ after⟩ = d.ended)
    (hstops : d.ended ∨ after = [] ∨ Place.atMark Place.startMark ⟨d.endLine line, after⟩) :
    d.endText ++ after = [] ∨ Place.atDocumentMark ⟨d.endLine line, d.endText ++ after⟩ := by
  cases hd : d.ended with
  | true =>
    rw [hd] at hended
    rw [Place.atDocumentMark_eq_or, hended, Bool.or_true]
    exact .inr rfl
  | false =>
    rw [endText, hd, Place.atDocumentMark_eq_or]
    rcases hstops with he | he | he
    · rw [hd] at he
      cases he
    · exact .inl he
    · exact .inr (by rw [if_neg Bool.false_ne_true, List.nil_append, he, Bool.true_or])

theorem Laid.end_cases (h : d.Laid line after) : d.endText ++ after = [] ∨
    Place.atDocumentMark ⟨d.endLine line, d.endText ++ after⟩ :=
  Document.end_cases h.ended_eq h.stops

/-- A block ends where its document does. -/
theorem Laid.endsBlock (h : d.Laid line after) (hb : d.block.children ≠ []) (kind : Kind)
    (column : Nat) : EndsBlock kind column (d.afterBlock after) := by
  refine ⟨d.endLead, d.endText ++ after, rfl, h.endGap, h.end_cases.imp_right fun hm => .inl ?_⟩
  exact standsAt_zero_of_atDocumentMark (Block.lineAfter_written_ne_nil _ h.spelled (.inr hb)) hm

theorem Laid.documentBlock_empty (h : d.Laid line after) (hb : d.block = .empty) :
    documentBlock ⟨d.blockLine line, d.afterBlock after⟩ =
      .ok ([], ⟨d.blockLine line, d.afterBlock after⟩) := by
  have hend := h.end_cases
  rw [endLine, hb, Block.written] at hend
  have hstop : (Place.atEnd ⟨lineAfter (d.blockLine line) d.endLead, d.endText ++ after⟩ ||
      Place.atDocumentMark ⟨lineAfter (d.blockLine line) d.endLead, d.endText ++ after⟩) =
        true := by
    rcases hend with he | he
    · rw [he]
      rfl
    · have he' : Place.atDocumentMark
        ⟨lineAfter (d.blockLine line) d.endLead, d.endText ++ after⟩ = true := he
      rw [he', Bool.or_true]
  rw [documentBlock, afterBlock, Place.gap_eq h.endGap]
  simp only [hstop, if_true]
  rfl

theorem documentBlock_scalar {lead text : Text} (hs : (Block.scalar lead text).Spelled after)
    (ho : (Block.scalar lead text).Opens line after) :
    documentBlock ⟨line, lead ++ (text ++ after)⟩ =
      .ok ([Head.scalarNode lead text], ⟨lineAfter (lineAfter line lead) text, after⟩) := by
  rw [Block.Spelled] at hs
  have hnot : (Place.atEnd ⟨lineAfter line lead, text ++ after⟩ ||
      Place.atDocumentMark ⟨lineAfter line lead, text ++ after⟩) = false := by
    rw [ho.2, Bool.or_false]
    cases text with
    | nil => exact absurd rfl hs.1
    | cons c text => rfl
  rw [documentBlock, Place.gap_eq hs.2.1.1]
  simp only [hnot, Bool.false_eq_true, if_false, Place.opening_of_scalarOf? ho.1 hs.2.2,
    Opening.read]
  rfl

theorem documentBlock_entries {es : Entries} (hs : es.Spelled after)
    (ho : (Block.entries es).Opens line after)
    (hend : EndsBlock es.head.blockKind (lineAfter line es.lead).length after) :
    documentBlock ⟨line, es.written ++ after⟩ =
      .ok ([(Block.entries es).tree], ⟨lineAfter line es.written, after⟩) := by
  obtain ⟨hm, ht, hn⟩ := ho
  have hat := Entries.spelledAt hs
  have hnot : (Place.atEnd ⟨lineAfter line es.lead, es.head.source ++ (es.tail ++ after)⟩ ||
      Place.atDocumentMark ⟨lineAfter line es.lead, es.head.source ++ (es.tail ++ after)⟩) =
        false := by
    rw [hm, Bool.or_false]
    cases hsrc : es.head.source with
    | nil => exact absurd hsrc (source_ne_nil hat.2)
    | cons c text => rfl
  have hc : Place.checkedColumn ⟨lineAfter line es.lead, es.head.source ++ (es.tail ++ after)⟩ =
      .ok (lineAfter line es.lead).length := by
    rw [Place.checkedColumn, ht, if_neg Bool.false_ne_true, Place.column]
  have hread := Entries.entries_eq_ok es hs hn hend
  rw [es.written_eq, List.append_assoc, List.append_assoc, documentBlock, Place.gap_eq hat.1.1]
  simp only [hnot, Bool.false_eq_true, if_false, Place.opening_of_headOf? hm hat.2 hc,
    Opening.read, bind, Except.bind, hread, Block.tree, lineAfter_append]
  rfl

theorem Laid.block_eq_ok (h : d.Laid line after) :
    documentBlock ⟨d.blockLine line, d.block.written ++ d.afterBlock after⟩ =
      .ok (d.block.children,
        ⟨lineAfter (d.blockLine line) d.block.written, d.afterBlock after⟩) := by
  have hs := h.spelled
  have ho := h.opens
  have hends := h.endsBlock
  cases hb : d.block with
  | empty => exact h.documentBlock_empty hb
  | scalar lead text =>
    rw [hb] at hs ho
    rw [Block.written, List.append_assoc, documentBlock_scalar hs ho, lineAfter_append]
    rfl
  | entries es =>
    rw [hb] at hs ho
    exact documentBlock_entries hs ho (hends (by rw [hb]; exact List.cons_ne_nil _ _) _ _)

theorem lineAfter_written (line : Text) (d : Document) :
    lineAfter line d.written = lineAfter (d.endLine line) d.endText := by
  rw [endLine, blockLine, written]
  simp only [lineAfter_append]

theorem Laid.takeMark_eq (h : d.Laid line after) :
    Place.takeMark Place.startMark ⟨lineAfter line d.lead, d.afterLead after⟩ =
      (d.mark, ⟨d.blockLine line, d.block.written ++ d.afterBlock after⟩) :=
  Place.takeMark_eq h.marked_eq

theorem Laid.takeEndMark_eq (h : d.Laid line after) :
    Place.takeMark Place.endMark ⟨d.endLine line, d.endText ++ after⟩ =
      (d.endText, ⟨lineAfter line d.written, after⟩) := by
  rw [lineAfter_written]
  exact Place.takeMark_eq h.ended_eq

theorem Laid.end_eq_ok (h : d.Laid line after) :
    documentEnd ⟨lineAfter (d.blockLine line) d.block.written, d.afterBlock after⟩ =
      .ok (⟨(), .documentEnd, d.endLead, d.endText, []⟩, ⟨lineAfter line d.written, after⟩) := by
  have hgap : Place.gap ⟨lineAfter (d.blockLine line) d.block.written, d.afterBlock after⟩ =
      (d.endLead, ⟨d.endLine line, d.endText ++ after⟩) := Place.gap_eq h.endGap _
  simp only [documentEnd, hgap, h.ended_eq, h.takeEndMark_eq]
  cases hd : d.ended with
  | true => rfl
  | false =>
    have htext : d.endText = [] := by rw [endText, hd]; rfl
    have hstop : (Place.atEnd ⟨d.endLine line, after⟩ ||
        Place.atMark Place.startMark ⟨d.endLine line, after⟩) = true := by
      rcases h.stops with he | he | he
      · rw [hd] at he
        cases he
      · rw [he]
        rfl
      · rw [he, Bool.or_true]
    simp only [htext, List.nil_append, hstop, lineAfter_written, Bool.false_eq_true, if_false,
      if_true]
    rfl

/-- A document that is laid is read as it is written. -/
theorem Laid.document_eq_ok (h : d.Laid line after) :
    document ⟨line, d.written ++ after⟩ = .ok (d.tree, ⟨lineAfter line d.written, after⟩) := by
  rw [written_append]
  simp only [document, Place.gap_eq h.gap, h.takeMark_eq, h.block_eq_ok, h.end_eq_ok, bind,
    Except.bind]
  rfl

end Document

theorem documents_of_document {p q : Place} {t : Tree} (h : document p = .ok (t, q)) :
    documents p = if q.atEnd then .ok [t] else (documents q).map (t :: ·) := by
  rw [documents_eq, h]
  rfl

/-- Documents that are laid are read as they are written. -/
theorem documents_eq_ok {line : Text} {d : Document} {ds : List Document}
    (h : LaidAll line (d :: ds)) :
    documents ⟨line, writtenAll (d :: ds)⟩ = .ok ((d :: ds).map Document.tree) := by
  induction ds generalizing line d with
  | nil =>
    rw [writtenAll, documents_of_document h.1.document_eq_ok]
    rfl
  | cons e ds ih =>
    have hend : Place.atEnd ⟨lineAfter line d.written, writtenAll (e :: ds)⟩ = false := by
      rw [Place.atEnd, List.isEmpty_eq_false_iff]
      exact fun he => List.cons_ne_nil _ _ (h.2.1 he)
    rw [writtenAll, documents_of_document h.1.document_eq_ok, hend, if_neg Bool.false_ne_true,
      ih h.2.2]
    rfl

/-! ### What is read was written -/

theorem Place.takeMark_cases (mark line rest : Text) :
    ∃ b t, rest = (if b then mark else []) ++ t ∧
      atMark mark ⟨line, (if b then mark else []) ++ t⟩ = b ∧
      takeMark mark ⟨line, rest⟩ =
        (if b then mark else [], ⟨lineAfter line (if b then mark else []), t⟩) := by
  cases hb : atMark mark ⟨line, rest⟩ with
  | true =>
    have happ := atMark_append hb
    refine ⟨true, rest.drop mark.length, happ.symm, ?_, ?_⟩
    · rw [if_pos rfl, happ, hb]
    · rw [takeMark, if_pos hb, if_pos rfl]
      rfl
  | false =>
    refine ⟨false, rest, rfl, hb, ?_⟩
    rw [takeMark, hb]
    rfl

/-- What is read as the block of a document was written as one that is spelled and opens there. -/
theorem exists_block_of_documentBlock {line t : Text} {trees : List Tree} {q : Place}
    (h : documentBlock ⟨line, t⟩ = .ok (trees, q)) :
    ∃ b : Block, b.children = trees ∧ t = b.written ++ q.rest ∧ b.Spelled q.rest ∧
      b.Opens line q.rest := by
  obtain ⟨lead, rest, rfl, hg, hgap⟩ := Place.exists_gap_eq line t
  simp only [documentBlock, hgap] at h
  split at h
  · cases h
    exact ⟨.empty, rfl, rfl, trivial, trivial⟩
  · rename_i hend
    rw [Bool.or_eq_true, not_or, Bool.not_eq_true, Bool.not_eq_true] at hend
    obtain ⟨hend, hm⟩ := hend
    obtain ⟨o, ho, h⟩ := exists_of_bind_eq_ok h
    obtain ⟨⟨tree, p⟩, hr, h⟩ := exists_of_bind_eq_ok h
    cases h
    have hi := Place.introduces_of_atDocumentMark hg hm
    rcases Place.opening_cases hm ho with ⟨head, r, rfl, hn, hc, rfl⟩ |
      ⟨hn, text, after, rfl, hsc, rfl⟩
    · obtain ⟨⟨trees, p'⟩, hes, hr⟩ := exists_of_bind_eq_ok hr
      cases hr
      obtain ⟨es, rfl, rfl, rfl, rfl, hs, hnested⟩ := exists_entries_of_eq_ok hes ⟨hi, hn⟩
      have htab : Place.tabbed ⟨lineAfter line es.lead, es.head.source ++ (es.tail ++ p.rest)⟩ =
          false := by
        rw [Place.checkedColumn] at hc
        split at hc
        · cases hc
        · rename_i ht
          exact eq_false_of_ne_true ht
      refine ⟨.entries es, ?_, ?_, hs, hm, htab, hnested⟩
      · rw [Block.children, Block.tree]
      · rw [Block.written, es.written_eq, List.append_assoc, List.append_assoc]
    · cases hr
      have htoken : startsToken (text ++ after) := hg.startsToken fun he => by
        rw [he] at hend
        cases hend
      refine ⟨.scalar lead text, ?_, (List.append_assoc _ _ _).symm, ?_, hn, hm⟩
      · rw [Block.children, Block.tree]
      · exact ⟨scalarOf?_ne_nil htoken hsc, hi, hsc⟩

/-- What is read as the end of a document was written as a gap and a mark or none. -/
theorem exists_of_documentEnd {line t : Text} {tree : Tree} {q : Place}
    (h : documentEnd ⟨line, t⟩ = .ok (tree, q)) :
    ∃ lead ended, t = lead ++ ((if ended then Place.endMark else []) ++ q.rest) ∧
      tree = ⟨(), .documentEnd, lead, if ended then Place.endMark else [], []⟩ ∧
      GapBefore lead ((if ended then Place.endMark else []) ++ q.rest) ∧
      Place.atMark Place.endMark
        ⟨lineAfter line lead, (if ended then Place.endMark else []) ++ q.rest⟩ = ended ∧
      (ended ∨ q.rest = [] ∨ Place.atMark Place.startMark ⟨lineAfter line lead, q.rest⟩) := by
  obtain ⟨lead, rest, rfl, hg, hgap⟩ := Place.exists_gap_eq line t
  obtain ⟨ended, r, rfl, hm, htake⟩ :=
    Place.takeMark_cases Place.endMark (lineAfter line lead) rest
  simp only [documentEnd, hgap, hm, htake] at h
  cases ended with
  | true =>
    cases h
    exact ⟨lead, true, rfl, rfl, hg, hm, .inl rfl⟩
  | false =>
    simp only [Bool.false_eq_true, if_false, List.nil_append] at h
    split at h
    · rename_i hstop
      cases h
      refine ⟨lead, false, rfl, rfl, hg, hm, .inr ?_⟩
      rw [Bool.or_eq_true] at hstop
      exact hstop.imp_left List.isEmpty_iff.1
    · cases h

/-- What is read as a document was written as one that is laid. -/
theorem exists_document_of_eq_ok {line t : Text} {tree : Tree} {q : Place}
    (h : document ⟨line, t⟩ = .ok (tree, q)) :
    ∃ d : Document, d.tree = tree ∧ t = d.written ++ q.rest ∧ d.Laid line q.rest ∧
      q.line = lineAfter line d.written := by
  have hleads := leads_document h
  obtain ⟨block, last, p, hb, he, rfl⟩ := document_parts h
  obtain ⟨lead, rest, rfl, hg, hgap⟩ := Place.exists_gap_eq line t
  obtain ⟨marked, content, rfl, hm, htake⟩ :=
    Place.takeMark_cases Place.startMark (lineAfter line lead) rest
  rw [hgap] at hb
  simp only [htake] at hb
  have hblock := leads_documentBlock hb
  obtain ⟨b, rfl, rfl, hs, ho⟩ := exists_block_of_documentBlock hb
  obtain ⟨pline, prest⟩ := p
  obtain ⟨endLead, ended, hrest, rfl, hg', hm', hstop⟩ := exists_of_documentEnd he
  have hline : pline = lineAfter (lineAfter (lineAfter line lead)
      (if marked then Place.startMark else [])) b.written :=
    congrArg Place.line (hblock.eq_past rfl)
  subst hrest hline
  let d : Document := ⟨lead, marked, b, endLead, ended⟩
  have hw : lead ++ d.afterLead q.rest = d.written ++ q.rest := (d.written_append q.rest).symm
  refine ⟨d, ?_, hw, ?_, ?_⟩
  · simp only [hgap, htake]
    rfl
  · exact ⟨⟨hg, hs, hg'⟩, hm, ho, hm', hstop⟩
  · exact congrArg Place.line (hleads.eq_past hw)

/-- What is read as documents was written as some that are laid one after another. -/
theorem exists_documents_of_eq_ok {line t : Text} {trees : List Tree}
    (h : documents ⟨line, t⟩ = .ok trees) :
    ∃ ds : List Document, ds ≠ [] ∧ ds.map Document.tree = trees ∧ t = writtenAll ds ∧
      LaidAll line ds := by
  rw [documents_eq] at h
  obtain ⟨⟨tree, q⟩, hd, h⟩ := exists_of_bind_eq_ok h
  obtain ⟨d, rfl, ht, hl, hq⟩ := exists_document_of_eq_ok hd
  split at h
  · rename_i hend
    cases h
    have hrest : q.rest = [] := List.isEmpty_iff.1 hend
    rw [hrest] at hl ht
    exact ⟨[d], List.cons_ne_nil _ _, rfl, ht, hl, fun _ => rfl, trivial⟩
  · rename_i hend
    have hlt : q.rest.length < t.length := document_length_lt hd (eq_false_of_ne_true hend)
    obtain ⟨trees, hds, rfl⟩ := exists_of_map_eq_ok h
    obtain ⟨qline, qrest⟩ := q
    obtain ⟨ds, hne, rfl, hrest, hall⟩ := exists_documents_of_eq_ok hds
    subst hq
    rw [hrest] at ht hl hend
    refine ⟨d :: ds, List.cons_ne_nil _ _, rfl, ht, hl, fun he => ?_, hall⟩
    rw [he] at hend
    exact absurd rfl hend
termination_by t.length

/-- A source consists of documents: they are laid one after another, and it is their text. -/
structure Consists (source : Text) (ds : List Document) : Prop where
  ne_nil : ds ≠ []
  laid : LaidAll [] ds
  written_eq : writtenAll ds = source

/-- A source has a tree if and only if it consists of documents that have it. -/
theorem parse_eq_ok_iff {source : Text} {t : Tree} :
    parse source = .ok t ↔ ∃ ds, Consists source ds ∧ t = streamTree ds := by
  constructor
  · intro h
    obtain ⟨trees, hds, rfl⟩ := exists_of_map_eq_ok h
    obtain ⟨ds, hne, rfl, hw, hall⟩ := exists_documents_of_eq_ok hds
    exact ⟨ds, ⟨hne, hall, hw.symm⟩, rfl⟩
  · rintro ⟨ds, ⟨hne, hall, rfl⟩, rfl⟩
    cases ds with
    | nil => exact absurd rfl hne
    | cons d ds => rw [parse, Place.start, documents_eq_ok hall]; rfl

end YamlIndent
