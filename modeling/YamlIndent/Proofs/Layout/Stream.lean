import YamlIndent.Proofs.Layout.Bare
import YamlIndent.Proofs.Layout.Documents
import YamlIndent.Proofs.Layout.Lined

/-!
# Streams laid out in a style

Documents that are laid out one after another are read back just where each of them may: where the
block of each has room for its shift, and where no comment trails a `...`, since the comments that a
document begins with go to the margin.

## Main definitions

* `RoomAll`: the block of each document has room for its shift.
* `Keeps`: a style keeps some documents apart and nested as they are.

## Main results

* `layoutAll_iff`: documents that are laid out are laid if and only if the style keeps them.
* `eq_of_bareAll_eq`: documents are determined by their bare trees and their text.
* `Document.Laid.lined`, `Document.Lined.layout`: documents are lined up where they are laid, and
  where they were laid out.
* `Document.Lined.layout_layout`: of two styles that a document is laid out in the later one counts.
-/

namespace YamlIndent

variable {style : Style} {line lead after after' : Text} {d d' : Document} {ds : List Document}

/-- The block of each document has room for its shift. -/
def RoomAll (style : Style) (line : Text) : List Document → Prop
  | [] => True
  | d :: ds => d.block.HasRoomTop style (d.shift line) ∧ RoomAll style (lineAfter line d.written) ds

/-- A style keeps documents apart and nested as they are: there is room, and no comment trails the
mark in front of a document. -/
def Keeps (style : Style) (ds : List Document) : Prop :=
  RoomAll style [] ds ∧ ∀ d ∈ ds.tail, '#' ∉ firstLine d.lead

/-! ### Documents in front of documents -/

theorem isGap_firstLine {gap : Text} (h : isGap false gap) : isGap false (firstLine gap) := by
  obtain ⟨rest, -, he⟩ := firstLine_append_rest gap
  rw [he, isGap_append, Bool.and_eq_true] at h
  exact h.1

/-- A mark still ends in front of a document's lead that is realigned, if and only if no comment
trails it there. -/
theorem endsToken_realignDocument {s t : Text} (hg : isGap false lead) (hs : s.head? = t.head?)
    (he : endsToken (lead ++ t)) :
    endsToken (realignDocument 0 lead ++ s) ↔ '#' ∉ firstLine lead := by
  have hstay (hb : (firstLine lead).all isBlank) :
      realignDocument 0 lead = realign 0 lead := by
    have hp : placeComment 0 (cutLines lead).1 = (cutLines lead).1 :=
      placeComment_of_all_isBlank hb 0
    rw [realignDocument, realign, hp]
  rcases isGap_line_cases (hasBreak_firstLine lead) (isGap_firstLine hg) with
    ⟨hb, -⟩ | ⟨blanks, comment, hb, -, hline⟩
  · have hhead : (realignDocument 0 lead ++ s).head? = (lead ++ t).head? := by
      rw [hstay hb]
      exact head?_append_congr (head?_realign 0 lead) hs
    rw [endsToken_eq_of_head?_eq hhead]
    exact iff_of_true he (not_mem_of_all_isBlank hb)
  · have hp : placeComment 0 (cutLines lead).1 = '#' :: comment := by
      have : (cutLines lead).1 = blanks ++ '#' :: comment := hline
      rw [this, placeComment_append_comment hb]
      rfl
    rw [realignDocument, hp]
    refine iff_of_false Bool.false_ne_true ?_
    rw [hline]
    simp

theorem realignDocument_eq_nil (h : realignDocument 0 lead = []) : lead = [] := by
  have hb : hasBreak lead = false := by
    rw [← hasBreak_realignDocument 0, h]
    rfl
  rw [realignDocument_eq_mapLines, mapLines_of_not_hasBreak _ _ hb] at h
  rcases placeComment_cases lead with ⟨front, comment, -, hp⟩ | hp
  · rw [hp] at h
    cases h
  · rw [← hp 0, h]

/-- A document behind an unmarked end begins with its mark. -/
theorem Document.Laid.marked_of_atMark (h : d.Laid [] after)
    (hm : Place.atMark Place.startMark ⟨[], d.written ++ after⟩) :
    d.lead = [] ∧ d.marked = true := by
  have htoken : startsToken (d.lead ++ d.afterLead after) := by
    rw [← d.written_append]
    have hrest : Place.startMark ++ (d.written ++ after).drop 3 = d.written ++ after :=
      Place.atMark_append hm
    rw [← hrest]
    rfl
  have hlead := eq_nil_of_isGap h.gap.1 htoken
  refine ⟨hlead, ?_⟩
  have hmarked := h.marked_eq
  rw [d.written_append, hlead] at hm
  rw [hlead] at hmarked
  exact hmarked.symm.trans hm

/-- The line in front of the next document is the end of the last line of this one. -/
theorem Document.Laid.lineAfter_written_eq (h : d.Laid line after) (hne : after ≠ []) :
    lineAfter line d.written = lineAfter [] d.endText := by
  have hrest : d.endText ++ after ≠ [] := fun he => hne (List.append_eq_nil_iff.1 he).2
  rw [Document.lineAfter_written, h.endLine_eq_nil hrest]

/-- Behind a document without a mark at its end, another begins with its mark. -/
theorem LaidAll.next_marked {e : Document} {es : List Document} (h : LaidAll line (d :: e :: es))
    (hd : d.ended = false) : e.lead = [] ∧ e.mark = Place.startMark ∧
      endsToken (e.block.written ++ e.afterBlock (writtenAll es)) := by
  obtain ⟨hl, hne, he, -⟩ := h
  have hW : writtenAll (e :: es) ≠ [] := fun he => List.cons_ne_nil _ _ (hne he)
  have hstart : Place.atMark Place.startMark ⟨d.endLine line, writtenAll (e :: es)⟩ := by
    rcases hl.stops with he | he | he
    · rw [hd] at he
      cases he
    · cases hne he
    · exact he
  have hend : d.endLine line = [] := hl.endLine_eq_nil fun he => hW (List.append_eq_nil_iff.1 he).2
  have hline : lineAfter line d.written = [] := by
    rw [hl.lineAfter_written_eq hW, Document.endText, hd]
    rfl
  rw [hline] at he
  rw [hend] at hstart
  obtain ⟨hlead, hmarked⟩ := he.marked_of_atMark hstart
  have hmark : e.mark = Place.startMark := by rw [Document.mark, hmarked]; rfl
  have hends := he.marked_eq
  rw [hlead, Document.afterLead, hmark, Place.atMark_append_eq, hmarked] at hends
  exact ⟨hlead, hmark, hends⟩

/-- Where a document with a lead follows another one, that one ends with its mark, so the lead
begins with a blank or a break. -/
theorem LaidAll.endsToken_next {e : Document} {es : List Document} (h : LaidAll line (d :: e :: es))
    (hl : e.lead ≠ []) : d.ended ∧ endsToken e.lead := by
  cases hended : d.ended with
  | false => exact absurd (h.next_marked hended).1 hl
  | true =>
    have hmark := h.1.ended_eq
    rw [Document.endText, hended, if_pos rfl, Place.atMark_append_eq, Bool.and_eq_true, writtenAll,
      e.written_append] at hmark
    obtain ⟨c, lead, hlead⟩ := List.exists_cons_of_ne_nil hl
    have hends := hmark.2
    rw [hlead] at hends ⊢
    exact ⟨rfl, hends⟩

/-- What follows a document begins alike where it is laid out. -/
theorem LaidAll.followedAlike (style : Style) {line : Text} : {d : Document} →
    {ds : List Document} → LaidAll line (d :: ds) →
    d.FollowedAlike (writtenAll (ds.map (Document.layout style))) (writtenAll ds)
  | d, [], _ => fun _ => .inl ⟨rfl, rfl⟩
  | d, e :: es, h => by
    intro hd
    obtain ⟨hlead, hmark, hends⟩ := h.next_marked hd
    have hnext := LaidAll.followedAlike style h.2.2
    have hlead' : (e.layout style).lead = [] := by
      rw [Document.layout, hlead]
      rfl
    refine .inr ⟨e.block.written ++ e.afterBlock (writtenAll es),
      (e.layout style).block.written ++
        (e.layout style).afterBlock (writtenAll (es.map (Document.layout style))),
      ?_, ?_, hends, ?_⟩
    · rw [writtenAll, e.written_append, hlead, Document.afterLead, hmark, List.nil_append]
    · rw [List.map_cons, writtenAll, Document.written_append, hlead', Document.afterLead,
        Document.mark_layout, hmark, List.nil_append]
    · rw [← hends]
      exact endsToken_eq_of_head?_eq
        (e.block.head?_layoutTop h.2.2.1.spelled (Document.head?_afterBlock hnext))

/-- Behind a `...`, documents that are laid out begin so that it is still a mark, if and only if no
comment trails it. Behind another document there is none. -/
theorem endsToken_writtenAll_layout_iff (style : Style) (h : LaidAll line (d :: ds)) :
    (d.ended → endsToken (writtenAll (ds.map (Document.layout style)))) ↔
      ∀ e ∈ ds.head?, '#' ∉ firstLine e.lead := by
  have hall := h
  obtain ⟨hl, -, hds⟩ := h
  cases ds with
  | nil =>
    refine iff_of_true (fun _ => rfl) ?_
    intro e he
    cases he
  | cons e es =>
    have he := hds.1
    have hone : (∀ x ∈ (e :: es).head?, '#' ∉ firstLine x.lead) ↔ '#' ∉ firstLine e.lead := by
      rw [List.head?_cons]
      exact ⟨fun h => h e rfl, fun h x hx => Option.some.inj hx ▸ h⟩
    rw [hone]
    have hW : writtenAll (e :: es) = e.lead ++ e.afterLead (writtenAll es) := e.written_append _
    have hW' : writtenAll ((e :: es).map (Document.layout style)) = realignDocument 0 e.lead ++
        (e.layout style).afterLead (writtenAll (es.map (Document.layout style))) :=
      (e.layout style).written_append _
    cases hd : d.ended with
    | true =>
      have hended := hl.ended_eq
      rw [Document.endText, hd, if_pos rfl, Place.atMark_append_eq, Bool.and_eq_true, hW] at hended
      rw [hW', endsToken_realignDocument he.gap.1
        (Document.head?_afterLead style he.toSpaced (hds.followedAlike style)) hended.2]
      exact ⟨fun h => h rfl, fun h _ => h⟩
    | false =>
      refine iff_of_true (fun h => Bool.noConfusion h) ?_
      rw [(hall.next_marked hd).1]
      exact List.not_mem_nil

/-- Documents that are laid out have some text if they had some before. -/
theorem LaidAll.writtenAll_layout_eq_nil (h : LaidAll line ds)
    (he : writtenAll (ds.map (Document.layout style)) = []) : writtenAll ds = [] := by
  cases ds with
  | nil => rfl
  | cons d ds =>
    have hW : writtenAll (d :: ds) = d.lead ++ d.afterLead (writtenAll ds) := d.written_append _
    have hW' : writtenAll ((d :: ds).map (Document.layout style)) = realignDocument 0 d.lead ++
        (d.layout style).afterLead (writtenAll (ds.map (Document.layout style))) :=
      (d.layout style).written_append _
    rw [hW', List.append_eq_nil_iff] at he
    have hhead := Document.head?_afterLead style h.1.toSpaced (h.followedAlike style)
    rw [hW, realignDocument_eq_nil he.1, eq_nil_of_head?_eq hhead.symm he.2]
    rfl

/-- The line in front of the next document is as before where a document is laid out. -/
theorem Document.Laid.lineAfter_written_layout (style : Style) (h : d.Laid line after)
    (hne : after ≠ []) : lineAfter line (d.layout style).written = lineAfter line d.written := by
  have hrest : d.endText ++ after ≠ [] := fun he => hne (List.append_eq_nil_iff.1 he).2
  rw [Document.lineAfter_written, h.endLine_layout_eq_nil hrest, h.lineAfter_written_eq hne]
  rfl

/-- Documents that are laid out are read where they are written, if and only if the style leaves
them room and no comment trails a mark in front of one of them. -/
theorem layoutAll_iff (style : Style) (h : LaidAll line ds) :
    LaidAll line (ds.map (Document.layout style)) ↔
      RoomAll style line ds ∧ ∀ d ∈ ds.tail, '#' ∉ firstLine d.lead := by
  induction ds generalizing line with
  | nil => exact iff_of_true trivial ⟨trivial, fun _ h => absurd h List.not_mem_nil⟩
  | cons d ds ih =>
    have hends := endsToken_writtenAll_layout_iff style h
    have hlayout := h.1.layout_iff style (h.followedAlike style)
    have hnil : writtenAll (ds.map (Document.layout style)) = [] →
        ds.map (Document.layout style) = [] := by
      intro he
      rw [h.2.1 (h.2.2.writtenAll_layout_eq_nil he)]
      rfl
    have hrest : LaidAll (lineAfter line (d.layout style).written)
        (ds.map (Document.layout style)) ↔
          RoomAll style (lineAfter line d.written) ds ∧ ∀ d ∈ ds.tail, '#' ∉ firstLine d.lead := by
      cases ds with
      | nil => exact iff_of_true trivial ⟨trivial, fun _ h => absurd h List.not_mem_nil⟩
      | cons e es =>
        rw [h.1.lineAfter_written_layout style fun he => List.cons_ne_nil _ _ (h.2.1 he)]
        exact ih h.2.2
    have hmem : (∀ e ∈ ds, '#' ∉ firstLine e.lead) ↔
        (∀ e ∈ ds.head?, '#' ∉ firstLine e.lead) ∧ ∀ e ∈ ds.tail, '#' ∉ firstLine e.lead := by
      cases ds <;> simp
    rw [List.map_cons, LaidAll, RoomAll, hlayout, hends, hrest, List.tail_cons, hmem]
    exact ⟨fun ⟨⟨hroom, hhead⟩, _, hrooms, htail⟩ => ⟨⟨hroom, hrooms⟩, hhead, htail⟩,
      fun ⟨⟨hroom, hrooms⟩, hhead, htail⟩ => ⟨⟨hroom, hhead⟩, hnil, hrooms, htail⟩⟩

/-! ### One text, one stream -/

/-- The gaps of documents go as far as they may, and their tokens are read where they are written.
-/
def SpacedAll : List Document → Prop
  | [] => True
  | d :: ds => d.Spaced (writtenAll ds) ∧ SpacedAll ds

theorem LaidAll.spacedAll : {line : Text} → {ds : List Document} → LaidAll line ds → SpacedAll ds
  | _, [], _ => trivial
  | _, _ :: _, h => ⟨h.1.toSpaced, spacedAll h.2.2⟩

/-- Documents that are laid out are spelled as before. -/
theorem LaidAll.spacedAll_layout (style : Style) : {line : Text} → {ds : List Document} →
    LaidAll line ds → SpacedAll (ds.map (Document.layout style))
  | _, [], _ => trivial
  | _, _ :: _, h => ⟨h.1.spaced_layout (h.followedAlike style), spacedAll_layout style h.2.2⟩

open Node

theorem Document.bare_tree (d : Document) : d.tree.bare =
    ⟨(), .document, [], d.mark, bareAll d.block.children ++
      [⟨(), .documentEnd, [], d.endText, []⟩]⟩ := by
  rw [tree, bare, bareAll_append]
  rfl

theorem Document.bare_layout (style : Style) (d : Document) :
    (d.layout style).tree.bare = d.tree.bare := by
  rw [bare_tree, bare_tree, layout, Block.bareAll_children_layoutTop]
  rfl

theorem Block.bare_eq_of_bareAll_children {b b' : Block}
    (h : bareAll b.children = bareAll b'.children) : b.tree.bare = b'.tree.bare := by
  cases b <;> cases b' <;> simp_all [children, bareAll, Block.tree]

/-- A document is determined by its bare tree and the text that it begins. -/
theorem Document.eq_of_bare_eq (h : d.Spaced after) (h' : d'.Spaced after')
    (hb : d.tree.bare = d'.tree.bare) (he : d.written ++ after = d'.written ++ after') :
    d = d' ∧ after = after' := by
  rw [bare_tree, bare_tree, Node.mk.injEq] at hb
  obtain ⟨-, -, -, hmark, hchildren⟩ := hb
  obtain ⟨hblock, hend⟩ := List.append_inj' hchildren rfl
  have hmarked : d.marked = d'.marked := by
    rw [mark, mark] at hmark
    cases hd : d.marked <;> cases hd' : d'.marked <;> simp_all [Place.startMark]
  have hended : d.ended = d'.ended := by
    rw [List.cons.injEq, Node.mk.injEq] at hend
    have htext := hend.1.2.2.2.1
    rw [endText, endText] at htext
    cases hd : d.ended <;> cases hd' : d'.ended <;> simp_all [Place.endMark]
  rw [written_append, written_append] at he
  obtain ⟨hlead, he⟩ := h.gap.unique h'.gap he
  rw [afterLead, afterLead, hmark] at he
  obtain ⟨hb, he⟩ := Block.eq_of_bare_eq _ _ h.spelled h'.spelled
    (Block.bare_eq_of_bareAll_children hblock) (List.append_cancel_left he)
  obtain ⟨hendLead, he⟩ := h.endGap.unique h'.endGap he
  have htext : d.endText = d'.endText := by rw [endText, endText, hended]
  rw [htext] at he
  refine ⟨?_, List.append_cancel_left he⟩
  cases d
  cases d'
  simp_all

/-- Documents are determined by their bare trees and their text. -/
theorem eq_of_bareAll_eq : {ds ds' : List Document} → SpacedAll ds → SpacedAll ds' →
    bareAll (ds.map Document.tree) = bareAll (ds'.map Document.tree) →
    writtenAll ds = writtenAll ds' → ds = ds'
  | [], [], _, _, _, _ => rfl
  | [], _ :: _, _, _, hb, _ => by cases hb
  | _ :: _, [], _, _, hb, _ => by cases hb
  | d :: ds, d' :: ds', h, h', hb, he => by
    rw [List.map_cons, List.map_cons, bareAll, bareAll, List.cons.injEq] at hb
    obtain ⟨rfl, hrest⟩ := Document.eq_of_bare_eq h.1 h'.1 hb.1 he
    rw [eq_of_bareAll_eq h.2 h'.2 hb.2 hrest]

theorem bareAll_trees_eq_of_bare_eq {ds' : List Document}
    (h : (streamTree ds).bare = (streamTree ds').bare) :
    bareAll (ds.map Document.tree) = bareAll (ds'.map Document.tree) := by
  rw [streamTree, streamTree, bare, bare, Node.mk.injEq] at h
  exact h.2.2.2.2

theorem bare_layoutAll (style : Style) (ds : List Document) :
    (streamTree (ds.map (Document.layout style))).bare = (streamTree ds).bare := by
  have h : bareAll ((ds.map (Document.layout style)).map Document.tree) =
      bareAll (ds.map Document.tree) := by
    induction ds with
    | nil => rfl
    | cons d ds ih => simp only [List.map_cons, bareAll, d.bare_layout, ih]
  rw [streamTree, streamTree, bare, bare, h]

/-! ### Laying out twice -/

/-- A document is lined up: its leads are gaps, nothing but blanks is in front of its block on the
last line of its own lead, and the entries of the block are lined up. -/
structure Document.Lined (d : Document) : Prop where
  blank : d.block.children ≠ [] → (lastLine d.lead).all isBlank
  gap : isGap false d.block.lead
  entries {es : Entries} : d.block = .entries es → ∃ k, es.Lined k
  endGap : isGap false d.endLead

/-- A document that is laid is lined up. -/
theorem Document.Laid.lined (h : d.Laid line after) : d.Lined where
  blank hb := h.gap.all_isBlank_lastLine (h.afterLead_ne_nil hb)
  gap := isGap_lead_block d.block h.spelled
  entries {es} he := by
    have hs := h.spelled
    have ho := h.opens
    rw [he] at hs ho
    exact ⟨_, es.lined_of_nested hs ho.2.2⟩
  endGap := h.endGap.1

theorem LaidAll.lined : {line : Text} → {ds : List Document} → LaidAll line ds →
    ∀ d ∈ ds, d.Lined
  | _, [], _ => fun _ hd => absurd hd List.not_mem_nil
  | _, _ :: _, h => List.forall_mem_cons.2 ⟨h.1.lined, lined h.2.2⟩

variable {a b : Style}

theorem isGap_settle {gap : Text} (h : isGap false gap) : isGap false (settle gap) :=
  (isGap_mapLines (fun _ hb hl => ⟨hb, hl, rfl⟩) (isGap_placeComment _) h).1

theorem Document.Lined.indentOf_realignDocument (h : d.Lined) (hb : d.block.children ≠ []) :
    indentOf (realignDocument 0 d.lead) = indentOf d.lead := by
  rw [indentOf, lastLine_realignDocument 0 (h.blank hb), indentOf]

/-- A document that was laid out is lined up. -/
theorem Document.Lined.layout (h : d.Lined) (style : Style) : (d.layout style).Lined where
  blank hb := by
    have hb' : d.block.children ≠ [] := fun he => hb (by
      rw [Document.layout, d.block.children_eq_nil_iff.1 he]
      rfl)
    change (lastLine (realignDocument 0 d.lead)).all isBlank
    rw [lastLine_realignDocument 0 (h.blank hb')]
    exact h.blank hb'
  gap := by
    change isGap false (d.block.layoutTop style d.column).lead
    rw [lead_layoutTop]
    exact isGap_settle h.gap
  entries {es} he := by
    change d.block.layoutTop style d.column = .entries es at he
    cases hd : d.block with
    | empty | scalar =>
      rw [hd] at he
      cases he
    | entries es' =>
      obtain ⟨k, hk⟩ := h.entries hd
      rw [hd] at he
      cases he
      exact ⟨k, es'.lined_layoutTop hk⟩
  endGap := isGap_settle h.endGap

/-- The leads of a document that is laid out speak for the same column. -/
theorem Document.Lined.column_layout (h : d.Lined) (style : Style) (hb : d.block.children ≠ []) :
    (d.layout style).column = d.column := by
  have hsettle : hasBreak (settle d.block.lead) = hasBreak d.block.lead := hasBreak_realign _ _
  rw [column, column, Document.layout, lead_layoutTop, hsettle, hasBreak_realignDocument,
    h.indentOf_realignDocument hb, indentOf_settle h.gap]

theorem Document.Lined.layoutTop_layoutTop (h : d.Lined) (hab : a.singleGap → b.singleGap)
    (c k : Nat) : (d.block.layoutTop a c).layoutTop b k = d.block.layoutTop b k := by
  have hg := h.gap
  cases hd : d.block with
  | empty => rfl
  | scalar lead text =>
    have hlead : isGap false lead := by rwa [hd] at hg
    rw [Block.layoutTop, Block.layoutTop, Block.layoutTop, settle_settle hlead]
  | entries es =>
    obtain ⟨_, hes⟩ := h.entries hd
    rw [hd] at hg
    rw [Block.layoutTop, Block.layoutTop, Block.layoutTop, es.layoutTop_layoutTop hab hes hg]

/-- A document that is laid out in two styles is laid out in the later one. -/
theorem Document.Lined.layout_layout (h : d.Lined) (hab : a.singleGap → b.singleGap) :
    (d.layout a).layout b = d.layout b := by
  have hblock : (d.block.layoutTop a d.column).layoutTop b (d.layout a).column =
      d.block.layoutTop b d.column := by
    by_cases hb : d.block.children = []
    · rw [d.block.children_eq_nil_iff.1 hb]
      rfl
    · rw [h.column_layout a hb]
      exact h.layoutTop_layoutTop hab _ _
  rw [Document.layout, Document.layout, Document.layout, Document.mk.injEq]
  exact ⟨realignDocument_realignDocument 0 d.lead, rfl, hblock, settle_settle h.endGap, rfl⟩

/-- Documents that are laid out in two styles are laid out in the later one. -/
theorem layoutAll_layoutAll (h : ∀ d ∈ ds, d.Lined) (hab : a.singleGap → b.singleGap) :
    (ds.map (Document.layout a)).map (Document.layout b) = ds.map (Document.layout b) := by
  rw [List.map_map]
  exact List.map_congr_left fun d hd => (h d hd).layout_layout hab

theorem LaidAll.layout_layout (style : Style) (h : LaidAll line ds) :
    (ds.map (Document.layout style)).map (Document.layout style) = ds.map (Document.layout style) :=
  layoutAll_layoutAll h.lined id

end YamlIndent
