import YamlIndent.Proofs.Comments
import YamlIndent.Proofs.Shape

/-!
# Trailing comments

A comment that trails a token, an indicator or a mark is on the first line of a lead, and that lead
stands right behind the token. Formatting keeps the lead of a comment on the line of its token,
unless a document begins with it: a comment behind a `...` is taken to start a line, and loses its
gap.

## Main definitions

* `SpacedPieces`: pieces whose leads go on to the next token.
* `StandsBehind`: a comment stands behind the token that it trailed, and behind the same gap.

## Main results

* `getLast?_joined`: in front of a lead stands a token, in the formatted text as in the text.
* `LaidAll.endsToken_lead`: the lead of a document that follows another begins with a gap.
* `trailing_comment_stays_iff`: a trailing comment stays just if no document begins with it.
-/

namespace YamlIndent

open Node

variable {style : Style} {head : Head} {lead rest after : Text} {d : Document}

/-! ### Pieces that are spaced -/

/-- The lead of a piece, if it has one, goes on to the next token, and the text ends in no blank. -/
structure Piece.Spaced (rest : Text) (p : Piece) : Prop where
  gap : p.lead ≠ [] → GapBefore p.lead (p.text ++ rest)
  last : ∀ c ∈ p.text.getLast?, isBlank c = false

/-- Pieces are spaced, with some text behind them. -/
def SpacedPieces (after : Text) : List Piece → Prop
  | [] => True
  | p :: ps => p.Spaced (joined ps ++ after) ∧ SpacedPieces after ps

theorem spacedPieces_append_iff {ps qs : List Piece} : SpacedPieces after (ps ++ qs) ↔
    SpacedPieces (joined qs ++ after) ps ∧ SpacedPieces after qs := by
  induction ps with
  | nil => simp [SpacedPieces]
  | cons p ps ih =>
    rw [List.cons_append, SpacedPieces, SpacedPieces, ih, joined_append, List.append_assoc,
      and_assoc]

theorem Piece.spaced_of_lead_eq_nil {p : Piece} (h : p.lead = [])
    (hl : ∀ c ∈ p.text.getLast?, isBlank c = false) : p.Spaced rest :=
  ⟨fun hne => absurd h hne, hl⟩

theorem Head.SpelledAt.spacedPieces (h : head.SpelledAt lead rest) :
    SpacedPieces rest (head.pieces lead) := by
  have hgap := h.1.1
  rcases h.cases with rfl | ⟨text, blanks, rfl, -, htrim, -⟩
  · refine ⟨⟨fun _ => hgap, ?_⟩, trivial⟩
    intro c hc
    cases hc
    rfl
  · have hcolon : ∀ c ∈ (blanks ++ [':']).getLast?, isBlank c = false := by
      intro c hc
      rw [List.getLast?_concat] at hc
      cases hc
      rfl
    refine ⟨⟨fun _ => ?_, nofun⟩, Piece.spaced_of_lead_eq_nil rfl htrim.last,
      Piece.spaced_of_lead_eq_nil rfl hcolon, trivial⟩
    simpa [joined, Head.source] using hgap

mutual

theorem Block.spacedPieces {after : Text} : (b : Block) → b.Spelled after →
    SpacedPieces after b.tree.pieces
  | .empty, _ => ⟨Piece.spaced_of_lead_eq_nil rfl nofun, trivial⟩
  | .scalar lead text, hs => by
    have htrim : Trimmed text := (Block.fits_scalar hs).shaped.1
    rw [Block.Spelled] at hs
    rw [Block.tree, pieces_scalarNode]
    exact ⟨⟨fun _ => hs.2.1.1, htrim.last⟩, trivial⟩
  | .entries es, hs => by
    rw [Block.Spelled] at hs
    rw [Block.pieces_entries]
    exact ⟨Piece.spaced_of_lead_eq_nil rfl nofun, Entries.spacedPieces es hs⟩

theorem Entries.spacedPieces {after : Text} : (es : Entries) → es.Spelled after →
    SpacedPieces after (piecesAll es.trees)
  | .last lead head value, hs => by
    rw [Entries.Spelled] at hs
    rw [Entries.trees, piecesAll, piecesAll, List.append_nil, head.pieces_entry]
    refine spacedPieces_append_iff.2 ⟨?_, Block.spacedPieces value hs.2.2⟩
    rw [value.joined_pieces]
    exact hs.1.spacedPieces
  | .more lead head value others, hs => by
    rw [Entries.Spelled] at hs
    obtain ⟨hat, -, hvalue, hothers⟩ := hs
    rw [Entries.trees, piecesAll, head.pieces_entry, List.append_assoc]
    refine spacedPieces_append_iff.2 ⟨?_, spacedPieces_append_iff.2 ⟨?_,
      Entries.spacedPieces others hothers⟩⟩
    · rw [joined_append, value.joined_pieces, others.joined_pieces, List.append_assoc]
      exact hat.spacedPieces
    · rw [others.joined_pieces]
      exact Block.spacedPieces value hvalue

end

theorem Document.Spaced.spacedPieces (h : d.Spaced after) : SpacedPieces after d.tree.pieces := by
  have hmark : ∀ c ∈ d.mark.getLast?, isBlank c = false := by
    intro c hc
    rw [mark] at hc
    split at hc <;> cases hc
    rfl
  have hend : ∀ c ∈ d.endText.getLast?, isBlank c = false := by
    intro c hc
    rw [endText] at hc
    split at hc <;> cases hc
    rfl
  have hblock : SpacedPieces (d.endLead ++ (d.endText ++ after)) (piecesAll d.block.children) := by
    have hs := d.block.spacedPieces h.spelled
    cases hb : d.block with
    | empty => trivial
    | scalar | entries =>
      rw [hb] at hs
      rw [Block.children, piecesAll, piecesAll, List.append_nil]
      exact hs
  rw [pieces_tree]
  refine ⟨⟨fun _ => ?_, hmark⟩,
    spacedPieces_append_iff.2 ⟨?_, ⟨fun _ => h.endGap, hend⟩, trivial⟩⟩
  · rw [joined_append, d.block.joined_children]
    simpa [joined, afterLead, afterBlock] using h.gap
  · simpa [joined] using hblock

theorem SpacedAll.spacedPieces : (ds : List Document) → SpacedAll ds →
    SpacedPieces [] (piecesAll (ds.map Document.tree))
  | [], _ => trivial
  | d :: ds, h => by
    rw [List.map_cons, piecesAll]
    refine spacedPieces_append_iff.2 ⟨?_, spacedPieces ds h.2⟩
    rw [joined_documents, List.append_nil]
    exact h.1.spacedPieces

/-! ### What stands in front of a comment -/

variable {ps ps' front front' back : List Piece} {p p' : Piece} {c : Char}

theorem ink_joined (h : List.Forall₂ Piece.KeepsComment ps ps') :
    ink (joined ps') = ink (joined ps) := by
  induction h with
  | nil => rfl
  | cons hp _ ih =>
    simp only [joined_cons, ink_append, hp.ink_eq, hp.text_eq, ih]

theorem joined_eq_nil (h : List.Forall₂ Piece.KeepsComment ps ps') (hn : joined ps = []) :
    joined ps' = [] := by
  induction h with
  | nil => rfl
  | cons hp _ ih =>
    rw [joined_cons, List.append_eq_nil_iff, List.append_eq_nil_iff] at hn
    rw [joined_cons, hp.nil hn.1, hp.text_eq, hn.2.1, ih hn.2.2]
    rfl

/-- In front of a comment that trails a text stands a token, and it stands there still. -/
theorem getLast?_joined (h : List.Forall₂ Piece.KeepsComment front front')
    (hs : SpacedPieces after (front ++ p :: back)) (hp : p.lead ≠ [])
    (hc : (joined front).getLast? = some c) :
    isBlank c = false ∧ (joined front').getLast? = some c := by
  induction h with
  | nil => cases hc
  | @cons q q' front front' hq hfront ih =>
    rw [joined_cons, List.getLast?_append, List.getLast?_append] at hc ⊢
    cases hlast : (joined front).getLast? with
    | some d =>
      rw [hlast] at hc
      cases hc
      obtain ⟨hblank, hl⟩ := ih hs.2 hlast
      exact ⟨hblank, by rw [hl]; rfl⟩
    | none =>
      have hnil := List.getLast?_eq_none_iff.1 hlast
      rw [hlast, Option.none_or] at hc
      rw [joined_eq_nil hfront hnil, hq.text_eq, List.getLast?_nil, Option.none_or]
      cases htext : q.text.getLast? with
      | some d =>
        rw [htext] at hc
        cases hc
        exact ⟨hs.1.last c htext, rfl⟩
      | none =>
        -- Behind the lead of `q` alone another lead would have to begin with a token.
        rw [htext, Option.none_or] at hc
        have hgap := hs.1.gap (List.ne_nil_of_mem (List.mem_of_getLast? hc))
        change GapBefore q.lead (q.text ++ (joined (front ++ p :: back) ++ after)) at hgap
        rw [List.getLast?_eq_none_iff.1 htext, joined_append, hnil, joined_cons] at hgap
        have htoken := hgap.startsToken (by simp [hp])
        have hplead := ((spacedPieces_append_iff.1 hs.2).2.1.gap hp).1
        simp only [List.nil_append, List.append_assoc] at htoken
        exact absurd (eq_nil_of_isGap hplead htoken) hp

theorem eq_nil_of_ink_append {a x : Text} (hi : ink (a ++ x) = ink a)
    (hl : (a ++ x).getLast? = some c) (hc : isBlank c = false) : x = [] := by
  rw [ink_append] at hi
  have hx : ink x = [] := List.append_cancel_left (hi.trans (List.append_nil _).symm)
  rw [List.getLast?_append] at hl
  cases hlast : x.getLast? with
  | none => exact List.getLast?_eq_none_iff.1 hlast
  | some d =>
    rw [hlast] at hl
    cases hl
    have hmem := List.filter_eq_nil_iff.1 hx c (List.mem_of_getLast? hlast)
    rw [hc] at hmem
    exact absurd rfl hmem

/-- Where a text goes on from may be told by the ink in front, if that ends in ink. -/
theorem eq_of_ink_eq {a b s t : Text} {d : Char} (h : a ++ s = b ++ t) (hi : ink a = ink b)
    (ha : a.getLast? = some c) (hb : b.getLast? = some d) (hc : isBlank c = false)
    (hd : isBlank d = false) : a = b := by
  rcases List.append_eq_append_iff.1 h with ⟨x, rfl, -⟩ | ⟨x, rfl, -⟩
  · rw [eq_nil_of_ink_append hi.symm hb hd, List.append_nil]
  · rw [eq_nil_of_ink_append hi ha hc, List.append_nil]

theorem hasBreak_ink (t : Text) : hasBreak (ink t) = hasBreak t := by
  rw [hasBreak, hasBreak, ink, List.any_filter]
  congr 1
  funext c
  cases hc : isBlank c with
  | true => rw [isBreak_eq_false_of_isBlank hc]; rfl
  | false => rw [Bool.not_false, Bool.true_and]

/-- A comment stands in a text on the line of the token that it trails, right behind the gap it had
there. All that is in front of it is what was in front, but for blanks. -/
def StandsBehind (front comment out : Text) : Prop :=
  ∃ before after c, out = before ++ (comment ++ after) ∧ startsLine after ∧
    ink before = ink front ∧ before.getLast? = some c ∧ front.getLast? = some c ∧ isBlank c = false

theorem exists_split_of_keepsComment
    (h : List.Forall₂ Piece.KeepsComment (front ++ p :: back) ps') :
    ∃ front' p' back', ps' = front' ++ p' :: back' ∧ List.Forall₂ Piece.KeepsComment front front' ∧
      p.KeepsComment p' ∧ List.Forall₂ Piece.KeepsComment back back' := by
  have hfront := List.forall₂_take_append ps' front (p :: back) h.flip
  have hback := List.forall₂_drop_append ps' front (p :: back) h.flip
  obtain ⟨p', back', hp, hrest, he⟩ := List.forall₂_cons_right_iff.1 hback
  refine ⟨_, p', back', ?_, hfront.flip, hp, hrest.flip⟩
  rw [← he, List.take_append_drop]

/-- A comment that does not begin a document stands behind the token that it trails. -/
theorem standsBehind_of_keepsComment
    (h : List.Forall₂ Piece.KeepsComment (front ++ p :: back) ps')
    (hs : SpacedPieces [] (front ++ p :: back)) (hf : joined front ≠ [])
    (hc : '#' ∈ firstLine p.lead) (hk : p.kind ≠ .document) :
    StandsBehind (joined front) (firstLine p.lead) (joined ps') := by
  obtain ⟨front', p', back', rfl, hfront, hp, hback⟩ := exists_split_of_keepsComment h
  have hlead : p.lead ≠ [] := List.ne_nil_of_mem (mem_of_mem_firstLine hc)
  obtain ⟨c, hlast⟩ := Option.isSome_iff_exists.1 (List.getLast?_isSome.2 hf)
  obtain ⟨hblank, hlast'⟩ := getLast?_joined hfront hs hlead hlast
  obtain ⟨rest, hrest, hsplit⟩ := firstLine_append_rest p'.lead
  rw [hp.comment hk hc] at hsplit
  refine ⟨joined front', rest ++ (p'.text ++ joined back'), c, ?_, ?_, ink_joined hfront, hlast',
    hlast, hblank⟩
  · rw [joined_append, joined_cons, ← List.append_assoc _ rest, ← hsplit]
  · cases rest with
    | cons b rest => exact hrest
    | nil =>
      -- The comment is all of the lead, and nothing stands behind a comment that no break ends.
      have hbreak : hasBreak p.lead = false := by
        rw [← hasBreak_ink, ← hp.ink_eq, hasBreak_ink, hsplit, List.append_nil]
        exact hasBreak_firstLine p.lead
      have hmem : '#' ∈ lastLine p.lead := by
        rw [lastLine_of_not_hasBreak hbreak]
        exact mem_of_mem_firstLine hc
      have hgap := (spacedPieces_append_iff.1 hs).2.1.gap hlead
      have hnil : p.text ++ joined back = [] := by
        by_contra hne
        rw [List.append_nil] at hgap
        exact hgap.not_mem_lastLine hne hmem
      obtain ⟨htext, hjoined⟩ := List.append_eq_nil_iff.1 hnil
      rw [hp.text_eq, htext, joined_eq_nil hback hjoined]
      rfl

/-! ### Comments that begin documents -/

theorem Head.kind_ne_document (lead : Text) (head : Head) :
    ∀ q ∈ head.pieces lead, q.kind ≠ .document := by
  cases head <;> simp [pieces]

mutual

/-- No piece of a block begins a document. -/
theorem Block.kind_ne_document : (b : Block) → ∀ q ∈ b.tree.pieces, q.kind ≠ .document
  | .empty => List.forall_mem_singleton.2 Kind.noConfusion
  | .scalar lead text => by
    rw [Block.tree, pieces_scalarNode]
    exact List.forall_mem_singleton.2 Kind.noConfusion
  | .entries es => by
    rw [Block.pieces_entries]
    exact List.forall_mem_cons.2 ⟨blockKind_ne_document es.head, Entries.kind_ne_document es⟩

theorem Entries.kind_ne_document : (es : Entries) → ∀ q ∈ piecesAll es.trees, q.kind ≠ .document
  | .last lead head value => by
    rw [Entries.trees, piecesAll, piecesAll, List.append_nil, head.pieces_entry]
    exact List.forall_mem_append.2 ⟨head.kind_ne_document lead, Block.kind_ne_document value⟩
  | .more lead head value others => by
    rw [Entries.trees, piecesAll, head.pieces_entry]
    exact List.forall_mem_append.2 ⟨List.forall_mem_append.2 ⟨head.kind_ne_document lead,
      Block.kind_ne_document value⟩, Entries.kind_ne_document others⟩

end

/-- A document is one piece that begins it, and others. -/
theorem Document.exists_pieces_eq (d : Document) : ∃ body,
    d.tree.pieces = ⟨.document, d.lead, d.mark⟩ :: body ∧ ∀ q ∈ body, q.kind ≠ .document := by
  refine ⟨_, d.pieces_tree, List.forall_mem_append.2 ⟨?_, List.forall_mem_singleton.2 nofun⟩⟩
  have hb := d.block.kind_ne_document
  cases hd : d.block with
  | empty => exact nofun
  | scalar | entries =>
    rw [hd] at hb
    rw [Block.children, piecesAll, piecesAll, List.append_nil]
    exact hb

theorem exists_eq_append_of_not_mem {qs rs : List Piece} (h : qs ++ rs = front ++ p :: back)
    (hp : p ∉ qs) : ∃ others, front = qs ++ others ∧ rs = others ++ p :: back := by
  rcases List.append_eq_append_iff.1 h with ⟨others, hfront, hrs⟩ | ⟨others, hqs, hback⟩
  · exact ⟨others, hfront, hrs⟩
  · cases others with
    | nil =>
      rw [List.append_nil] at hqs
      exact ⟨[], by rw [hqs, List.append_nil], hback.symm⟩
    | cons q others =>
      obtain ⟨rfl, -⟩ := List.cons.inj hback
      exact absurd (hqs ▸ List.mem_append_right front List.mem_cons_self) hp

/-- The lead of a document that follows another one begins behind a `...`, so with a blank or a
break. -/
theorem LaidAll.endsToken_lead : {line : Text} → {ds : List Document} → {front : List Piece} →
    LaidAll line ds → piecesAll (ds.map Document.tree) = front ++ p :: back →
    p.kind = .document → front ≠ [] → p.lead ≠ [] → endsToken p.lead
  | _, [], front, _, he, _, _, _ => by simp [piecesAll] at he
  | _, _, [], _, _, _, hf, _ => absurd rfl hf
  | line, d :: ds, f :: front, h, he, hk, hf, hl => by
    obtain ⟨body, hd, hbody⟩ := d.exists_pieces_eq
    rw [List.map_cons, piecesAll, hd, List.cons_append, List.cons_append] at he
    obtain ⟨others, rfl, hds⟩ := exists_eq_append_of_not_mem (List.cons.inj he).2
      fun hmem => hbody p hmem hk
    cases others with
    | cons q others => exact endsToken_lead h.2.2 hds hk (List.cons_ne_nil q others) hl
    | nil =>
      cases ds with
      | nil => cases hds
      | cons e es =>
        rw [List.map_cons, piecesAll, e.pieces_tree] at hds
        obtain ⟨rfl, -⟩ := List.cons.inj hds
        exact (h.endsToken_next hl).2

theorem exists_realignDocument_eq {blanks comment : Text} (hb : blanks.all isBlank)
    (hl : firstLine lead = blanks ++ '#' :: comment) :
    ∃ more, realignDocument 0 lead = '#' :: more := by
  have hfirst : (cutLines lead).1 = blanks ++ '#' :: comment := hl
  rw [realignDocument, hfirst, placeComment_append_comment hb]
  exact ⟨_, rfl⟩

/-- A comment that begins a document loses the gap behind the `...` that it trails. -/
theorem not_standsBehind_of_keepsComment
    (h : List.Forall₂ Piece.KeepsComment (front ++ p :: back) ps')
    (hs : SpacedPieces [] (front ++ p :: back)) (hc : '#' ∈ firstLine p.lead)
    (hk : p.kind = .document) (he : endsToken p.lead) :
    ¬ StandsBehind (joined front) (firstLine p.lead) (joined ps') := by
  obtain ⟨front', p', back', rfl, hfront, hp, -⟩ := exists_split_of_keepsComment h
  have hlead : p.lead ≠ [] := List.ne_nil_of_mem (mem_of_mem_firstLine hc)
  rintro ⟨before, after, c, hout, -, hink, hbefore, hlast, hblank⟩
  obtain ⟨-, hlast'⟩ := getLast?_joined hfront hs hlead hlast
  rw [joined_append, joined_cons, hp.document hk] at hout
  have hbefore := eq_of_ink_eq hout ((ink_joined hfront).trans hink.symm) hlast' hbefore hblank
    hblank
  rw [hbefore] at hout
  have hline := List.append_cancel_left hout
  have hgap := ((spacedPieces_append_iff.1 hs).2.1.gap hlead).1
  rcases isGap_line_cases (hasBreak_firstLine p.lead) (isGap_firstLine hgap) with
    ⟨hb, -⟩ | ⟨blanks, comment, hb, -, hfirst⟩
  · exact not_mem_of_all_isBlank hb hc
  · obtain ⟨more, hmore⟩ := exists_realignDocument_eq hb hfirst
    rw [hmore, hfirst] at hline
    cases blanks with
    | nil =>
      obtain ⟨rest, -, hsplit⟩ := firstLine_append_rest p.lead
      rw [hsplit, hfirst] at he
      cases he
    | cons b blanks =>
      obtain ⟨rfl, -⟩ := List.cons.inj hline
      cases hb

/-! ### Comments that trail -/

/-- A comment that trails something on its line stays behind it, and behind the same gap, if and
only if it does not begin a document. -/
theorem trailing_comment_stays_iff {source : Text} {t : Tree} (style : Style)
    (h : parse source = .ok t) :
    ∃ out, formatText style source = .ok out ∧ ∀ front p back, t.pieces = front ++ p :: back →
      joined front ≠ [] → '#' ∈ firstLine p.lead →
      (StandsBehind (joined front) (firstLine p.lead) out ↔ p.kind ≠ .document) := by
  obtain ⟨ds, hds, rfl⟩ := parse_eq_ok_iff.1 h
  refine ⟨_, formatText_of_consists style hds, fun front p back hsplit hf hc => ?_⟩
  have hkeeps : List.Forall₂ Piece.KeepsComment (streamTree ds).pieces
      (streamTree (ds.map (Document.layout style))).pieces := by
    rw [pieces_streamTree, pieces_streamTree]
    exact .cons ((KeepsComment.refl []).piece Kind.noConfusion _)
      (hds.laid.keepsComment_layout style ds)
  have hspaced : SpacedPieces [] (streamTree ds).pieces := by
    rw [pieces_streamTree]
    exact ⟨Piece.spaced_of_lead_eq_nil rfl nofun, hds.laid.spacedAll.spacedPieces ds⟩
  rw [← (streamTree _).joined_pieces (print_streamTree _)]
  rw [hsplit] at hkeeps hspaced
  refine ⟨fun hstands hk => ?_, standsBehind_of_keepsComment hkeeps hspaced hf hc⟩
  have hlead : p.lead ≠ [] := List.ne_nil_of_mem (mem_of_mem_firstLine hc)
  refine not_standsBehind_of_keepsComment hkeeps hspaced hc hk ?_ hstands
  rw [pieces_streamTree] at hsplit
  cases front with
  | nil => exact absurd rfl hf
  | cons f front =>
    obtain ⟨rfl, hpieces⟩ := List.cons.inj hsplit
    refine hds.laid.endsToken_lead hpieces hk ?_ hlead
    rintro rfl
    exact hf rfl

/-- A comment behind the value of one entry, in the lead of the next. -/
theorem trailing_comment_stays_iff_entry :
    ∃ t out, parse "a: 1 # b\nc:\n".toList = .ok t ∧
      formatText .standard "a: 1 # b\nc:\n".toList = .ok out ∧
      StandsBehind "a: 1".toList " # b".toList out := by
  have h : (parse "a: 1 # b\nc:\n".toList).toOption.any fun t =>
      t.pieces = t.pieces.take 7 ++ ⟨.mappingEntry, " # b\n".toList, []⟩ :: t.pieces.drop 8 ∧
        joined (t.pieces.take 7) = "a: 1".toList := by decide +kernel
  obtain ⟨t, hsome, hp⟩ := (Option.any_eq_true _ _).1 h
  obtain ⟨hpieces, hfront⟩ := of_decide_eq_true hp
  have ht := eq_ok_of_toOption hsome
  obtain ⟨out, hout, hall⟩ := trailing_comment_stays_iff .standard ht
  have hiff := hall _ _ _ hpieces (by rw [hfront]; decide) (by decide)
  rw [hfront] at hiff
  exact ⟨t, out, ht, hout, hiff.2 Kind.noConfusion⟩

/-- A comment behind a `...` loses its gap, and the `...` is no mark any more. -/
theorem trailing_comment_moves :
    ∃ t front p back, parse "a: 1\n... # c\n".toList = .ok t ∧ t.pieces = front ++ p :: back ∧
      joined front = "a: 1\n...".toList ∧ firstLine p.lead = " # c".toList ∧
      formatText .standard "a: 1\n... # c\n".toList = .ok "a: 1\n...# c\n".toList ∧
      ¬ StandsBehind (joined front) (firstLine p.lead) "a: 1\n...# c\n".toList := by
  have h : (parse "a: 1\n... # c\n".toList).toOption.any fun t =>
      t.pieces = t.pieces.take 8 ++ ⟨.document, " # c\n".toList, []⟩ :: t.pieces.drop 9 ∧
        joined (t.pieces.take 8) = "a: 1\n...".toList := by decide +kernel
  have hout : formatText .standard "a: 1\n... # c\n".toList = .ok "a: 1\n...# c\n".toList :=
    eq_ok_of_toOption (by decide +kernel)
  have hfirst : firstLine " # c\n".toList = " # c".toList := rfl
  have hinfix : ¬ " # c".toList <:+: "a: 1\n...# c\n".toList := by decide +kernel
  have hmoved (front : Text) :
      ¬ StandsBehind front (firstLine " # c\n".toList) "a: 1\n...# c\n".toList := by
    rintro ⟨before, after, c, he, -⟩
    rw [hfirst, ← List.append_assoc] at he
    exact hinfix ⟨before, after, he.symm⟩
  obtain ⟨t, hsome, hp⟩ := (Option.any_eq_true _ _).1 h
  obtain ⟨hpieces, hfront⟩ := of_decide_eq_true hp
  exact ⟨t, _, _, _, eq_ok_of_toOption hsome, hpieces, hfront, hfirst, hout, hmoved _⟩

end YamlIndent
