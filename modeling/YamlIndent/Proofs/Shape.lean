import YamlIndent.Proofs.Source.Documents

/-!
# The shape of trees

What a source text has for a tree follows a grammar of kinds: a stream holds documents, a document
a block and its end, and a block entries of one kind, each with a value. Leads hold nothing but
blanks, breaks and comments, and texts are trimmed. Each of these is a condition on one node and its
children, and holds at every node of a tree that is read.

## Main definitions

* `Trivia`: a text of blanks, breaks and comments.
* `Trimmed`: a text on one line that neither begins nor ends with a blank.
* `Node.Shaped`: what a node of some kind consists of.
* `CommentsClose`: nothing stands behind a comment that no break ends.
* `WellFormed`: a tree that has all of this.

## Main results

* `trivia_iff_isGap`: gaps are the texts of blanks, breaks and comments.
* `trimmed_splitTrailing`: what is cut off blanks at its end is trimmed.
* `Entries.fits`, `Document.Laid.fits`: the nodes of what is read have their shape.
* `wellFormed_of_parse`: trees that are read are well-formed.
-/

namespace YamlIndent

open Node

/-! ### Trivia -/

/-- A text of blanks, breaks and comments, each comment up to a break or the end of the text. -/
inductive Trivia : Text → Prop
  | nil : Trivia []
  | blank {c : Char} {t : Text} (hc : isBlank c) (h : Trivia t) : Trivia (c :: t)
  | lineBreak {c : Char} {t : Text} (hc : isBreak c) (h : Trivia t) : Trivia (c :: t)
  | comment {body t : Text} (hb : hasBreak body = false) (ht : startsLine t) (h : Trivia t) :
      Trivia ('#' :: (body ++ t))

/-- A comment goes on over what is no break. -/
theorem Trivia.comment_cons {c : Char} {t : Text} (hc : isBreak c = false)
    (h : Trivia ('#' :: t)) : Trivia ('#' :: c :: t) := by
  cases h with
  | blank hb => cases hb
  | lineBreak hb => cases hb
  | @comment body t hb ht h =>
    have hline : hasBreak (c :: body) = false := by
      rw [hasBreak_cons, hc, hb]
      rfl
    exact .comment hline ht h

/-- A gap consists of blanks, breaks and comments, and so does a `#` with a gap that ends
its comment. -/
theorem trivia_of_isGap {t : Text} :
    (isGap false t → Trivia t) ∧ (isGap true t → Trivia ('#' :: t)) := by
  induction t with
  | nil => exact ⟨fun _ => .nil, fun _ => .comment hasBreak_nil rfl .nil⟩
  | cons c t ih =>
    rw [isGap, isGap]
    by_cases hc : isBreak c
    · simp only [if_pos hc]
      exact ⟨fun h => .lineBreak hc (ih.1 h),
        fun h => .comment hasBreak_nil hc (.lineBreak hc (ih.1 h))⟩
    · rw [if_neg hc, if_neg hc, Bool.false_or, Bool.false_or, Bool.and_eq_true, Bool.or_eq_true]
      constructor
      · rintro ⟨hfirst, h⟩
        by_cases hhash : c = '#'
        · rw [hhash, beq_self_eq_true] at h
          rw [hhash]
          exact ih.2 h
        · have hfalse : (c == '#') = false := beq_eq_false_iff_ne.2 hhash
          rw [hfalse] at h hfirst
          exact .blank (hfirst.resolve_right Bool.false_ne_true) (ih.1 h)
      · intro h
        exact (ih.2 h).comment_cons (eq_false_of_ne_true hc)

/-- A break that ends a comment begins a gap as any other. -/
theorem isGap_true_of_startsLine {t : Text} (hs : startsLine t) (h : isGap false t) :
    isGap true t := by
  cases t with
  | nil => rfl
  | cons c t =>
    have hc : isBreak c = true := hs
    rw [isGap, if_pos hc] at h ⊢
    exact h

theorem Trivia.isGap {t : Text} (h : Trivia t) : isGap false t := by
  induction h with
  | nil => rfl
  | @blank c t hc _ ih =>
    have hhash : (c == '#') = false := by
      rw [beq_eq_false_iff_ne]
      rintro rfl
      cases hc
    rw [YamlIndent.isGap, isBreak_eq_false_of_isBlank hc, if_neg Bool.false_ne_true, hc, hhash]
    exact ih
  | lineBreak hc _ ih =>
    rw [YamlIndent.isGap, if_pos hc]
    exact ih
  | comment hb ht _ ih =>
    have hbody := isGap_true_of_not_hasBreak hb
    change YamlIndent.isGap true _ = true
    rw [isGap_append, hbody.1, hbody.2]
    exact isGap_true_of_startsLine ht ih

/-- Gaps are the texts of blanks, breaks and comments. -/
theorem trivia_iff_isGap {t : Text} : Trivia t ↔ isGap false t :=
  ⟨Trivia.isGap, trivia_of_isGap.1⟩

instance (t : Text) : Decidable (Trivia t) :=
  decidable_of_iff _ trivia_iff_isGap.symm

/-! ### Texts -/

/-- A text on one line that neither begins nor ends with a blank. -/
structure Trimmed (t : Text) : Prop where
  line : hasBreak t = false
  first : ∀ c ∈ t.head?, isBlank c = false
  last : ∀ c ∈ t.getLast?, isBlank c = false

theorem trimmed_nil : Trimmed [] where
  line := rfl
  first _ h := nomatch h
  last _ h := nomatch h

/-- What is left of a text on one line without the blanks at its end is trimmed, if the text does
not begin with a blank. -/
theorem trimmed_splitTrailing {c : Char} {t : Text} (hb : hasBreak (c :: t) = false)
    (hc : isBlank c = false) :
    (splitTrailing (c :: t)).1 ≠ [] ∧ Trimmed (splitTrailing (c :: t)).1 := by
  have hsplit := splitTrailing_append (c :: t)
  have hblank : (splitTrailing (c :: t)).2.all isBlank := by
    rw [splitTrailing, List.all_reverse, List.all_takeWhile]
  have hlast : ∀ d ∈ (splitTrailing (c :: t)).1.getLast?, isBlank d = false := by
    intro d hd
    rw [splitTrailing, List.getLast?_reverse] at hd
    have := List.head?_dropWhile_not isBlank (c :: t).reverse
    rw [Option.mem_def.1 hd] at this
    exact this
  cases hs : (splitTrailing (c :: t)).1 with
  | nil =>
    rw [hs, List.nil_append] at hsplit
    rw [hsplit, List.all_cons, hc] at hblank
    cases hblank
  | cons d s =>
    rw [hs] at hsplit hlast
    obtain ⟨rfl, -⟩ := List.cons.inj hsplit
    rw [← hsplit, hasBreak_append, Bool.or_eq_false_iff] at hb
    refine ⟨List.cons_ne_nil _ _, hb.1, fun e he => ?_, hlast⟩
    cases he
    exact hc

theorem ne_nil_of_splitKey {t k r : Text} (h : splitKey t = some (k, r)) : k ≠ [] := by
  rcases splitKey_cases h with ⟨c, cs, q, rest, k', -, -, -, -, rfl⟩ | ⟨-, hk⟩
  · exact List.cons_ne_nil _ _
  · exact hk

/-- A head in front of a token is a `-`, or a key that is trimmed and blanks in front of a colon. -/
theorem Head.SpelledAt.cases {lead rest : Text} {head : Head} (h : head.SpelledAt lead rest) :
    head = .item ∨ ∃ text blanks, head = .key text (blanks ++ [':']) ∧ text ≠ [] ∧ Trimmed text ∧
      blanks.all isBlank := by
  have htoken := h.1.1.startsToken h.source_append_ne_nil
  rcases headOf?_cases h.2 with ⟨rfl, -⟩ | ⟨key, hk, hhead⟩
  · exact .inl rfl
  · rw [← splitKey_append hk] at htoken
    have hbreak := hasBreak_of_splitKey hk
    obtain ⟨c, key, rfl⟩ := List.exists_cons_of_ne_nil (ne_nil_of_splitKey hk)
    simp only [List.cons_append, startsToken, Bool.not_eq_true', Bool.or_eq_false_iff] at htoken
    obtain ⟨hne, htrim⟩ := trimmed_splitTrailing hbreak htoken.1.1
    refine .inr ⟨_, _, hhead, hne, htrim, ?_⟩
    rw [splitTrailing, List.all_reverse, List.all_takeWhile]

/-! ### Shapes -/

/-- A scalar, a mapping or a sequence. -/
def Node.IsBlock (n : Tree) : Prop :=
  n.kind = .scalar ∨ n.isCollection

/-- The entries of a block: at least one, all of one kind, and each after the first on a line of its
own. -/
structure Node.AreEntries (kind : Kind) (ns : List Tree) : Prop where
  ne_nil : ns ≠ []
  kind_eq : ∀ e ∈ ns, e.kind = kind
  later : ∀ e ∈ ns.tail, hasBreak e.lead

/-- What a node of its kind consists of. -/
def Node.Shaped (n : Tree) : Prop :=
  match n.kind with
  | .stream =>
    n.lead = [] ∧ n.text = [] ∧ n.children ≠ [] ∧ ∀ d ∈ n.children, d.kind = .document
  | .document =>
    (n.text = [] ∨ n.text = Place.startMark) ∧ ∃ block stop, n.children = block ++ [stop] ∧
      stop.kind = .documentEnd ∧ block.length ≤ 1 ∧
      ∀ b ∈ block, b.IsBlock ∧ (b.kind = .scalar → b.text ≠ [])
  | .documentEnd => (n.text = [] ∨ n.text = Place.endMark) ∧ n.children = []
  | .mapping => n.lead = [] ∧ n.text = [] ∧ AreEntries .mappingEntry n.children
  | .sequence => n.lead = [] ∧ n.text = [] ∧ AreEntries .sequenceEntry n.children
  | .mappingEntry =>
    (∃ blanks, blanks.all isBlank ∧ n.text = blanks ++ [':']) ∧ ∃ key value,
      n.children = [key, value] ∧ key.kind = .scalar ∧ key.lead = [] ∧ key.text ≠ [] ∧
      value.IsBlock ∧ (value.isCollection → ∀ e ∈ value.children.head?, hasBreak e.lead)
  | .sequenceEntry => n.text = ['-'] ∧ ∃ value, n.children = [value] ∧ value.IsBlock
  | .scalar => Trimmed n.text ∧ (n.text = [] → n.lead = []) ∧ n.children = []

/-- A node that has its shape and stands behind a gap that ends in no comment. -/
structure Node.Fits (n : Tree) : Prop where
  shaped : n.Shaped
  gap : isGap false n.lead
  closed : '#' ∉ lastLine n.lead

variable {lead rest after line text indicator : Text} {head : Head} {column k : Nat}

theorem fits_of_gapBefore {n : Tree} (hs : n.Shaped) (h : GapBefore n.lead rest) (hr : rest ≠ []) :
    n.Fits :=
  ⟨hs, h.1, h.not_mem_lastLine hr⟩

/-- A node without a lead stands behind a gap. -/
theorem fits_of_lead_eq_nil {n : Tree} (hs : n.Shaped) (h : n.lead = []) : n.Fits where
  shaped := hs
  gap := by rw [h]; rfl
  closed := by rw [h]; exact List.not_mem_nil

theorem Block.isBlock_tree (b : Block) : b.tree.IsBlock := by
  cases b with
  | empty | scalar => exact .inl rfl
  | entries es =>
    right
    rw [Block.tree]
    cases es.head <;> rfl

/-- A scalar that is read behind a gap is trimmed. -/
theorem Block.fits_scalar (h : (Block.scalar lead text).Spelled after) :
    (Head.scalarNode lead text).Fits := by
  rw [Block.Spelled] at h
  obtain ⟨hne, hi, hsc⟩ := h
  have hrest := List.append_ne_nil_of_left_ne_nil hne after
  obtain ⟨c, taken, hc, hb, htext⟩ := exists_taken_of_scalarOf? (hi.1.startsToken hrest) hsc
  have htrim : Trimmed text := htext ▸ (trimmed_splitTrailing hb hc).2
  exact fits_of_gapBefore ⟨htrim, fun he => absurd he hne, rfl⟩ hi.1 hrest

theorem Head.kind_entry (head : Head) (lead : Text) (value : Tree) :
    (head.entry lead value).kind = head.entryKind := by
  cases head <;> rfl

theorem Head.lead_entry (head : Head) (lead : Text) (value : Tree) :
    (head.entry lead value).lead = lead := by
  cases head <;> rfl

/-- The value of a key is on a later line if it has entries. -/
theorem Block.Inside.hasBreak_of_key {value : Block} (h : value.Inside (.key text indicator) k)
    (hc : value.tree.isCollection) : ∀ e ∈ value.tree.children.head?, hasBreak e.lead := by
  cases value with
  | empty | scalar => cases hc
  | entries es =>
    rw [Block.Inside, Head.Holds] at h
    intro e he
    obtain ⟨value, ts, hes⟩ := es.exists_trees_cons
    rw [Block.tree, hes] at he
    cases he
    rw [Head.lead_entry]
    by_cases hb : hasBreak es.lead
    · exact hb
    · rw [if_neg hb] at h
      rcases h.1 with hk | hk
      · exact absurd hk (blockKind_ne_scalar _)
      · cases hk

/-- An entry that is read has its shape, and so have the nodes of its value. -/
theorem Head.SpelledAt.fits_entry {value : Block} (h : head.SpelledAt lead rest)
    (hin : value.Inside head k) (hvalue : ∀ n ∈ value.tree.preorder, n.Fits) :
    ∀ n ∈ (head.entry lead value.tree).preorder, n.Fits := by
  have hne := h.source_append_ne_nil
  rcases h.cases with rfl | ⟨text, blanks, rfl, htext, htrim, hblanks⟩
  · have hentry : (Head.item.entry lead value.tree).Fits :=
      fits_of_gapBefore ⟨rfl, value.tree, rfl, value.isBlock_tree⟩ h.1.1 hne
    rw [Head.entry, preorder, preorderAll, preorderAll, List.append_nil]
    exact List.forall_mem_cons.2 ⟨hentry, hvalue⟩
  · have hkey : (Head.scalarNode [] text).Fits :=
      fits_of_lead_eq_nil ⟨htrim, fun _ => rfl, rfl⟩ rfl
    have hentry : ((Head.key text (blanks ++ [':'])).entry lead value.tree).Fits :=
      fits_of_gapBefore ⟨⟨blanks, hblanks, rfl⟩, _, _, rfl, rfl, rfl, htext, value.isBlock_tree,
        hin.hasBreak_of_key⟩ h.1.1 hne
    rw [Head.entry, preorder, preorderAll, preorderAll, preorderAll, List.append_nil,
      Head.scalarNode, preorder, preorderAll]
    exact List.forall_mem_cons.2 ⟨hentry, List.forall_mem_cons.2 ⟨hkey, hvalue⟩⟩

theorem Head.entryKind_eq {head head' : Head} (h : head.blockKind = head'.blockKind) :
    head.entryKind = head'.entryKind := by
  cases head <;> cases head' <;> first | rfl | cases h

/-- The entries of a block are of one kind, and on lines of their own after the first. -/
theorem Entries.areEntries (es : Entries) (h : es.Nested k) :
    AreEntries es.head.entryKind es.trees := by
  cases es with
  | last lead head value =>
    rw [trees]
    refine ⟨List.cons_ne_nil _ _, fun e he => ?_, fun e he => absurd he List.not_mem_nil⟩
    rw [List.mem_singleton.1 he]
    exact head.kind_entry lead _
  | more lead head value others =>
    rw [Nested] at h
    obtain ⟨-, hstands, hkind, hnested⟩ := h
    have ih := others.areEntries hnested
    rw [Head.entryKind_eq hkind] at ih
    obtain ⟨first, ts, hts⟩ := others.exists_trees_cons
    rw [trees]
    refine ⟨List.cons_ne_nil _ _, List.forall_mem_cons.2 ⟨head.kind_entry lead _, ih.kind_eq⟩, ?_⟩
    have hlater := ih.later
    rw [hts] at hlater
    rw [List.tail_cons, hts]
    refine List.forall_mem_cons.2 ⟨?_, hlater⟩
    rw [Head.lead_entry]
    exact hstands.1

theorem Entries.fits_tree {es : Entries} (hn : es.Nested k)
    (hes : ∀ n ∈ preorderAll es.trees, n.Fits) :
    ∀ n ∈ (Block.entries es).tree.preorder, n.Fits := by
  have hentries := es.areEntries hn
  rw [Block.tree, preorder]
  refine List.forall_mem_cons.2 ⟨fits_of_lead_eq_nil ?_ rfl, hes⟩
  cases hh : es.head <;> rw [hh] at hentries <;> exact ⟨rfl, rfl, hentries⟩

mutual

/-- The nodes of a value that is read have their shape. -/
theorem Block.fits {head : Head} {k : Nat} {after : Text} : (b : Block) → b.Spelled after →
    b.Inside head k → ∀ n ∈ b.tree.preorder, n.Fits
  | .empty, _, _ => List.forall_mem_singleton.2
    (fits_of_lead_eq_nil ⟨trimmed_nil, fun _ => rfl, rfl⟩ rfl)
  | .scalar .., hs, _ => List.forall_mem_singleton.2 (Block.fits_scalar hs)
  | .entries es, hs, hin => by
    rw [Block.Spelled] at hs
    rw [Block.Inside] at hin
    exact Entries.fits_tree hin.2 (Entries.fits es hs hin.2)

/-- The nodes of entries that are read have their shape. -/
theorem Entries.fits {k : Nat} {after : Text} : (es : Entries) → es.Spelled after →
    es.Nested k → ∀ n ∈ preorderAll es.trees, n.Fits
  | .last lead head value, hs, hn => by
    rw [Entries.Spelled] at hs
    rw [Entries.Nested] at hn
    rw [Entries.trees, preorderAll, preorderAll, List.append_nil]
    exact hs.1.fits_entry hn (Block.fits value hs.2.2 hn)
  | .more lead head value others, hs, hn => by
    rw [Entries.Spelled] at hs
    rw [Entries.Nested] at hn
    rw [Entries.trees, preorderAll]
    exact List.forall_mem_append.2 ⟨hs.1.fits_entry hn.1 (Block.fits value hs.2.2.1 hn.1),
      Entries.fits others hs.2.2.2 hn.2.2.2⟩

end

/-! ### Documents -/

/-- Nothing stands behind a comment that no break ends. -/
def CommentsClose : List Tree → Prop
  | [] => True
  | n :: ns =>
    ('#' ∈ lastLine n.lead → n.text = [] ∧ ∀ m ∈ ns, m.lead = [] ∧ m.text = []) ∧ CommentsClose ns

/-- A tree of the shape that a source text has: at each node that of its kind, behind a lead of
blanks, breaks and comments. -/
structure WellFormed (t : Tree) : Prop where
  root : t.kind = .stream
  shaped : ∀ n ∈ t.preorder, n.Shaped
  trivia : ∀ n ∈ t.preorder, Trivia n.lead
  closed : CommentsClose t.preorder

theorem commentsClose_append {ns ms : List Tree} (h : ∀ n ∈ ns, '#' ∉ lastLine n.lead)
    (hs : CommentsClose ms) : CommentsClose (ns ++ ms) := by
  induction ns with
  | nil => exact hs
  | cons n ns ih =>
    obtain ⟨hn, hns⟩ := List.forall_mem_cons.1 h
    exact ⟨fun hm => absurd hm hn, ih hns⟩

namespace Document

variable {d : Document}

/-- The node that a document ends with. -/
def endNode (d : Document) : Tree :=
  ⟨(), .documentEnd, d.endLead, d.endText, []⟩

theorem preorder_tree (d : Document) :
    d.tree.preorder = d.tree :: (preorderAll d.block.children ++ [d.endNode]) := by
  rw [tree, preorder, preorderAll_append]
  rfl

/-- The nodes of the block of a document that is read have their shape. -/
theorem Laid.fits (h : d.Laid line after) : ∀ n ∈ preorderAll d.block.children, n.Fits := by
  have hs := h.spelled
  have ho := h.opens
  cases hb : d.block with
  | empty => exact fun _ hn => absurd hn List.not_mem_nil
  | scalar lead text =>
    rw [hb] at hs
    exact List.forall_mem_singleton.2 (Block.fits_scalar hs)
  | entries es =>
    rw [hb] at hs ho
    rw [Block.children, preorderAll, preorderAll, List.append_nil]
    exact Entries.fits_tree ho.2.2 (es.fits hs ho.2.2)

theorem Laid.shaped_tree (h : d.Laid line after) : d.tree.Shaped := by
  have hmark : d.mark = [] ∨ d.mark = Place.startMark := by
    rw [mark]
    split
    · exact .inr rfl
    · exact .inl rfl
  refine ⟨hmark, d.block.children, d.endNode, rfl, rfl, ?_, ?_⟩
  · cases d.block with
    | empty => exact Nat.zero_le 1
    | scalar | entries => exact Nat.le_refl 1
  · have hs := h.spelled
    cases hb : d.block with
    | empty => exact fun _ hn => absurd hn List.not_mem_nil
    | scalar lead text =>
      rw [hb, Block.Spelled] at hs
      exact List.forall_mem_singleton.2 ⟨.inl rfl, fun _ => hs.1⟩
    | entries es =>
      refine List.forall_mem_singleton.2 ⟨Block.isBlock_tree _, fun hk => ?_⟩
      exact absurd hk (blockKind_ne_scalar es.head)

theorem shaped_endNode (d : Document) : d.endNode.Shaped := by
  have hmark : d.endText = [] ∨ d.endText = Place.endMark := by
    rw [endText]
    split
    · exact .inr rfl
    · exact .inl rfl
  exact ⟨hmark, rfl⟩

/-- Nothing stands behind the lead of a document that ends in a comment. -/
theorem Laid.eq_nil_of_comment (h : d.Laid line after) (hm : '#' ∈ lastLine d.lead) :
    d.mark = [] ∧ d.block.children = [] ∧ d.endLead = [] ∧ d.endText = [] ∧ after = [] := by
  have he : d.afterLead after = [] := by
    by_cases he : d.afterLead after = []
    · exact he
    · exact absurd hm (h.gap.not_mem_lastLine he)
  have hb : d.block.children = [] := by
    by_cases hb : d.block.children = []
    · exact hb
    · exact absurd he (h.afterLead_ne_nil hb)
  rw [afterLead, afterBlock] at he
  simp only [List.append_eq_nil_iff] at he
  exact ⟨he.1, hb, he.2.2.1, he.2.2.2.1, he.2.2.2.2⟩

/-- Nothing stands behind the end of a document if its lead ends in a comment. -/
theorem Laid.eq_nil_of_endComment (h : d.Laid line after) (hm : '#' ∈ lastLine d.endLead) :
    d.endText = [] ∧ after = [] := by
  by_cases he : d.endText ++ after = []
  · exact List.append_eq_nil_iff.1 he
  · exact absurd hm (h.endGap.not_mem_lastLine he)

end Document

/-- The nodes of documents that are read have their shape and stand behind gaps. -/
theorem LaidAll.shaped : {line : Text} → {ds : List Document} → LaidAll line ds →
    ∀ n ∈ preorderAll (ds.map Document.tree), n.Shaped ∧ isGap false n.lead
  | _, [], _ => fun _ hn => absurd hn List.not_mem_nil
  | _, d :: ds, h => by
    have hend : d.endNode.Shaped ∧ isGap false d.endNode.lead := ⟨d.shaped_endNode, h.1.endGap.1⟩
    rw [List.map_cons, preorderAll, d.preorder_tree]
    refine List.forall_mem_append.2 ⟨List.forall_mem_cons.2 ⟨⟨h.1.shaped_tree, h.1.gap.1⟩, ?_⟩,
      LaidAll.shaped h.2.2⟩
    exact List.forall_mem_append.2 ⟨fun n hn => ⟨(h.1.fits n hn).shaped, (h.1.fits n hn).gap⟩,
      List.forall_mem_singleton.2 hend⟩

/-- Comments of documents that are read close. -/
theorem LaidAll.commentsClose : {line : Text} → {ds : List Document} → LaidAll line ds →
    CommentsClose (preorderAll (ds.map Document.tree))
  | _, [], _ => trivial
  | _, d :: ds, h => by
    obtain ⟨hd, hlast, hds⟩ := h
    rw [List.map_cons, preorderAll, d.preorder_tree, List.cons_append, List.append_assoc]
    refine ⟨fun hm => ?_, commentsClose_append (fun n hn => (hd.fits n hn).closed)
      ⟨fun hm => ?_, LaidAll.commentsClose hds⟩⟩
    · obtain ⟨hmark, hblock, hlead, htext, hafter⟩ := hd.eq_nil_of_comment hm
      rw [hblock, hlast hafter]
      exact ⟨hmark, List.forall_mem_singleton.2 ⟨hlead, htext⟩⟩
    · obtain ⟨htext, hafter⟩ := hd.eq_nil_of_endComment hm
      rw [hlast hafter]
      exact ⟨htext, fun _ hn => absurd hn List.not_mem_nil⟩

variable {source : Text} {t : Tree}

/-- A tree that is read is well-formed. -/
theorem wellFormed_of_parse (h : parse source = .ok t) : WellFormed t := by
  obtain ⟨ds, hds, rfl⟩ := parse_eq_ok_iff.1 h
  have hall := hds.laid.shaped
  have hroot : (streamTree ds).Shaped := by
    refine ⟨rfl, rfl, fun he => hds.ne_nil (List.map_eq_nil_iff.1 he), fun d hd => ?_⟩
    obtain ⟨d, -, rfl⟩ := List.mem_map.1 hd
    rfl
  refine ⟨rfl, ?_, ?_, ?_⟩
  · rw [streamTree, preorder]
    exact List.forall_mem_cons.2 ⟨hroot, fun n hn => (hall n hn).1⟩
  · rw [streamTree, preorder]
    exact List.forall_mem_cons.2 ⟨.nil, fun n hn => trivia_iff_isGap.2 (hall n hn).2⟩
  · rw [streamTree, preorder]
    exact ⟨fun hm => absurd hm List.not_mem_nil, hds.laid.commentsClose⟩

/-- A source with marks, comments, an empty value and a key with blanks in front of its colon. -/
theorem wellFormed_of_parse_marks :
    ∃ t, parse "# a\n---\n- k : # b\n  l:\n  - 'c'\n... \nd # e".toList = .ok t ∧
      WellFormed t := by
  have h : (parse "# a\n---\n- k : # b\n  l:\n  - 'c'\n... \nd # e".toList).isOk := by
    decide +kernel
  obtain ⟨t, ht⟩ := exists_eq_ok_of_isOk h
  exact ⟨t, ht, wellFormed_of_parse ht⟩

end YamlIndent
