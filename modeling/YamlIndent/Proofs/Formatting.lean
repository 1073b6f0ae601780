import YamlIndent.Format.Basic
import YamlIndent.Proofs.Pass.Documents
import YamlIndent.Proofs.Pass.Sharing
import YamlIndent.Proofs.RoundTrip

/-!
# Reading what was formatted

A text that has a tree is formatted without fail: what comes out are its documents laid out. Whether
that is read back depends on the text, since the pass takes the first line of a block to be at the
column that the leads speak for, and moves a comment behind a `...` next to it.

## Main definitions

* `formatText`: a text in a style.
* `atMargin`: the blocks of documents begin at the start of a line, and no comment trails a `...`.

## Main results

* `formatText_of_consists`: to format a text is to lay out its documents.
* `bare_parse_formatText_iff`: when the formatted text has the tree of the text but for leads.
* `formatText_formatText_iff`: when the formatted text stays as it is.
* `parse_print_reindent`: at the margin, reading undoes printing.
* `reindent_reindent`: of two styles the later one counts.
-/

namespace YamlIndent

open Node

/-- A text in a style, in the format that is detected. -/
def formatText (style : Style) (source : Text) : Except FormatError Text :=
  (format style source none none).map Formatted.text

variable {style : Style} {source out : Text} {t : Tree} {ds : List Document}

/-! ### Formatting as layout -/

/-- Which format is detected does not matter. -/
theorem format_of_not_asked (style : Style) (source : Text) (filename : Option Text) :
    format style source filename none = formatSource style source := rfl

theorem exists_print_reindent (style : Style) (h : ∀ d ∈ ds, d.Lined) :
    ∃ v, reindent style (streamTree ds).tagged = .ok v ∧
      v.node.untagged = streamTree (ds.map (Document.layout style)) ∧
      v.node.print = .ok (writtenAll (ds.map (Document.layout style))) := by
  obtain ⟨v, hv, he⟩ := reindent_of_untagged style h (untagged_tagged (streamTree ds))
  refine ⟨v, hv, he, ?_⟩
  rw [← v.node.print_untagged, he, print_streamTree]

/-- To format a text with the tree of documents that are lined up is to lay these out. -/
theorem formatText_of_lined (style : Style) (h : parse source = .ok (streamTree ds))
    (hl : ∀ d ∈ ds, d.Lined) :
    formatText style source = .ok (writtenAll (ds.map (Document.layout style))) := by
  obtain ⟨v, hv, -, hprint⟩ := exists_print_reindent style hl
  rw [formatText, format_of_not_asked, formatSource, h]
  simp only [mapError_ok, bind, Except.bind, hv, hprint]
  rfl

/-- To format a text is to lay out its documents. -/
theorem formatText_of_consists (style : Style) (h : Consists source ds) :
    formatText style source = .ok (writtenAll (ds.map (Document.layout style))) :=
  formatText_of_lined style (parse_eq_ok_iff.2 ⟨ds, h, rfl⟩) h.laid.lined

/-- What is not read is not formatted. -/
theorem toOption_formatText_of_error (style : Style) {r : Rejection} (h : parse source = .error r) :
    (formatText style source).toOption = none := by
  rw [formatText, format_of_not_asked, formatSource, h]
  rfl

/-- What is formatted has a tree. -/
theorem exists_consists_of_formatText (h : formatText style source = .ok out) :
    ∃ ds, Consists source ds ∧ out = writtenAll (ds.map (Document.layout style)) := by
  have hparse : ∃ t, parse source = .ok t := by
    rw [formatText, format_of_not_asked, formatSource] at h
    cases hp : parse source with
    | error e =>
      rw [hp] at h
      cases h
    | ok t => exact ⟨t, rfl⟩
  obtain ⟨t, hp⟩ := hparse
  obtain ⟨ds, hds, rfl⟩ := parse_eq_ok_iff.1 hp
  rw [formatText_of_consists style hds] at h
  exact ⟨ds, hds, (Except.ok.inj h).symm⟩

theorem map_layout_ne_nil (style : Style) (h : Consists source ds) :
    ds.map (Document.layout style) ≠ [] :=
  fun he => h.ne_nil (List.map_eq_nil_iff.1 he)

/-- The documents of a text that are laid out make up the formatted text, if and only if the style
keeps them. -/
theorem consists_layout_iff (style : Style) (h : Consists source ds) :
    Consists (writtenAll (ds.map (Document.layout style))) (ds.map (Document.layout style)) ↔
      Keeps style ds := by
  rw [Keeps, ← layoutAll_iff style h.laid]
  exact ⟨fun h => h.laid, fun hl => ⟨map_layout_ne_nil style h, hl, rfl⟩⟩

/-! ### The same tree -/

/-- A text is formatted without fail, and the formatted text has the tree of the text but for leads,
if and only if the style keeps the documents of the text. -/
theorem bare_parse_formatText_iff (style : Style) (h : parse source = .ok t) :
    ∃ ds out, Consists source ds ∧ t = streamTree ds ∧ formatText style source = .ok out ∧
      ((∃ r, parse out = .ok r ∧ r.bare = t.bare) ↔ Keeps style ds) := by
  obtain ⟨ds, hds, rfl⟩ := parse_eq_ok_iff.1 h
  refine ⟨ds, _, hds, rfl, formatText_of_consists style hds, ?_⟩
  rw [← consists_layout_iff style hds]
  constructor
  · rintro ⟨r, hr, hbare⟩
    obtain ⟨es, hes, rfl⟩ := parse_eq_ok_iff.1 hr
    have he : es = ds.map (Document.layout style) := by
      refine eq_of_bareAll_eq hes.laid.spacedAll (hds.laid.spacedAll_layout style) ?_ hes.written_eq
      exact bareAll_trees_eq_of_bare_eq (hbare.trans (bare_layoutAll style ds).symm)
    rwa [he] at hes
  · intro hl
    exact ⟨_, parse_eq_ok_iff.2 ⟨_, hl, rfl⟩, bare_layoutAll style ds⟩

/-- A source with entries further in than the style has them. -/
theorem bare_parse_formatText_iff_nested :
    ∃ t ds out, parse "a:\n    - b: 1\n...\n".toList = .ok t ∧
      Consists "a:\n    - b: 1\n...\n".toList ds ∧
      formatText .standard "a:\n    - b: 1\n...\n".toList = .ok out ∧
      ((∃ r, parse out = .ok r ∧ r.bare = t.bare) ↔ Keeps .standard ds) := by
  have h : (parse "a:\n    - b: 1\n...\n".toList).isOk := by decide +kernel
  obtain ⟨t, ht⟩ := exists_eq_ok_of_isOk h
  obtain ⟨ds, out, hds, -, hout, hiff⟩ := bare_parse_formatText_iff .standard ht
  exact ⟨t, ds, out, ht, hds, hout, hiff⟩

/-- How many children the nodes of a tree have, in preorder. -/
def Node.shape (t : Tree) : List Nat :=
  t.preorder.map (·.children.length)

/-- Below a first line that is indented, the second entry of a sequence leaves the sequence. -/
theorem bare_parse_formatText_indented :
    ∃ t out r, parse "  - - a\n    - b\n".toList = .ok t ∧
      formatText .standard "  - - a\n    - b\n".toList = .ok out ∧ parse out = .ok r ∧
      r.bare ≠ t.bare := by
  have hshape : (parse "  - - a\n    - b\n".toList).toOption.map (·.bare.shape) =
      some [1, 2, 1, 1, 2, 1, 0, 1, 0, 0] := by decide +kernel
  have hout : formatText .standard "  - - a\n    - b\n".toList =
      .ok "  - - a\n  - b\n".toList := eq_ok_of_toOption (by decide +kernel)
  have hshape' : (parse "  - - a\n  - b\n".toList).toOption.map (·.bare.shape) =
      some [1, 2, 2, 1, 1, 1, 0, 1, 0, 0] := by decide +kernel
  obtain ⟨t, ht, hs⟩ := Option.map_eq_some_iff.1 hshape
  obtain ⟨r, hr, hs'⟩ := Option.map_eq_some_iff.1 hshape'
  refine ⟨t, _, r, eq_ok_of_toOption ht, hout, eq_ok_of_toOption hr, fun he => ?_⟩
  rw [he, hs] at hs'
  cases hs'

/-! ### The same text -/

/-- A text is formatted without fail, and the formatted text stays as it is, if and only if the
style keeps the documents of the text, or what it makes of them are other documents that are laid
out. -/
theorem formatText_formatText_iff (style : Style) (h : parse source = .ok t) :
    ∃ ds out, Consists source ds ∧ formatText style source = .ok out ∧
      (formatText style out = .ok out ↔ Keeps style ds ∨
        ∃ es, es ≠ ds.map (Document.layout style) ∧ Consists out es ∧
          es.map (Document.layout style) = es) := by
  obtain ⟨ds, hds, rfl⟩ := parse_eq_ok_iff.1 h
  refine ⟨ds, _, hds, formatText_of_consists style hds, ?_⟩
  rw [← consists_layout_iff style hds]
  constructor
  · intro hf
    obtain ⟨es, hes, hout⟩ := exists_consists_of_formatText hf
    have hstays : es.map (Document.layout style) = es := by
      refine eq_of_bareAll_eq (hes.laid.spacedAll_layout style) hes.laid.spacedAll ?_ ?_
      · exact bareAll_trees_eq_of_bare_eq (bare_layoutAll style es)
      · rw [← hout, hes.written_eq]
    by_cases he : es = ds.map (Document.layout style)
    · rw [he] at hes
      exact .inl hes
    · exact .inr ⟨es, he, hes, hstays⟩
  · rintro (hl | ⟨es, -, hes, hstays⟩)
    · rw [formatText_of_consists style hl, hds.laid.layout_layout style]
    · rw [formatText_of_consists style hes, hstays, hes.written_eq]

/-- A source with a trailing comment and a gap behind a `-`. -/
theorem formatText_formatText_iff_gap :
    ∃ t ds out, parse "-   a: 1 # c\n    b: 2\n".toList = .ok t ∧
      Consists "-   a: 1 # c\n    b: 2\n".toList ds ∧
      formatText .standard "-   a: 1 # c\n    b: 2\n".toList = .ok out ∧
      (formatText .standard out = .ok out ↔ Keeps .standard ds ∨
        ∃ es, es ≠ ds.map (Document.layout .standard) ∧ Consists out es ∧
          es.map (Document.layout .standard) = es) := by
  have h : (parse "-   a: 1 # c\n    b: 2\n".toList).isOk := by decide +kernel
  obtain ⟨t, ht⟩ := exists_eq_ok_of_isOk h
  obtain ⟨ds, out, hds, hout, hiff⟩ := formatText_formatText_iff .standard ht
  exact ⟨t, ds, out, ht, hds, hout, hiff⟩

/-- The text that comes of an indented first line, and the text that comes of a comment behind a
`...`, cannot be formatted again. -/
theorem formatText_formatText_fails :
    ((parse "  a:\n    b: 1\n".toList).isOk ∧
      ∃ out, formatText ⟨1, true, by decide⟩ "  a:\n    b: 1\n".toList = .ok out ∧
        (formatText ⟨1, true, by decide⟩ out).isOk = false) ∧
    ((parse "a: 1\n... # c\n".toList).isOk ∧
      ∃ out, formatText .standard "a: 1\n... # c\n".toList = .ok out ∧
        (formatText .standard out).isOk = false) := by
  refine ⟨⟨by decide +kernel, "  a:\n b: 1\n".toList, eq_ok_of_toOption (by decide +kernel),
    by decide +kernel⟩, by decide +kernel, "a: 1\n...# c\n".toList,
    eq_ok_of_toOption (by decide +kernel), by decide +kernel⟩

/-! ### Reading undoes printing -/

/-- The lead of the first token of a block. Entries have it, their collection has not. -/
def Node.firstLead (n : Tree) : Text :=
  if n.isCollection then n.children.head?.elim [] (·.lead) else n.lead

/-- The blocks of documents begin at the start of a line, if there is some text on the line in front
of the first of them. -/
def blocksAtMargin (line : Text) : List Tree → Bool
  | [] => true
  | d :: ds =>
    d.children.dropLast.all (fun block =>
      (lineAfter line (d.lead ++ (d.text ++ block.firstLead))).isEmpty) &&
    match d.print with
    | .ok written => blocksAtMargin (lineAfter line written) ds
    | .error _ => false

/-- The blocks of a stream begin at the start of a line, and no comment trails the mark in front of
a document. -/
def atMargin (t : Tree) : Bool :=
  blocksAtMargin [] t.children && t.children.tail.all fun d => !(firstLine d.lead).contains '#'

theorem Block.firstLead_tree : (b : Block) → b.tree.firstLead = b.lead
  | .empty | .scalar .. => rfl
  | .entries (.last _ head _) | .entries (.more _ head _ _) => by cases head <;> rfl

theorem Document.dropLast_children (d : Document) : d.tree.children.dropLast = d.block.children :=
  List.dropLast_concat

/-- The block of a document that begins at the margin has room. -/
theorem Document.hasRoomTop_of_blocksAtMargin {line : Text} {d : Document}
    (h : d.block.children.all fun block =>
      (lineAfter line (d.lead ++ (d.mark ++ block.firstLead))).isEmpty) :
    d.block.HasRoomTop style (d.shift line) := by
  have hshift (hb : d.block.children = [d.block.tree]) : d.shift line = 0 := by
    rw [hb, List.all_cons, Bool.and_eq_true, List.isEmpty_iff, Block.firstLead_tree,
      lineAfter_append, lineAfter_append] at h
    rw [shift, blockLine, h.1]
    exact Nat.zero_sub _
  cases hd : d.block with
  | empty => trivial
  | scalar => trivial
  | entries es =>
    rw [hshift (by rw [hd]; rfl)]
    exact (Block.entries es).hasRoomTop_zero

theorem roomAll_of_blocksAtMargin (style : Style) : {line : Text} → (ds : List Document) →
    blocksAtMargin line (ds.map Document.tree) → RoomAll style line ds
  | _, [], _ => trivial
  | line, d :: ds, h => by
    rw [List.map_cons, blocksAtMargin, d.print_tree, d.dropLast_children, Bool.and_eq_true] at h
    exact ⟨d.hasRoomTop_of_blocksAtMargin h.1, roomAll_of_blocksAtMargin style ds h.2⟩

/-- A style keeps what begins at the margin, whatever its step. -/
theorem keeps_of_atMargin (style : Style) (h : atMargin (streamTree ds)) : Keeps style ds := by
  rw [atMargin, Bool.and_eq_true] at h
  obtain ⟨hblocks, hcomments⟩ := h
  refine ⟨roomAll_of_blocksAtMargin style ds hblocks, fun d hd hm => ?_⟩
  have hmem : d.tree ∈ (streamTree ds).children.tail := by
    rw [streamTree, ← List.map_tail]
    exact List.mem_map_of_mem hd
  have hnot := List.all_eq_true.1 hcomments _ hmem
  rw [Bool.not_eq_true', ← Bool.not_eq_true, List.contains_iff_mem] at hnot
  exact hnot hm

/-- Where every block begins at the margin and no comment trails a mark, the tree that the pass
gives is read back from its text, leads and all. -/
theorem parse_print_reindent (style : Style) (h : parse source = .ok t) (hm : atMargin t) :
    ∃ v out, reindent style t.tagged = .ok v ∧ v.node.print = .ok out ∧
      parse out = .ok v.node.untagged := by
  obtain ⟨ds, hds, rfl⟩ := parse_eq_ok_iff.1 h
  obtain ⟨v, hv, htree, hprint⟩ := exists_print_reindent style hds.laid.lined
  have hl := (consists_layout_iff style hds).2 (keeps_of_atMargin style hm)
  exact ⟨v, _, hv, hprint, by rw [htree]; exact parse_eq_ok_iff.2 ⟨_, hl, rfl⟩⟩

/-- A source with a comment, compact entries, a `...` and a mark behind it. -/
theorem parse_print_reindent_documents :
    ∃ t v out, parse "# c\na:\n-   - b: 1 # d\n      e:\n... \n---\nf: 'g'\n".toList = .ok t ∧
      atMargin t ∧ reindent .standard t.tagged = .ok v ∧ v.node.print = .ok out ∧
      parse out = .ok v.node.untagged := by
  have h : (parse "# c\na:\n-   - b: 1 # d\n      e:\n... \n---\nf: 'g'\n".toList).toOption.any
      atMargin := by decide +kernel
  obtain ⟨t, hsome, hm⟩ := (Option.any_eq_true _ _).1 h
  have ht := eq_ok_of_toOption hsome
  obtain ⟨v, out, hv, hout, hp⟩ := parse_print_reindent .standard ht hm
  exact ⟨t, v, out, ht, hm, hv, hout, hp⟩

/-! ### One style after another -/

/-- The pass over what a pass gave gives the tree of the later style, if that has single gaps where
the earlier one had them. A style that comes twice makes no copies the second time. -/
theorem reindent_reindent {a b : Style} (hab : a.singleGap → b.singleGap)
    (h : parse source = .ok t) :
    ∃ v w u, reindent a t.tagged = .ok v ∧ reindent b v.node.tagged = .ok w ∧
      reindent b t.tagged = .ok u ∧ w.node.untagged = u.node.untagged ∧
      (a = b → w.node = v.node.tagged) := by
  obtain ⟨ds, hds, rfl⟩ := parse_eq_ok_iff.1 h
  have hlined := hds.laid.lined
  have hlined' : ∀ d ∈ ds.map (Document.layout a), d.Lined := by
    intro d hd
    obtain ⟨d, hmem, rfl⟩ := List.mem_map.1 hd
    exact (hlined d hmem).layout a
  obtain ⟨v, hv, hvt⟩ := reindent_streamTree a hds.laid
  have hgiven : v.node.tagged.untagged = streamTree (ds.map (Document.layout a)) :=
    (untagged_retag v.node).trans hvt
  obtain ⟨w, hw, hwt⟩ := reindent_of_untagged b hlined' hgiven
  obtain ⟨u, hu, hut⟩ := reindent_streamTree b hds.laid
  refine ⟨v, w, u, hv, hw, hu, ?_, ?_⟩
  · rw [hwt, hut, layoutAll_layoutAll hlined hab]
  · rintro rfl
    refine reindent_eq_self v.node.original_tagged hw ?_
    rw [hwt, hgiven, layoutAll_layoutAll hlined hab]

/-- A source with a comment and a wide gap, in steps of four and then in the standard style. -/
theorem reindent_reindent_four :
    ∃ t v w u, parse "a:\n  -   b: 1\n  # c\n  - - d\n".toList = .ok t ∧
      reindent ⟨4, true, by decide⟩ t.tagged = .ok v ∧
      reindent .standard v.node.tagged = .ok w ∧ reindent .standard t.tagged = .ok u ∧
      w.node.untagged = u.node.untagged := by
  have h : (parse "a:\n  -   b: 1\n  # c\n  - - d\n".toList).isOk := by decide +kernel
  obtain ⟨t, ht⟩ := exists_eq_ok_of_isOk h
  obtain ⟨v, w, u, hv, hw, hu, he, -⟩ :=
    @reindent_reindent _ _ ⟨4, true, by decide⟩ .standard (fun _ => rfl) ht
  exact ⟨t, v, w, u, ht, hv, hw, hu, he⟩

end YamlIndent
