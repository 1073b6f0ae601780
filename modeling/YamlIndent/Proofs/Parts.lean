import YamlIndent.Proofs.Formatting
import YamlIndent.Proofs.Pass.Ancestors

/-!
# Passes over a part of what a pass gave

What a pass gave stays under another pass of the style. A pass that is given a part of it, and the
nodes above, is to leave the part as well. At the top of a document it does: leads show there what
the pass would note. Behind an entry that does not start a line, they do not.

## Main results

* `reindent_part_iff`: which parts of what a pass gave stay.
* `reindent_part_fails`: one that does not.
-/

namespace YamlIndent

open Node

variable {style : Style} {trail : List (Frame Int)} {above ns : List (Node Origin)}
  {n : Node Origin}

/-! ### The top of a document -/

section Top

variable {head : Head} {kind : Kind} {lead text : Text} {value : Block} {column : Nat}
  {carry : Option Int}

/-- `PartsStay` holds of an entry at the top of a document that is where it is laid out. -/
theorem PartsStay.of_topEntry (hk : kind ≠ .document) (hm : measuredTrail above = enter kind trail)
    (htrail : Shown style above) (hl : value.Lined head)
    (hn : n.untagged = head.entry lead value.tree) (hv : value.layout style head column = value)
    (hst : Starts style (measuredTrail above) none head lead lead column carry)
    (hs : PartsStay style above ns) : PartsStay style above (n :: ns) := by
  have hvisits : Visits style (measuredTrail above) none n
      (head.entry lead (value.layout style head column).tree) carry :=
    visits_entry hn hst (by rw [hm]; exact value.visits hl hk)
  rw [hv, ← hn] at hvisits
  exact .of_entry (.of_shown htrail hvisits) hl hn hv hst htrail ⟨kind, trail, hm, hk⟩
    ⟨kind, trail, hm, hk⟩ (Block.partsStay value hl) hs

/-- `PartsStay` holds of the entries at the top of a document that is laid out. -/
theorem Entries.partsStayTop {kind : Kind} {k column : Nat} {carry : Option Int}
    (hk : kind ≠ .document) (ht : atTop (measuredTrail above))
    (hm : measuredTrail above = enter kind trail) (htrail : Shown style above)
    {ns : List (Node Origin)} : (es : Entries) → es.Lined k → es.layoutTop style column = es →
    untaggedAll ns = es.trees →
    Starts style (measuredTrail above) none es.head es.lead (settle es.lead) column carry →
    PartsStay style above ns
  | .last lead head value, hl, hes, hns, hst => by
    rw [Lined] at hl
    rw [layoutTop, last.injEq] at hes
    rw [trees] at hns
    obtain ⟨n, ns', rfl, hn, hnil⟩ := exists_of_untaggedAll_cons hns
    rw [Entries.lead, hes.1] at hst
    rw [eq_nil_of_untaggedAll hnil]
    exact .of_topEntry hk hm htrail hl hn hes.2.2 hst .nil
  | .more lead head value others, hl, hes, hns, hst => by
    rw [Lined] at hl
    rw [layoutTop, more.injEq] at hes
    rw [trees] at hns
    obtain ⟨n, ns', rfl, hn, hns'⟩ := exists_of_untaggedAll_cons hns
    obtain ⟨hl, hstands, hothers⟩ := hl
    obtain ⟨hlead, -, hv, hos⟩ := hes
    have hal : Aligns style (measuredTrail above) k k := aligns_of_atTop ht
    obtain ⟨carry', -, hst'⟩ := hal others.head others.lead none hstands (agrees_none _)
    rw [hstands.indentOf_eq, ← others.layoutTop_of_standsAt style hothers hstands] at hos
    rw [moveTo_eq_settle hstands] at hst'
    rw [Entries.lead, hlead] at hst
    exact .of_topEntry hk hm htrail hl hn hv hst
      (others.partsStayTop hk ht hm htrail hothers hos hns' hst')

/-- A scalar or the end of a document stays at the top. -/
theorem PartsStay.of_topLeaf (hkind : kind = .scalar ∨ kind = .documentEnd)
    (ht : atTop (measuredTrail above)) (htrail : Shown style above)
    (hn : n.untagged = ⟨(), kind, lead, text, []⟩) (hlead : settle lead = lead)
    (hs : PartsStay style above ns) : PartsStay style above (n :: ns) := by
  have hvisits : Visits style (measuredTrail above) none n
      ⟨(), kind, otherLead style (measuredTrail above) lead, text, []⟩ none :=
    visits_leaf hkind hn
  rw [otherLead_of_atTop ht, hlead, ← hn] at hvisits
  rw [untagged_eq, Node.mk.injEq] at hn
  refine .cons (.of_shown htrail hvisits) ?_ hs
  rw [eq_nil_of_untaggedAll hn.2.2.2.2]
  exact .nil

end Top

/-! ### Documents -/

/-- `PartsStay` holds of the entries of a document where they are laid out, and of what follows
them. -/
theorem PartsStay.of_topEntries {es : Entries} {lead : Text} {k column : Nat} (hes : es.Lined k)
    (hst : Starts style (enter es.head.blockKind (documentTrail lead)) none es.head es.lead
      (settle es.lead) column none)
    (hlay : es.layoutTop style column = es)
    (hn : n.untagged = ⟨(), es.head.blockKind, [], [], es.trees⟩)
    (hm : measuredTrail above = documentTrail lead) (htrail : Shown style above)
    (hs : PartsStay style above ns) : PartsStay style above (n :: ns) := by
  have hk := es.head.blockKind_ne_document
  have hvisits : Visits style (documentTrail lead) none n
      ⟨(), es.head.blockKind, [], [], (es.layoutTop style column).trees⟩ none :=
    visits_enter hn fun hc => es.visitsTop (atTop_enter_documentTrail _ lead) hk hes hc hst
  rw [hlay, ← hn, ← hm] at hvisits
  rw [untagged_eq, Node.mk.injEq] at hn
  obtain ⟨-, hkind, hlead, -, hc⟩ := hn
  have hmeasured : measuredTrail (above ++ [n]) = enter es.head.blockKind (documentTrail lead) := by
    rw [measuredTrail_concat, hkind, hlead, hm, enter]
  have hplace := placeNode_of_lead_nil style (measuredTrail above) none
    (.inr (by rw [hkind]; exact es.head.blockKind_eq)) hlead
  refine .cons (.of_shown htrail hvisits) ?_ hs
  refine es.partsStayTop hk ?_ hmeasured (htrail.concat hplace) hes hlay hc
    (by rw [hmeasured]; exact hst)
  rw [hmeasured]
  exact atTop_enter_documentTrail _ lead

/-- `PartsStay` holds of the block of a document and of its end where they are laid out. -/
theorem Block.partsStay_children {lead endLead endText : Text} {column : Nat} (b : Block)
    (hl : ∀ {es}, b = .entries es → ∃ k, es.Lined k)
    (hcol : b.children ≠ [] → column = if hasBreak b.lead then indentOf b.lead else
      if hasBreak lead then indentOf lead else 0)
    (hb : b.layoutTop style column = b) (hend : settle endLead = endLead)
    (hns : untaggedAll ns = b.children ++ [⟨(), .documentEnd, endLead, endText, []⟩])
    (hm : measuredTrail above = documentTrail lead)
    (htrail : Shown style above) : PartsStay style above ns := by
  have ht : atTop (measuredTrail above) := by
    rw [hm]
    rfl
  have hlast {ns : List (Node Origin)}
      (h : untaggedAll ns = [⟨(), .documentEnd, endLead, endText, []⟩]) :
      PartsStay style above ns := by
    obtain ⟨n, ns', rfl, hn, hnil⟩ := exists_of_untaggedAll_cons h
    rw [eq_nil_of_untaggedAll hnil]
    exact .of_topLeaf (.inr rfl) ht htrail hn hend .nil
  cases b with
  | empty => exact hlast hns
  | scalar first text =>
    obtain ⟨n, ns', rfl, hn, hns'⟩ := exists_of_untaggedAll_cons hns
    rw [layoutTop, scalar.injEq] at hb
    exact .of_topLeaf (.inl rfl) ht htrail hn hb.1 (hlast hns')
  | entries es =>
    obtain ⟨n, ns', rfl, hn, hns'⟩ := exists_of_untaggedAll_cons hns
    obtain ⟨k, hes⟩ := hl rfl
    rw [layoutTop, entries.injEq] at hb
    exact .of_topEntries hes (starts_documentTrail (hcol (List.cons_ne_nil _ _))) hb hn hm htrail
      (hlast hns')

/-- `PartsStay` holds of a document that is laid out. -/
theorem Document.Lined.partsStay {d : Document} (h : d.Lined) (hd : d.layout style = d)
    (hn : n.untagged = d.tree) (hm : measuredTrail above = [⟨.stream, [], none⟩])
    (htrail : Shown style above)
    (hs : PartsStay style above ns) : PartsStay style above (n :: ns) := by
  have hvisits : Visits style (measuredTrail above) none n (d.layout style).tree none := by
    rw [hm]
    exact h.visits hn
  rw [hd, ← hn] at hvisits
  have hself := hn
  rw [untagged_eq, tree, Node.mk.injEq] at hself
  obtain ⟨-, hk, hl, -, hc⟩ := hself
  rw [Document.layout, Document.mk.injEq] at hd
  obtain ⟨hlead, -, hblock, hend, -⟩ := hd
  have hplace : placeNode style (measuredTrail above) none n = .ok ⟨n, none, none⟩ := by
    rw [placeNode_document style _ none hk, hl, hlead, ← hl, withLead_self]
  have hmeasured : measuredTrail (above ++ [n]) = documentTrail d.lead := by
    rw [measuredTrail_concat, hm, hk, hl]
    rfl
  refine .cons (.of_shown htrail hvisits) ?_ hs
  exact d.block.partsStay_children h.entries (fun _ => rfl) hblock hend hc hmeasured
    (htrail.concat hplace)

theorem partsStay_documents (hm : measuredTrail above = [⟨.stream, [], none⟩])
    (htrail : Shown style above) {ns : List (Node Origin)} :
    {ds : List Document} → (∀ d ∈ ds, d.Lined ∧ d.layout style = d) →
    untaggedAll ns = ds.map Document.tree → PartsStay style above ns
  | [], _, hn => by
    rw [eq_nil_of_untaggedAll hn]
    exact .nil
  | d :: ds, h, hn => by
    obtain ⟨n, ns', rfl, hd, hds⟩ := exists_of_untaggedAll_cons hn
    obtain ⟨hl, hls⟩ := List.forall_mem_cons.1 h
    exact hl.1.partsStay hl.2 hd hm htrail (partsStay_documents hm htrail hls hds)

/-- `PartsStay` holds of the tree of documents that are laid out. -/
theorem partsStay_stream {ds : List Document} (h : ∀ d ∈ ds, d.Lined ∧ d.layout style = d)
    (hn : n.untagged = streamTree ds) : PartsStay style [] [n] := by
  have hlayout : ds.map (Document.layout style) = ds := by
    rw [List.map_congr_left fun d hd => (h d hd).2, List.map_id']
  have hvisits : Visits style (measuredTrail []) none n
      (streamTree (ds.map (Document.layout style))) none :=
    visits_stream (fun d hd => (h d hd).1) hn
  rw [hlayout, ← hn] at hvisits
  have hself := hn
  rw [untagged_eq, streamTree, Node.mk.injEq] at hself
  obtain ⟨-, hk, hl, -, hc⟩ := hself
  have hnil : Shown style [] := rfl
  refine .cons (.of_shown hnil hvisits) ?_ .nil
  refine partsStay_documents ?_ (hnil.concat (placeNode_of_lead_nil style _ none (.inl hk) hl)) h hc
  rw [measuredTrail_concat, hk, hl]
  rfl

/-! ### Parts of what a pass gave -/

variable {source : Text} {t : Tree}

/-- A part of what a pass gave keeps its leads where the pass comes down to it. A pass over the
part, with the nodes above it, keeps them just if nothing in the part starts a line, or the indent
measured off the leads of the nodes above is the one that the pass notes on the way down. -/
theorem reindent_part_iff (style : Style) (h : parse source = .ok t) :
    ∃ f, reindent style t.tagged = .ok f ∧ ∀ above n, (above, n) ∈ f.node.tagged.paths [] →
      ∃ trail u v, notedTrail style above = .ok trail ∧ visit style none trail none n = .ok u ∧
        u.node.preorder.map (·.lead) = n.preorder.map (·.lead) ∧
        reindent style n none above = .ok v ∧
        (v.node.preorder.map (·.lead) = n.preorder.map (·.lead) ↔
          n.OnOneLine ∨ indentBelow (measuredTrail above) = indentBelow trail) := by
  obtain ⟨ds, hds, rfl⟩ := parse_eq_ok_iff.1 h
  have hlined := hds.laid.lined
  obtain ⟨f, hf, hft⟩ := reindent_streamTree style hds.laid
  have hgiven : f.node.tagged.untagged = streamTree (ds.map (Document.layout style)) :=
    (untagged_retag f.node).trans hft
  have hlaid : ∀ d ∈ ds.map (Document.layout style), d.Lined ∧ d.layout style = d := by
    intro d hd
    obtain ⟨d, hmem, rfl⟩ := List.mem_map.1 hd
    exact ⟨(hlined d hmem).layout style, (hlined d hmem).layout_layout id⟩
  have hparts := partsStay_stream hlaid hgiven
  refine ⟨f, hf, fun above n hn => hparts (above, n) ?_⟩
  rwa [pathsAll, pathsAll, List.append_nil]

/-- A key on the line of a `-` with its value below, and one in a column of its own. -/
theorem reindent_part_iff_compact :
    ∃ t f, parse "- a:\n    b\n- c:\n    d: 1\n  e:\n    f\n".toList = .ok t ∧
      reindent .standard t.tagged = .ok f ∧ ∀ above n, (above, n) ∈ f.node.tagged.paths [] →
        ∃ trail u v, notedTrail .standard above = .ok trail ∧
          visit .standard none trail none n = .ok u ∧
          u.node.preorder.map (·.lead) = n.preorder.map (·.lead) ∧
          reindent .standard n none above = .ok v ∧
          (v.node.preorder.map (·.lead) = n.preorder.map (·.lead) ↔
            n.OnOneLine ∨ indentBelow (measuredTrail above) = indentBelow trail) := by
  have h : (parse "- a:\n    b\n- c:\n    d: 1\n  e:\n    f\n".toList).isOk := by decide +kernel
  obtain ⟨t, ht⟩ := exists_eq_ok_of_isOk h
  obtain ⟨f, hf, hparts⟩ := reindent_part_iff .standard ht
  exact ⟨t, f, ht, hf, hparts⟩

/-- The value of a key that opens on the line of a `-` moves: the key is at column two, but no lead
says so. -/
theorem reindent_part_fails :
    ∃ t f p v, parse "- key:\n    value\n".toList = .ok t ∧ reindent .standard t.tagged = .ok f ∧
      (f.node.tagged.paths [])[7]? = some p ∧ reindent .standard p.2 none p.1 = .ok v ∧
      v.node.preorder.map (·.lead) ≠ p.2.preorder.map (·.lead) := by
  have h : (parse "- key:\n    value\n".toList).toOption.any fun t =>
      (reindent .standard t.tagged).toOption.any fun f => (f.node.tagged.paths [])[7]?.any fun p =>
        (reindent .standard p.2 none p.1).toOption.any fun v =>
          v.node.preorder.map (·.lead) != p.2.preorder.map (·.lead) := by decide +kernel
  obtain ⟨t, ht, h⟩ := (Option.any_eq_true _ _).1 h
  obtain ⟨f, hf, h⟩ := (Option.any_eq_true _ _).1 h
  obtain ⟨p, hp, h⟩ := (Option.any_eq_true _ _).1 h
  obtain ⟨v, hv, h⟩ := (Option.any_eq_true _ _).1 h
  exact ⟨t, f, p, v, eq_ok_of_toOption ht, eq_ok_of_toOption hf, hp, eq_ok_of_toOption hv,
    bne_iff_ne.1 h⟩

end YamlIndent
