import YamlIndent.Proofs.Layout.Stream
import YamlIndent.Proofs.Pass.Blocks

/-!
# The pass over documents

At the top of a document the pass takes entries to be where their leads say, and the first, if it is
on a line that the document did not break, where the lead of the document says.

## Main results

* `Document.Lined.visits`: the pass lays out a document.
* `reindent_streamTree`: the pass over the tree of some documents gives that of the documents laid
  out.
-/

namespace YamlIndent

open Node

variable {style : Style} {trail : List (Frame Int)} {carry carry' : Option Int} {n : Node Origin}

/-! ### Documents -/

theorem otherLead_of_atTop (ht : atTop trail) (lead : Text) :
    otherLead style trail lead = settle lead := by
  rw [otherLead, ht]
  by_cases hb : hasBreak lead
  · rw [hb]
    rfl
  · rw [eq_false_of_ne_true hb, settle, realign_of_not_hasBreak _ (eq_false_of_ne_true hb)]
    rfl

/-- The trail below a document behind a lead. -/
def documentTrail (lead : Text) : List (Frame Int) :=
  [⟨.document, lead, none⟩, ⟨.stream, [], none⟩]

theorem indentBelow_documentTrail (lead : Text) :
    indentBelow (documentTrail lead) = (if hasBreak lead then indentOf lead else 0 : Nat) := by
  have hstream : indentBelow [⟨.stream, [], none⟩] = 0 := rfl
  rw [documentTrail, indentBelow_cons rfl, hstream, Frame.column?]
  by_cases hb : hasBreak lead
  · by_cases hi : indentOf lead = 0 <;> simp [hb, hi]
  · simp [hb]

theorem atTop_enter_documentTrail (kind : Kind) (lead : Text) :
    atTop (enter kind (documentTrail lead)) :=
  Bool.or_true _

/-- The first entry of a document stays where it is. -/
theorem starts_documentTrail {head : Head} {kind : Kind} {lead first : Text} {column : Nat}
    (hcol : column = if hasBreak first then indentOf first else
      if hasBreak lead then indentOf lead else 0) :
    Starts style (enter kind (documentTrail lead)) carry head first (settle first) column
      carry := by
  have ht := atTop_enter_documentTrail kind lead
  by_cases hb : hasBreak first
  · rw [hcol, if_pos hb]
    exact starts_of_atTop ht hb
  · have hi : indentBelow (enter kind (documentTrail lead)) = column := by
      rw [indentBelow_enter, indentBelow_documentTrail, hcol, if_neg hb]
    rw [settle, realign_of_not_hasBreak _ (eq_false_of_ne_true hb)]
    cases head with
    | item =>
      rintro n rfl
      simp only [startItem, eq_false_of_ne_true hb, ht, hi, Bool.false_eq_true, if_false, if_true,
        withLead_self]
    | key text indicator =>
      rintro n rfl
      have hin : inItem (enter kind (documentTrail lead)) = false := rfl
      simp only [placePair, eq_false_of_ne_true hb, ht, hi, hin, Bool.false_eq_true, if_false,
        if_true, withLead_self, and_self]

/-- The pass lays out the entries at the top of a document. -/
theorem Entries.visitsTop {column k : Nat} {kind : Kind} {above : List (Frame Int)}
    {ns : List (Node Origin)} (ht : atTop (enter kind above)) (hk : kind ≠ .document) :
    (es : Entries) → es.Lined k → untaggedAll ns = es.trees →
    Starts style (enter kind above) none es.head es.lead (settle es.lead) column none →
    VisitsAll style (enter kind above) none ns (es.layoutTop style column).trees
  | .last _ head value, hl, hns, hst => by
    rw [Lined] at hl
    rw [trees] at hns
    obtain ⟨n, ns', rfl, hn', hnil⟩ := exists_of_untaggedAll_cons hns
    rw [eq_nil_of_untaggedAll hnil, layoutTop, trees]
    exact .cons (visits_entry hn' hst (value.visits hl hk)) .nil
  | .more _ head value others, hl, hns, hst => by
    rw [Lined] at hl
    rw [trees] at hns
    obtain ⟨n, ns', rfl, hn', hothers⟩ := exists_of_untaggedAll_cons hns
    rw [← others.relead_lead] at hothers
    obtain ⟨hvalue, hstands, hl'⟩ := hl
    obtain ⟨carry', ha, hst'⟩ := aligns_of_atTop ht others.head others.lead none hstands
      (agrees_none _)
    rw [layoutTop, trees, hstands.indentOf_eq]
    exact .cons (visits_entry hn' hst (value.visits hvalue hk))
      (others.visitsAll hl' hk hothers hst' ha (aligns_of_atTop ht))

/-- The pass lays out the block of a document and its end. -/
theorem Block.visits_children {lead endLead endText : Text} {column : Nat}
    {ns : List (Node Origin)} (b : Block) (hl : ∀ {es}, b = .entries es → ∃ k, es.Lined k)
    (hcol : b.children ≠ [] → column = if hasBreak b.lead then indentOf b.lead else
      if hasBreak lead then indentOf lead else 0)
    (hns : untaggedAll ns = b.children ++ [⟨(), .documentEnd, endLead, endText, []⟩]) :
    VisitsAll style (documentTrail lead) none ns ((b.layoutTop style column).children ++
      [⟨(), .documentEnd, settle endLead, endText, []⟩]) := by
  have htop (gap : Text) : otherLead style (documentTrail lead) gap = settle gap :=
    otherLead_of_atTop rfl gap
  have hend {ns : List (Node Origin)}
      (h : untaggedAll ns = [⟨(), .documentEnd, endLead, endText, []⟩]) :
      VisitsAll style (documentTrail lead) none ns
        [⟨(), .documentEnd, settle endLead, endText, []⟩] := by
    obtain ⟨n, ns', rfl, hn, hnil⟩ := exists_of_untaggedAll_cons h
    rw [eq_nil_of_untaggedAll hnil, ← htop]
    exact .cons (visits_leaf (.inr rfl) hn) .nil
  cases b with
  | empty => exact hend hns
  | scalar first text =>
    obtain ⟨n, ns', rfl, hn, hns'⟩ := exists_of_untaggedAll_cons hns
    rw [layoutTop, ← htop]
    exact .cons (visits_scalar hn) (hend hns')
  | entries es =>
    obtain ⟨n, ns', rfl, hn, hns'⟩ := exists_of_untaggedAll_cons hns
    obtain ⟨k, hes⟩ := hl rfl
    have hst : Starts style (enter es.head.blockKind (documentTrail lead)) none es.head es.lead
        (settle es.lead) column none := starts_documentTrail (hcol (List.cons_ne_nil _ _))
    have hvisits : Visits style (documentTrail lead) none n
        ⟨(), es.head.blockKind, [], [], (es.layoutTop style column).trees⟩ none :=
      visits_enter hn fun hc => es.visitsTop (atTop_enter_documentTrail _ lead)
        es.head.blockKind_ne_document hes hc hst
    rw [layoutTop, children, tree, es.head_layoutTop]
    exact .cons hvisits (hend hns')

variable {d : Document} {ds : List Document}

/-- A document has its comments moved to the margin. -/
theorem placeNode_document (style : Style) (trail : List (Frame Int)) (carry : Option Int)
    (hk : n.kind = .document) : placeNode style trail carry n =
      .ok ⟨n.withLead (realignDocument 0 n.lead), none, carry⟩ := by
  rw [placeNode, placeWith, hk]
  rfl

/-- The pass lays out a document that is lined up. -/
theorem Document.Lined.visits (h : d.Lined) (hn : n.untagged = d.tree) :
    Visits style [⟨.stream, [], none⟩] carry n (d.layout style).tree carry := by
  rw [untagged_eq, tree, Node.mk.injEq] at hn
  obtain ⟨-, hk, hl, ht, hc⟩ := hn
  have hplace := placeNode_document style [⟨.stream, [], none⟩] carry hk
  obtain ⟨hk', hl', ht', hc'⟩ := withLead_parts (realignDocument 0 n.lead) n
  have hcolumn (hb : d.block.children ≠ []) : d.column =
      if hasBreak d.block.lead then indentOf d.block.lead
      else if hasBreak (realignDocument 0 d.lead) then indentOf (realignDocument 0 d.lead)
      else 0 := by
    rw [column, hasBreak_realignDocument, h.indentOf_realignDocument hb]
  have hchildren : VisitsAll style (documentTrail (realignDocument 0 d.lead)) none n.children
      ((d.layout style).block.children ++
        [⟨(), .documentEnd, settle d.endLead, d.endText, []⟩]) :=
    d.block.visits_children h.entries hcolumn hc
  have hvisits := Visits.of_placed hplace (copyOf_withLead _ n) (by
    rw [hl', hc', hk, hl]
    exact hchildren)
  rw [hk', hl', ht', hk, hl, ht] at hvisits
  exact hvisits

theorem visitsAll_documents {ns : List (Node Origin)} : {ds : List Document} →
    (∀ d ∈ ds, d.Lined) → untaggedAll ns = ds.map Document.tree →
    VisitsAll style [⟨.stream, [], none⟩] carry ns
      ((ds.map (Document.layout style)).map Document.tree)
  | [], _, hn => by
    rw [eq_nil_of_untaggedAll hn]
    exact .nil
  | d :: ds, h, hn => by
    obtain ⟨n, ns', rfl, hd, hds⟩ := exists_of_untaggedAll_cons hn
    obtain ⟨hl, hls⟩ := List.forall_mem_cons.1 h
    exact .cons (hl.visits hd) (visitsAll_documents hls hds)

theorem visits_stream (h : ∀ d ∈ ds, d.Lined) (hn : n.untagged = streamTree ds) :
    Visits style [] carry n (streamTree (ds.map (Document.layout style))) carry := by
  rw [untagged_eq, streamTree, Node.mk.injEq] at hn
  obtain ⟨-, hk, hl, ht, hc⟩ := hn
  have hvisits := Visits.of_placed (placeNode_of_lead_nil style [] carry (.inl hk) hl) (.refl n) (by
    rw [hk, hl]
    exact visitsAll_documents h hc)
  rwa [hk, hl, ht] at hvisits

/-- The pass over the tree of documents that are lined up gives that of the documents laid out. -/
theorem reindent_of_untagged (style : Style) (h : ∀ d ∈ ds, d.Lined)
    (hn : n.untagged = streamTree ds) :
    ∃ v, reindent style n = .ok v ∧
      v.node.untagged = streamTree (ds.map (Document.layout style)) := by
  obtain ⟨v, hv, he, -⟩ := visits_stream h hn
  exact ⟨v, hv, he⟩

/-- The pass over the tree of some documents gives that of the documents laid out. -/
theorem reindent_streamTree {line : Text} (style : Style) (h : LaidAll line ds) :
    ∃ v, reindent style (streamTree ds).tagged = .ok v ∧
      v.node.untagged = streamTree (ds.map (Document.layout style)) :=
  reindent_of_untagged style h.lined (untagged_tagged (streamTree ds))

end YamlIndent
