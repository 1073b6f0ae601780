import YamlIndent.Proofs.Layout.Basic
import YamlIndent.Proofs.Tree.Copy
import YamlIndent.Reindent

/-!
# The gap behind a `-`

The pass looks for the gap behind a `-` in the tree below the entry, where it is the lead of the
first token of the value, however many sequences and mappings open there.

## Main definitions

* `Block.relead`: a block with another lead in front of its first token.
* `Style.spacedLead`: the lead of a value as the style spaces it.

## Main results

* `exists_spaceItem`: a sequence entry gets the gap that the style asks for.
* `gapAfterItem_eq`: the gap behind a `-` is the lead of its value.
-/

namespace YamlIndent

open Node

variable {style : Style} {n : Node Origin}

/-! ### Entries as nodes -/

theorem untagged_entry {lead : Text} {head : Head} {value : Tree}
    (h : n.untagged = head.entry lead value) : n.kind = head.entryKind ∧ n.lead = lead ∧
      (match head with
        | .item => n.text = ['-'] ∧ ∃ m, n.children = [m] ∧ m.untagged = value
        | .key text indicator => n.text = indicator ∧ ∃ k m, n.children = [k, m] ∧
            k.untagged = Head.scalarNode [] text ∧ m.untagged = value) := by
  rw [untagged_eq] at h
  cases head with
  | item =>
    rw [Head.entry, Node.mk.injEq] at h
    obtain ⟨-, hk, hl, ht, hc⟩ := h
    obtain ⟨m, ms, hms, hm, hnil⟩ := exists_of_untaggedAll_cons hc
    rw [eq_nil_of_untaggedAll hnil] at hms
    exact ⟨hk, hl, ht, m, hms, hm⟩
  | key text indicator =>
    rw [Head.entry, Node.mk.injEq] at h
    obtain ⟨-, hk, hl, ht, hc⟩ := h
    obtain ⟨k, ms, hms, hkey, hrest⟩ := exists_of_untaggedAll_cons hc
    obtain ⟨m, ms', hms', hm, hnil⟩ := exists_of_untaggedAll_cons hrest
    rw [hms', eq_nil_of_untaggedAll hnil] at hms
    exact ⟨hk, hl, ht, k, m, hms, hkey, hm⟩

/-! ### The gap behind a `-` -/

/-- Entries with another lead in front of the first. -/
def Entries.relead (lead : Text) : Entries → Entries
  | last _ head value => last lead head value
  | more _ head value others => more lead head value others

/-- A block with another lead in front of its first token. -/
def Block.relead (lead : Text) : Block → Block
  | empty => empty
  | scalar _ text => scalar lead text
  | entries es => entries (es.relead lead)

theorem Entries.relead_lead (es : Entries) : es.relead es.lead = es := by
  cases es <;> rfl

theorem Block.relead_lead (b : Block) : b.relead b.lead = b := by
  cases b with
  | empty => rfl
  | scalar => rfl
  | entries es => exact congrArg entries es.relead_lead

/-- The lead of a value as it is in the style before it is moved to its column. -/
def Style.spacedLead (style : Style) (head : Head) (lead : Text) : Text :=
  if head = .item ∧ style.singleGap ∧ isInlineGap lead then [' '] else lead

theorem valueLead_eq (style : Style) (head : Head) (column : Nat) (lead : Text) :
    style.valueLead head column lead =
      if hasBreak lead then moveTo (column + style.step : Nat) (style.spacedLead head lead)
      else style.spacedLead head lead := by
  rw [Style.valueLead, Style.spacedLead]
  by_cases hb : hasBreak lead
  · have hgap : isInlineGap lead = false := by rw [isInlineGap, hb, Bool.not_true, Bool.and_false]
    rw [if_pos hb, if_pos hb, hgap, if_neg fun h => Bool.false_ne_true h.2.2]
  · have hgap : isInlineGap lead = true ↔ lead ≠ [] := by
      rw [isInlineGap, eq_false_of_ne_true hb]
      cases lead <;> simp
    rw [if_neg hb, if_neg hb]
    simp only [hgap]

theorem spacedLead_of_hasBreak (style : Style) (head : Head) {lead : Text} (h : hasBreak lead) :
    style.spacedLead head lead = lead := by
  rw [Style.spacedLead, isInlineGap, h, if_neg]
  simp

theorem hasBreak_spacedLead (style : Style) (head : Head) (lead : Text) :
    hasBreak (style.spacedLead head lead) = hasBreak lead := by
  rw [Style.spacedLead]
  split
  · rename_i h
    have hi := h.2.2
    rw [isInlineGap, Bool.and_eq_true, Bool.not_eq_true', Bool.not_eq_true'] at hi
    exact hi.2.symm
  · rfl

theorem spacedLead_ne_nil (style : Style) (head : Head) {lead : Text} (h : lead ≠ []) :
    style.spacedLead head lead ≠ [] := by
  rw [Style.spacedLead]
  split
  · exact List.cons_ne_nil _ _
  · exact h

theorem Block.lead_relead (style : Style) (head : Head) (b : Block) :
    (b.relead (style.spacedLead head b.lead)).lead = style.spacedLead head b.lead := by
  cases b with
  | empty =>
    rw [Style.spacedLead, if_neg]
    · rfl
    · exact fun h => Bool.false_ne_true h.2.2
  | scalar => rfl
  | entries es => cases es <;> rfl

theorem singleGap_of_not_collection {n : Node Origin} (h : n.kind.isCollection = false) :
    singleGap n = n.withLead (if isInlineGap n.lead then [' '] else n.lead) := by
  cases n
  rw [singleGap, h, Bool.false_and, if_neg Bool.false_ne_true]
  split
  · rfl
  · rw [withLead_self]

theorem Entries.exists_trees_eq (es : Entries) : ∃ value : Block, ∃ ts, ∀ lead,
    (es.relead lead).trees = es.head.entry lead value.tree :: ts := by
  cases es with
  | last _ head value => exact ⟨value, [], fun lead => by rw [relead, trees]; rfl⟩
  | more _ head value others => exact ⟨value, others.trees, fun lead => by rw [relead, trees]; rfl⟩

theorem Entries.head_relead (lead : Text) (es : Entries) : (es.relead lead).head = es.head := by
  cases es <;> rfl

theorem Head.entry_with_lead (head : Head) (lead lead' : Text) (value : Tree) :
    { head.entry lead value with lead := lead' } = head.entry lead' value := by
  cases head <;> rfl

/-- A gap that stays on its line as one space. -/
def singleSpace (lead : Text) : Text :=
  if isInlineGap lead then [' '] else lead

theorem singleGap_scalar {lead text : Text} (hn : n.untagged = Head.scalarNode lead text) :
    (singleGap n).untagged = Head.scalarNode (singleSpace lead) text ∧ CopyOf (singleGap n) n := by
  have hparts := hn
  rw [untagged_eq, Head.scalarNode, Node.mk.injEq] at hparts
  obtain ⟨-, hk, hl, -, -⟩ := hparts
  rw [singleGap_of_not_collection (by rw [hk]; rfl), hl]
  refine ⟨?_, copyOf_withLead _ n⟩
  rw [untagged_withLead, hn]
  rfl

/-- The first entry of the tree of entries, and the tree with another lead there. -/
theorem exists_first_of_untagged {es : Entries} (hn : n.untagged = (Block.entries es).tree) :
    ∃ first others, n.children = first :: others ∧ n.kind = es.head.blockKind ∧ n.lead = [] ∧
      n.text = [] ∧ first.kind = es.head.entryKind ∧ first.lead = es.lead ∧
      ∀ lead, { first.untagged with lead := lead } :: untaggedAll others =
        (es.relead lead).trees := by
  obtain ⟨value, ts, htrees⟩ := es.exists_trees_eq
  have hes := htrees es.lead
  rw [es.relead_lead] at hes
  rw [untagged_eq, Block.tree, Node.mk.injEq, hes] at hn
  obtain ⟨-, hk, hl, ht, hc⟩ := hn
  obtain ⟨first, others, hchildren, hfirst, hothers⟩ := exists_of_untaggedAll_cons hc
  obtain ⟨hfk, hfl, -⟩ := untagged_entry hfirst
  refine ⟨first, others, hchildren, hk, hl, ht, hfk, hfl, fun lead => ?_⟩
  rw [hfirst, Head.entry_with_lead, hothers, htrees]

/-- The gap in front of entries becomes one space at the first of them. -/
theorem singleGap_entries {es : Entries} (hn : n.untagged = (Block.entries es).tree) :
    (singleGap n).untagged = (Block.entries (es.relead (singleSpace es.lead))).tree ∧
      CopyOf (singleGap n) n := by
  obtain ⟨first, others, hchildren, hk, hl, ht, hfk, hfl, htrees⟩ := exists_first_of_untagged hn
  have hleaf : first.kind.isCollection = false := by
    rw [hfk]
    cases es.head <;> rfl
  have hsingle : singleGap n = n.rebuild (first.withLead (singleSpace es.lead) :: others) := by
    obtain ⟨tag, kind, lead, text, children⟩ := n
    obtain rfl : children = first :: others := hchildren
    have hcoll : kind.isCollection = true := by
      obtain rfl : kind = es.head.blockKind := hk
      cases es.head <;> rfl
    rw [singleGap, hcoll, singleGapFirst, singleGap_of_not_collection hleaf, hfl]
    rfl
  have hcopies : CopiesOf (first.withLead (singleSpace es.lead) :: others) n.children := by
    rw [hchildren]
    exact ⟨copyOf_withLead _ first, .refl others⟩
  rw [hsingle]
  refine ⟨?_, copyOf_rebuild _ n⟩
  rw [untagged_rebuild hcopies, untaggedAll_cons, untagged_withLead, htrees, hk, hl, ht, Block.tree,
    Entries.head_relead]

/-- A gap behind a `-` becomes one space where the value is found. -/
theorem singleGap_block (b : Block) (hn : n.untagged = b.tree) :
    (singleGap n).untagged = (b.relead (singleSpace b.lead)).tree ∧ CopyOf (singleGap n) n := by
  cases b with
  | empty => exact singleGap_scalar hn
  | scalar lead text => exact singleGap_scalar hn
  | entries es => exact singleGap_entries hn

/-- A sequence entry gets the gap behind its `-`. -/
theorem exists_spaceItem (style : Style) {n m : Node Origin} (b : Block)
    (hc : n.children = [m]) (hm : m.untagged = b.tree) :
    ∃ spaced m', spaceItem style n = .ok spaced ∧ spaced.lead = n.lead ∧ spaced.kind = n.kind ∧
      spaced.text = n.text ∧ spaced.children = [m'] ∧
      m'.untagged = (b.relead (style.spacedLead .item b.lead)).tree ∧ CopyOf spaced n := by
  by_cases hs : style.singleGap = true
  · obtain ⟨hsingle, hcopy⟩ := singleGap_block b hm
    have hcopies : CopiesOf [singleGap m] n.children := by
      rw [hc]
      exact ⟨hcopy, trivial⟩
    obtain ⟨hk, hl, ht⟩ := rebuild_parts [singleGap m] n
    refine ⟨n.rebuild [singleGap m], singleGap m, ?_, hl, hk, ht, children_rebuild hcopies, ?_,
      copyOf_rebuild _ n⟩
    · rw [spaceItem, if_pos hs, hc]
      exact withChildren_eq_rebuild (by rw [hc]; rfl)
    · have hlead : style.spacedLead .item b.lead = singleSpace b.lead := by
        rw [Style.spacedLead, singleSpace]
        simp only [hs, true_and]
      rw [hsingle, hlead]
  · have hlead : style.spacedLead .item b.lead = b.lead := by
      rw [Style.spacedLead, if_neg fun h => hs h.2.1]
    refine ⟨n, m, ?_, rfl, rfl, rfl, hc, ?_, .refl n⟩
    · rw [spaceItem, if_neg hs]
      rfl
    · rw [hlead, b.relead_lead, hm]

theorem firstContentLead_eq {n m : Node Origin} (hc : n.children = [m]) :
    firstContentLead n = ((m :: preorderAll m.children).find? fun m =>
      !m.isCollection && m.kind != .sequenceEntry).elim [] (·.lead) := by
  obtain ⟨tag, kind, lead, text, children⟩ := n
  obtain rfl : children = [m] := hc
  obtain ⟨tag', kind', lead', text', children'⟩ := m
  rw [firstContentLead, preorder, preorderAll, preorderAll, preorder, List.append_nil]
  rfl

/-- The gap behind a `-` is the lead of its value. -/
theorem gapAfterItem_eq {n m : Node Origin} (b : Block) (hc : n.children = [m])
    (hm : m.untagged = b.tree) : gapAfterItem n = b.lead := by
  have hcontent := firstContentLead_eq hc
  cases b with
  | empty | scalar =>
    rw [untagged_eq, Block.tree, Head.scalarNode, Node.mk.injEq] at hm
    obtain ⟨tag, kind, lead, text, children⟩ := m
    obtain ⟨-, rfl, rfl, -, -⟩ := hm
    rw [gapAfterItem, hc]
    exact hcontent
  | entries es =>
    obtain ⟨first, others, hchildren, hk, -, -, hfk, hl, -⟩ := exists_first_of_untagged hm
    obtain ⟨tag, kind, lead, text, children⟩ := m
    obtain rfl : children = first :: others := hchildren
    obtain rfl : kind = es.head.blockKind := hk
    obtain ⟨ftag, fkind, flead, ftext, fchildren⟩ := first
    obtain rfl : flead = es.lead := hl
    rw [gapAfterItem, hc]
    cases hh : es.head with
    | item => rfl
    | key text indicator =>
      rw [hh] at hcontent hfk
      obtain rfl : fkind = .mappingEntry := hfk
      rw [preorderAll, preorder] at hcontent
      exact hcontent

end YamlIndent
