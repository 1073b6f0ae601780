import YamlIndent.Proofs.Layout.Basic

/-!
# Trees without their leads

What a document says is in the kinds and texts of its nodes. To lay a document out keeps them, and
together with the text they leave no choice of leads: the tokens stand in the text in one way only.

## Main definitions

* `Node.bare`: a tree without its leads.

## Main results

* `Node.eq_of_leads_eq`: a bare tree and leads make one tree.
* `Block.bare_layout`, `Block.bareAll_children_layoutTop`: layout keeps the bare tree.
* `Block.eq_of_bare_eq`: a block is determined by its bare tree and its text.
-/

namespace YamlIndent

namespace Node

variable {α : Type}

mutual

/-- The tree without its leads, and without tags. -/
def bare : Node α → Tree
  | ⟨_, kind, _, text, children⟩ => ⟨(), kind, [], text, bareAll children⟩

/-- Trees without their leads. -/
def bareAll : List (Node α) → List Tree
  | [] => []
  | n :: ns => n.bare :: bareAll ns

end

theorem bareAll_append (ns ms : List (Node α)) :
    bareAll (ns ++ ms) = bareAll ns ++ bareAll ms := by
  induction ns with
  | nil => rfl
  | cons n ns ih => rw [List.cons_append, bareAll, bareAll, ih, List.cons_append]

mutual

theorem size_bare : (n : Node α) → n.bare.size = n.size
  | ⟨_, _, _, _, children⟩ => by rw [bare, size, size, sizeAll_bareAll children]

theorem sizeAll_bareAll : (ns : List (Node α)) → sizeAll (bareAll ns) = sizeAll ns
  | [] => rfl
  | n :: ns => by rw [bareAll, sizeAll, sizeAll, size_bare n, sizeAll_bareAll ns]

end

mutual

theorem bare_mapTag {β : Type} (f : α → β) : (n : Node α) → (n.mapTag f).bare = n.bare
  | ⟨_, _, _, _, children⟩ => by rw [mapTag, bare, bare, bareAll_mapTagAll f children]

theorem bareAll_mapTagAll {β : Type} (f : α → β) :
    (ns : List (Node α)) → bareAll (mapTagAll f ns) = bareAll ns
  | [] => rfl
  | n :: ns => by rw [mapTagAll, bareAll, bareAll, bare_mapTag f n, bareAll_mapTagAll f ns]

end

mutual

/-- A bare tree and the leads of its nodes make the tree. -/
theorem eq_of_leads_eq : (t u : Tree) → t.bare = u.bare →
    t.preorder.map (·.lead) = u.preorder.map (·.lead) → t = u
  | ⟨_, _, _, _, ts⟩, ⟨_, _, _, _, us⟩, hb, hl => by
    rw [bare, bare, Node.mk.injEq] at hb
    rw [preorder, preorder, List.map_cons, List.map_cons, List.cons.injEq] at hl
    obtain ⟨-, rfl, -, rfl, hbare⟩ := hb
    obtain ⟨rfl, hleads⟩ := hl
    rw [eq_of_leadsAll_eq ts us hbare hleads]

theorem eq_of_leadsAll_eq : (ts us : List Tree) → bareAll ts = bareAll us →
    (preorderAll ts).map (·.lead) = (preorderAll us).map (·.lead) → ts = us
  | [], [], _, _ => rfl
  | [], _ :: _, hb, _ => by cases hb
  | _ :: _, [], hb, _ => by cases hb
  | t :: ts, u :: us, hb, hl => by
    rw [bareAll, bareAll, List.cons.injEq] at hb
    have hsize : t.size = u.size := by rw [← size_bare t, hb.1, size_bare]
    rw [preorderAll, preorderAll, List.map_append, List.map_append] at hl
    obtain ⟨hfirst, hothers⟩ := List.append_inj hl (by
      rw [List.length_map, List.length_map, length_preorder, length_preorder, hsize])
    rw [eq_of_leads_eq t u hb.1 hfirst, eq_of_leadsAll_eq ts us hb.2 hothers]

end

end Node

open Node

variable {style : Style} {column : Nat} {head head' : Head} {lead lead' after after' : Text}

theorem Head.bare_entry (lead : Text) (value : Tree) (head : Head) :
    (head.entry lead value).bare = head.entry [] value.bare := by
  cases head <;> rfl

/-- Entries that are alike but for leads have one head, and values that are alike. -/
theorem Head.eq_of_bare_entry_eq {value value' : Tree}
    (h : (head.entry lead value).bare = (head'.entry lead' value').bare) :
    head = head' ∧ value.bare = value'.bare := by
  rw [bare_entry, bare_entry] at h
  cases head with
  | item =>
    cases head' with
    | item =>
      simp only [entry, Node.mk.injEq, List.cons.injEq] at h
      exact ⟨rfl, h.2.2.2.2.1⟩
    | key => exact absurd (congrArg Node.kind h) Kind.noConfusion
  | key =>
    cases head' with
    | item => exact absurd (congrArg Node.kind h) Kind.noConfusion
    | key =>
      simp only [entry, Head.scalarNode, Node.mk.injEq, List.cons.injEq] at h
      obtain ⟨-, -, -, rfl, ⟨-, -, -, rfl, -⟩, hv, -⟩ := h
      exact ⟨rfl, hv⟩

mutual

/-- Layout keeps the bare tree of a value. -/
theorem Block.bare_layout {style : Style} {head : Head} {column : Nat} : (b : Block) →
    (b.layout style head column).tree.bare = b.tree.bare
  | .empty => rfl
  | .scalar _ _ => rfl
  | .entries es => by
    rw [Block.layout, Block.tree, Block.tree, bare, bare, Entries.head_layout,
      Entries.bareAll_layout es]

/-- Layout keeps the bare trees of entries. -/
theorem Entries.bareAll_layout {style : Style} {column : Nat} {lead : Text} : (es : Entries) →
    bareAll (es.layout style column lead).trees = bareAll es.trees
  | .last _ head value => by
    simp only [Entries.layout, Entries.trees, bareAll, Head.bare_entry, Block.bare_layout value]
  | .more _ head value others => by
    simp only [Entries.layout, Entries.trees, bareAll, Head.bare_entry, Block.bare_layout value,
      Entries.bareAll_layout others]

end

theorem Entries.bareAll_layoutTop : (es : Entries) →
    bareAll (es.layoutTop style column).trees = bareAll es.trees
  | .last _ head value => by
    simp only [layoutTop, trees, bareAll, Head.bare_entry, Block.bare_layout value]
  | .more _ head value others => by
    simp only [layoutTop, trees, bareAll, Head.bare_entry, Block.bare_layout value,
      others.bareAll_layout]

/-- Layout keeps the bare tree of the block of a document. -/
theorem Block.bareAll_children_layoutTop (b : Block) :
    bareAll (b.layoutTop style column).children = bareAll b.children := by
  cases b with
  | empty => rfl
  | scalar => rfl
  | entries es =>
    simp only [layoutTop, children, tree, bareAll, bare, Entries.head_layoutTop,
      Entries.bareAll_layoutTop]

/-! ### One text, one syntax -/

/-- A head in front of a text, and its lead, are where they are for that text. -/
theorem Head.eq_of_spelledAt {rest rest' : Text} (h : head.SpelledAt lead rest)
    (h' : head.SpelledAt lead' rest')
    (he : lead ++ (head.source ++ rest) = lead' ++ (head.source ++ rest')) :
    lead = lead' ∧ rest = rest' := by
  obtain ⟨hlead, hrest⟩ := h.1.1.unique h'.1.1 he
  exact ⟨hlead, List.append_cancel_left hrest⟩

mutual

/-- A block is determined by its bare tree and the text that it begins. -/
theorem Block.eq_of_bare_eq {after after' : Text} : (b b' : Block) → b.Spelled after →
    b'.Spelled after' → b.tree.bare = b'.tree.bare →
    b.written ++ after = b'.written ++ after' → b = b' ∧ after = after'
  | .empty, .empty, _, _, _, he => ⟨rfl, he⟩
  | .empty, .scalar _ _, _, hs', hb, _ => absurd (congrArg Node.text hb).symm hs'.1
  | .scalar _ _, .empty, hs, _, hb, _ => absurd (congrArg Node.text hb) hs.1
  | .empty, .entries es, _, _, hb, _ =>
    absurd (congrArg Node.kind hb).symm (blockKind_ne_scalar es.head)
  | .scalar _ _, .entries es, _, _, hb, _ =>
    absurd (congrArg Node.kind hb).symm (blockKind_ne_scalar es.head)
  | .entries es, .empty, _, _, hb, _ => absurd (congrArg Node.kind hb) (blockKind_ne_scalar es.head)
  | .entries es, .scalar _ _, _, _, hb, _ =>
    absurd (congrArg Node.kind hb) (blockKind_ne_scalar es.head)
  | .scalar lead text, .scalar lead' text', hs, hs', hb, he => by
    obtain rfl : text = text' := congrArg Node.text hb
    rw [Block.Spelled] at hs hs'
    rw [Block.written, Block.written, List.append_assoc, List.append_assoc] at he
    obtain ⟨rfl, hrest⟩ := hs.2.1.1.unique hs'.2.1.1 he
    exact ⟨rfl, List.append_cancel_left hrest⟩
  | .entries es, .entries es', hs, hs', hb, he => by
    rw [Block.tree, Block.tree, bare, bare, Node.mk.injEq] at hb
    obtain ⟨rfl, hafter⟩ := Entries.eq_of_bareAll_eq es es' hs hs' hb.2.2.2.2 he
    exact ⟨rfl, hafter⟩

/-- Entries are determined by their bare trees and the text that they begin. -/
theorem Entries.eq_of_bareAll_eq {after after' : Text} : (es es' : Entries) → es.Spelled after →
    es'.Spelled after' → bareAll es.trees = bareAll es'.trees →
    es.written ++ after = es'.written ++ after' → es = es' ∧ after = after'
  | .last lead head value, .last lead' head' value', hs, hs', hb, he => by
    simp only [Entries.trees, bareAll, List.cons.injEq] at hb
    obtain ⟨rfl, hv⟩ := Head.eq_of_bare_entry_eq hb.1
    rw [Entries.Spelled] at hs hs'
    simp only [Entries.written, List.append_assoc] at he
    obtain ⟨rfl, hrest⟩ := Head.eq_of_spelledAt hs.1 hs'.1 he
    obtain ⟨rfl, hafter⟩ := Block.eq_of_bare_eq value value' hs.2.2 hs'.2.2 hv hrest
    exact ⟨rfl, hafter⟩
  | .more lead head value others, .more lead' head' value' others', hs, hs', hb, he => by
    simp only [Entries.trees, bareAll, List.cons.injEq] at hb
    obtain ⟨rfl, hv⟩ := Head.eq_of_bare_entry_eq hb.1
    rw [Entries.Spelled] at hs hs'
    simp only [Entries.written, List.append_assoc] at he
    obtain ⟨rfl, hrest⟩ := Head.eq_of_spelledAt hs.1 hs'.1 he
    obtain ⟨rfl, hothers⟩ := Block.eq_of_bare_eq value value' hs.2.2.1 hs'.2.2.1 hv hrest
    obtain ⟨rfl, hafter⟩ := Entries.eq_of_bareAll_eq others others' hs.2.2.2 hs'.2.2.2 hb.2 hothers
    exact ⟨rfl, hafter⟩
  | .last .., .more _ _ _ (.last ..), _, _, hb, _ => by cases congrArg List.length hb
  | .last .., .more _ _ _ (.more ..), _, _, hb, _ => by cases congrArg List.length hb
  | .more _ _ _ (.last ..), .last .., _, _, hb, _ => by cases congrArg List.length hb
  | .more _ _ _ (.more ..), .last .., _, _, hb, _ => by cases congrArg List.length hb

end

end YamlIndent
