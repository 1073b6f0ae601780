import YamlIndent.Proofs.Layout.Bare
import YamlIndent.Proofs.Layout.Lined
import YamlIndent.Proofs.Tree.Preorder

/-!
# Blocks at a column

A block may be laid out from a column of its own, without the entry that it is the value of. What
starts a line in it then says what the column was; so two columns give the same tree only if there
is no such line.

## Main definitions

* `Block.layoutAt`: a block behind a lead, laid out from a column.
* `Node.OnOneLine`: a tree in which nothing starts a line.

## Main results

* `Block.layoutAt_eq_iff`, `Entries.layout_moveTo_eq_iff`: two columns give the same tree just if
  they are one, or nothing starts a line.
-/

namespace YamlIndent

/-! ### Trees on one line -/

/-- No node of the tree starts a line. -/
def Node.OnOneLine {α : Type} (n : Node α) : Prop :=
  ∀ m ∈ n.preorder, hasBreak m.lead = false

/-- No node of the trees starts a line. -/
def Node.OnOneLineAll {α : Type} (ns : List (Node α)) : Prop :=
  ∀ m ∈ preorderAll ns, hasBreak m.lead = false

open Node

theorem onOneLineAll_cons {t : Tree} {ts : List Tree} :
    OnOneLineAll (t :: ts) ↔ t.OnOneLine ∧ OnOneLineAll ts := by
  simp only [OnOneLineAll, OnOneLine, preorderAll, List.mem_append, or_imp, forall_and]

theorem onOneLineAll_nil : OnOneLineAll ([] : List Tree) := by
  simp [OnOneLineAll, preorderAll]

theorem onOneLine_node {kind : Kind} {lead text : Text} {ts : List Tree} :
    OnOneLine ⟨(), kind, lead, text, ts⟩ ↔ hasBreak lead = false ∧ OnOneLineAll ts := by
  simp only [OnOneLine, OnOneLineAll, preorder, List.mem_cons, forall_eq_or_imp]

theorem onOneLine_scalarNode {lead text : Text} :
    (Head.scalarNode lead text).OnOneLine ↔ hasBreak lead = false := by
  simp [Head.scalarNode, onOneLine_node, onOneLineAll_nil]

theorem onOneLine_entry {head : Head} {lead : Text} {value : Tree} :
    (head.entry lead value).OnOneLine ↔ hasBreak lead = false ∧ value.OnOneLine := by
  cases head with
  | item => simp [Head.entry, onOneLine_node, onOneLineAll_cons, onOneLineAll_nil]
  | key text indicator =>
    have hkey : hasBreak [] = false := rfl
    simp [Head.entry, onOneLine_node, onOneLineAll_cons, onOneLineAll_nil, onOneLine_scalarNode,
      hkey]

theorem onOneLine_entries {es : Entries} :
    (Block.entries es).tree.OnOneLine ↔ OnOneLineAll es.trees := by
  have hnil : hasBreak [] = false := rfl
  simp [Block.tree, onOneLine_node, hnil]

theorem Entries.hasBreak_lead_of_onOneLine {es : Entries} (h : OnOneLineAll es.trees) :
    hasBreak es.lead = false := by
  obtain ⟨value, ts, htrees⟩ := es.exists_trees_cons
  rw [htrees, onOneLineAll_cons, onOneLine_entry] at h
  exact h.1.1

/-! ### On one line the column does not count -/

mutual

/-- A value on one line is laid out alike from all columns. -/
theorem Block.layout_of_onOneLine {style : Style} {head : Head} (c d : Nat) : (b : Block) →
    b.tree.OnOneLine → b.layout style head c = b.layout style head d
  | .empty, _ => rfl
  | .scalar lead text, h => by
    rw [Block.tree, onOneLine_scalarNode] at h
    rw [Block.layout, Block.layout, valueLead_of_not_hasBreak style head c d h]
  | .entries es, h => by
    rw [onOneLine_entries] at h
    have hlead := valueLead_of_not_hasBreak style head c d (Entries.hasBreak_lead_of_onOneLine h)
    simp only [Block.layout, hlead]
    exact congrArg Block.entries (Entries.layout_of_onOneLine _ _ es h)

/-- Entries on one line are laid out alike from all columns. -/
theorem Entries.layout_of_onOneLine {style : Style} {lead : Text} (c d : Nat) : (es : Entries) →
    OnOneLineAll es.trees → es.layout style c lead = es.layout style d lead
  | .last _ head value, h => by
    rw [Entries.trees, onOneLineAll_cons, onOneLine_entry] at h
    rw [Entries.layout, Entries.layout, Block.layout_of_onOneLine c d value h.1.2]
  | .more _ head value others, h => by
    rw [Entries.trees, onOneLineAll_cons, onOneLine_entry] at h
    have hlead := Entries.hasBreak_lead_of_onOneLine h.2
    rw [Entries.layout, Entries.layout, Block.layout_of_onOneLine c d value h.1.2,
      moveTo_of_not_hasBreak _ hlead, moveTo_of_not_hasBreak _ hlead,
      Entries.layout_of_onOneLine c d others h.2]

end

/-! ### A line says the column -/

theorem Head.entry_inj {head : Head} {lead lead' : Text} {value value' : Tree} :
    head.entry lead value = head.entry lead' value' ↔ lead = lead' ∧ value = value' := by
  cases head <;> simp [Head.entry]

theorem OnSpaces.moveTo_inj {lead : Text} (h : OnSpaces lead) (hb : hasBreak lead) {c d : Nat}
    (he : moveTo c lead = moveTo d lead) : c = d := by
  obtain ⟨k, hk⟩ := h hb
  have hc := hk.moveTo c
  rw [he] at hc
  exact hc.unique (hk.moveTo d)

theorem OnSpaces.valueLead_inj {style : Style} {head : Head} {lead : Text} (h : OnSpaces lead)
    (hb : hasBreak lead) {c d : Nat}
    (he : style.valueLead head c lead = style.valueLead head d lead) : c = d := by
  rw [Style.valueLead, Style.valueLead, if_pos hb, if_pos hb] at he
  have := h.moveTo_inj hb he
  omega

/-- Entries that are laid out alike from two leads are so from one lead. -/
theorem Entries.lead_eq_of_trees_eq {style : Style} {c d : Nat} {lead lead' : Text} (es : Entries)
    (h : (es.layout style c lead).trees = (es.layout style d lead').trees) : lead = lead' := by
  cases es <;> simp only [layout, trees, List.cons.injEq, Head.entry_inj] at h
  · exact h.1.1
  · exact h.1.1

mutual

/-- The column of a value that is laid out shows where something starts a line. -/
theorem Block.onOneLine_or_eq {style : Style} {head : Head} {c d : Nat} : (b : Block) →
    b.Lined head → (b.layout style head c).tree = (b.layout style head d).tree →
    b.tree.OnOneLine ∨ c = d
  | .empty, _, _ => .inl (onOneLine_scalarNode.2 rfl)
  | .scalar lead text, hl, he => by
    rw [Block.Lined] at hl
    rw [Block.tree, onOneLine_scalarNode]
    by_cases hb : hasBreak lead
    · rw [Block.layout, Block.layout, Block.tree, Block.tree, Head.scalarNode, Head.scalarNode,
        Node.mk.injEq] at he
      exact .inr (hl.valueLead_inj hb he.2.2.1)
    · exact .inl (eq_false_of_ne_true hb)
  | .entries es, hl, he => by
    rw [Block.Lined] at hl
    obtain ⟨hlead, -, k, hes⟩ := hl
    rw [Block.layout, Block.layout, Block.tree, Block.tree, Node.mk.injEq] at he
    rw [onOneLine_entries]
    by_cases hb : hasBreak es.lead
    · exact .inr (hlead.valueLead_inj hb (es.lead_eq_of_trees_eq he.2.2.2.2))
    · refine (Entries.onOneLine_or_eq es hes (eq_false_of_ne_true hb) he.2.2.2.2).imp_right ?_
      intro hc
      have hb' : hasBreak (style.valueLead head c es.lead) = false := by
        rw [hlead.hasBreak_valueLead, eq_false_of_ne_true hb]
      rw [valueLead_of_not_hasBreak style head d c (eq_false_of_ne_true hb)] at hc
      simp only [innerColumn, hb', Bool.false_eq_true, if_false] at hc
      omega

/-- The column of entries behind an unbroken lead shows where something starts a line. -/
theorem Entries.onOneLine_or_eq {style : Style} {c d k : Nat} {lead lead' : Text} :
    (es : Entries) → es.Lined k → hasBreak es.lead = false →
    (es.layout style c lead).trees = (es.layout style d lead').trees →
    OnOneLineAll es.trees ∨ c = d
  | .last _ head value, hl, hb, he => by
    rw [Entries.Lined] at hl
    rw [Entries.layout, Entries.layout, Entries.trees, Entries.trees, List.cons.injEq,
      Head.entry_inj] at he
    rw [Entries.trees, onOneLineAll_cons, onOneLine_entry]
    exact (Block.onOneLine_or_eq value hl he.1.2).imp_left fun h => ⟨⟨hb, h⟩, onOneLineAll_nil⟩
  | .more _ head value others, hl, _, he => by
    rw [Entries.Lined] at hl
    rw [Entries.layout, Entries.layout, Entries.trees, Entries.trees, List.cons.injEq] at he
    have hstands : OnSpaces others.lead := fun _ => ⟨k, hl.2.1⟩
    exact .inr (hstands.moveTo_inj hl.2.1.1 (others.lead_eq_of_trees_eq he.2))

end

/-! ### Layout from a column -/

variable {style : Style} {head : Head} {c d k : Nat}

/-- A block behind a lead, laid out from a column. -/
def Block.layoutAt (style : Style) (column : Nat) (lead : Text) : Block → Block
  | .empty => .empty
  | .scalar _ text => .scalar (moveTo column lead) text
  | .entries es => .entries (es.layout style column (moveTo column lead))

theorem Block.bare_layoutAt {lead : Text} (b : Block) :
    (b.layoutAt style c lead).tree.bare = b.tree.bare := by
  cases b with
  | empty | scalar => rfl
  | entries es => simp only [layoutAt, tree, bare, Entries.head_layout, Entries.bareAll_layout]

/-- Two columns give the same entries just if they are one, or nothing starts a line. -/
theorem Entries.layout_moveTo_eq_iff (style : Style) (es : Entries) (hl : es.Lined k)
    (hlead : OnSpaces es.lead) :
    (es.layout style c (moveTo c es.lead)).trees = (es.layout style d (moveTo d es.lead)).trees ↔
      OnOneLineAll es.trees ∨ c = d := by
  constructor
  · intro he
    by_cases hb : hasBreak es.lead
    · exact .inr (hlead.moveTo_inj hb (es.lead_eq_of_trees_eq he))
    · exact es.onOneLine_or_eq hl (eq_false_of_ne_true hb) he
  · rintro (h | rfl)
    · have hb := hasBreak_lead_of_onOneLine h
      rw [moveTo_of_not_hasBreak _ hb, moveTo_of_not_hasBreak _ hb, es.layout_of_onOneLine c d h]
    · rfl

/-- Two columns give the same block just if they are one, or nothing starts a line. -/
theorem Block.layoutAt_eq_iff (style : Style) (b : Block) (hl : b.Lined head) :
    (b.layoutAt style c b.lead).tree = (b.layoutAt style d b.lead).tree ↔
      b.tree.OnOneLine ∨ c = d := by
  cases b with
  | empty => exact iff_of_true rfl (.inl (onOneLine_scalarNode.2 rfl))
  | scalar lead text =>
    have htree (c : Nat) : ((scalar lead text).layoutAt style c (scalar lead text).lead).tree =
        Head.scalarNode (moveTo c lead) text := rfl
    rw [htree, htree, tree, onOneLine_scalarNode]
    by_cases hb : hasBreak lead
    · have hinj : moveTo c lead = moveTo d lead ↔ c = d :=
        ⟨OnSpaces.moveTo_inj hl hb, fun h => by rw [h]⟩
      simp [hb, hinj, Head.scalarNode]
    · simp [eq_false_of_ne_true hb, moveTo_of_not_hasBreak]
  | entries es =>
    obtain ⟨hlead, -, k, hes⟩ := hl
    rw [onOneLine_entries, ← es.layout_moveTo_eq_iff style hes hlead]
    simp [layoutAt, tree, Block.lead]

end YamlIndent
