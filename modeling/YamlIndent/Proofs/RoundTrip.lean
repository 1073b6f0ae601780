import YamlIndent.Proofs.Source.Documents

/-!
# Printing what was read

The tree of a source has every character of it: in a lead or in a text, once, and in order.

## Main results

* `Block.print_tree`, `Document.print_tree`, `print_streamTree`: the tree of some syntax prints as
  its text.
* `print_of_parse`: the tree of a source prints as the source.
-/

namespace YamlIndent

open Node

theorem print_scalarNode (lead text : Text) :
    (Head.scalarNode lead text).print = .ok (lead ++ text) := by
  rw [Head.scalarNode, print, printAll]
  · exact congrArg Except.ok (List.append_nil _)
  · exact Kind.noConfusion

/-- An entry prints as its lead, its head and its value. -/
theorem Head.print_entry {value : Tree} {text : Text} (lead : Text) (head : Head)
    (h : value.print = .ok text) :
    (head.entry lead value).print = .ok (lead ++ (head.source ++ text)) := by
  cases head with
  | item =>
    rw [entry, print, printAll, printAll, h]
    · exact congrArg Except.ok (by rw [List.append_nil, List.append_assoc, source])
    · exact Kind.noConfusion
  | key key indicator =>
    rw [entry, print, h, print_scalarNode]
    exact congrArg Except.ok (by rw [List.nil_append, source]; simp only [List.append_assoc])

mutual

/-- The tree of a block prints as its text. -/
theorem Block.print_tree : (b : Block) → b.tree.print = .ok b.written
  | .empty => print_scalarNode [] []
  | .scalar lead text => print_scalarNode lead text
  | .entries es => by
    have hes := Entries.printAll_trees es
    rw [Block.tree, Block.written, print, hes]
    · rfl
    · cases es.head <;> exact Kind.noConfusion

/-- The trees of entries print as their text. -/
theorem Entries.printAll_trees : (es : Entries) → printAll es.trees = .ok es.written
  | .last lead head value => by
    have h := Head.print_entry lead head (Block.print_tree value)
    rw [Entries.trees, Entries.written, printAll, printAll, h]
    exact congrArg Except.ok (List.append_nil _)
  | .more lead head value others => by
    have h := Head.print_entry lead head (Block.print_tree value)
    rw [Entries.trees, Entries.written, printAll, h, Entries.printAll_trees others]
    exact congrArg Except.ok (by simp only [List.append_assoc])

end

theorem Block.printAll_children (b : Block) : printAll b.children = .ok b.written := by
  cases b with
  | empty => rfl
  | scalar lead text =>
    rw [children, printAll, print_tree, printAll]
    exact congrArg Except.ok (List.append_nil _)
  | entries es =>
    rw [children, printAll, print_tree, printAll]
    exact congrArg Except.ok (List.append_nil _)

theorem printAll_append {α : Type} {ns ms : List (Node α)} {s t : Text}
    (hn : printAll ns = .ok s) (hm : printAll ms = .ok t) : printAll (ns ++ ms) = .ok (s ++ t) := by
  induction ns generalizing s with
  | nil =>
    cases hn
    exact hm
  | cons n ns ih =>
    rw [printAll] at hn
    obtain ⟨a, ha, hn⟩ := exists_of_bind_eq_ok hn
    obtain ⟨b, hb, hn⟩ := exists_of_bind_eq_ok hn
    cases hn
    rw [List.cons_append, printAll, ha, ih hb]
    exact congrArg Except.ok (List.append_assoc _ _ _).symm

/-- The tree of a document prints as its text. -/
theorem Document.print_tree (d : Document) : d.tree.print = .ok d.written := by
  have hend : printAll [(⟨(), .documentEnd, d.endLead, d.endText, []⟩ : Tree)] =
      .ok (d.endLead ++ d.endText) := by
    rw [printAll, print, printAll]
    · exact congrArg Except.ok (by rw [List.append_nil, List.append_nil])
    · exact Kind.noConfusion
  rw [tree, print, printAll_append d.block.printAll_children hend]
  · exact congrArg Except.ok (by rw [written, List.append_assoc])
  · exact Kind.noConfusion

/-- The tree of a stream prints as the text of its documents. -/
theorem print_streamTree (ds : List Document) : (streamTree ds).print = .ok (writtenAll ds) := by
  have h : printAll (ds.map Document.tree) = .ok (writtenAll ds) := by
    induction ds with
    | nil => rfl
    | cons d ds ih =>
      rw [List.map_cons, printAll, d.print_tree, ih]
      rfl
  rw [streamTree, print, h]
  · rfl
  · exact Kind.noConfusion

/-- Whatever source a tree was read from, the tree prints as that source. -/
theorem print_of_parse {source : Text} {t : Tree} (h : parse source = .ok t) :
    t.print = .ok source := by
  obtain ⟨ds, hds, rfl⟩ := parse_eq_ok_iff.1 h
  rw [← hds.written_eq]
  exact print_streamTree ds

/-- A source with two documents, comments, blanks in front of a colon and an empty value. -/
theorem print_of_parse_documents :
    ∃ t, parse "# c\na :\n- - 'b' # d\n- e:\r\n... \n--- \"f\"\n".toList = .ok t ∧
      t.print = .ok "# c\na :\n- - 'b' # d\n- e:\r\n... \n--- \"f\"\n".toList := by
  have h : (parse "# c\na :\n- - 'b' # d\n- e:\r\n... \n--- \"f\"\n".toList).isOk := by
    decide +kernel
  obtain ⟨t, ht⟩ := exists_eq_ok_of_isOk h
  exact ⟨t, ht, print_of_parse ht⟩

end YamlIndent
