import YamlIndent.Proofs.Tree.Offset

/-!
# Trees piece by piece

A tree is printed piece by piece: a lead and the token behind it, again and again. A node is one
piece, but for the entry of a mapping, whose indicator is printed behind its key.

## Main definitions

* `Piece`: a lead and a text that a tree prints one behind the other.
* `joined`: the text of some pieces.
* `Node.pieces`: the pieces of a tree, in the order in which it prints them.

## Main results

* `Node.joined_pieces`: a tree prints as the text of its pieces.
* `Block.joined_pieces`, `Document.joined_pieces`: so is some syntax written.
-/

namespace YamlIndent

/-- A lead and a text that a tree prints one behind the other, and the kind of the node they are
of. -/
structure Piece where
  kind : Kind
  lead : Text
  text : Text
  deriving DecidableEq, Repr

/-- The text of some pieces. -/
def joined (ps : List Piece) : Text :=
  ps.flatMap fun p => p.lead ++ p.text

theorem joined_cons (p : Piece) (ps : List Piece) :
    joined (p :: ps) = p.lead ++ (p.text ++ joined ps) := by
  rw [joined, List.flatMap_cons, List.append_assoc, joined]

theorem joined_append (ps qs : List Piece) : joined (ps ++ qs) = joined ps ++ joined qs :=
  List.flatMap_append

namespace Node

variable {α : Type}

mutual

/-- The pieces of a tree, in the order in which it prints them. -/
def pieces : Node α → List Piece
  | ⟨_, .mappingEntry, lead, text, key :: others⟩ =>
    ⟨.mappingEntry, lead, []⟩ :: (key.pieces ++ ⟨.mappingEntry, [], text⟩ :: piecesAll others)
  | ⟨_, kind, lead, text, children⟩ => ⟨kind, lead, text⟩ :: piecesAll children

/-- The pieces of some trees in turn. -/
def piecesAll : List (Node α) → List Piece
  | [] => []
  | n :: ns => n.pieces ++ piecesAll ns

end

theorem pieces_of_ne_mappingEntry {tag : α} {kind : Kind} (hk : kind ≠ .mappingEntry)
    (lead text : Text) (children : List (Node α)) :
    (⟨tag, kind, lead, text, children⟩ : Node α).pieces =
      ⟨kind, lead, text⟩ :: piecesAll children := by
  cases kind with
  | mappingEntry => exact absurd rfl hk
  | _ => rw [pieces]; simp

theorem piecesAll_append (ns ms : List (Node α)) :
    piecesAll (ns ++ ms) = piecesAll ns ++ piecesAll ms := by
  induction ns with
  | nil => rfl
  | cons n ns ih => rw [List.cons_append, piecesAll, piecesAll, ih, List.append_assoc]

mutual

/-- A tree prints as the text of its pieces. -/
theorem joined_pieces {t : Text} : (n : Node α) → n.print = .ok t → joined n.pieces = t
  | ⟨tag, kind, lead, text, children⟩, h => by
    by_cases hk : kind = .mappingEntry
    · obtain ⟨key, value, s, s', rfl, hs, hs', rfl⟩ := exists_of_print_mappingEntry hk h
      cases hk
      rw [pieces, piecesAll, piecesAll, joined_cons, joined_append, joined_pieces key hs,
        joined_cons, joined_append, joined_pieces value hs']
      simp [joined]
    · obtain ⟨inner, hinner, rfl⟩ := exists_of_print hk h
      rw [pieces_of_ne_mappingEntry hk, joined_cons, joined_piecesAll children hinner,
        List.append_assoc]

theorem joined_piecesAll {t : Text} :
    (ns : List (Node α)) → printAll ns = .ok t → joined (piecesAll ns) = t
  | [], h => by
    cases h
    rfl
  | n :: ns, h => by
    obtain ⟨s, s', hs, hs', rfl⟩ := exists_of_printAll_cons h
    rw [piecesAll, joined_append, joined_pieces n hs, joined_piecesAll ns hs']

end

end Node

open Node

/-! ### Pieces of syntax -/

/-- The pieces of the head of an entry, which is behind a lead. -/
def Head.pieces (lead : Text) : Head → List Piece
  | item => [⟨.sequenceEntry, lead, ['-']⟩]
  | key text indicator =>
    [⟨.mappingEntry, lead, []⟩, ⟨.scalar, [], text⟩, ⟨.mappingEntry, [], indicator⟩]

theorem Head.pieces_entry (lead : Text) (value : Tree) (head : Head) :
    (head.entry lead value).pieces = head.pieces lead ++ value.pieces := by
  cases head with
  | item =>
    rw [entry, pieces_of_ne_mappingEntry Kind.noConfusion, piecesAll, piecesAll, List.append_nil]
    rfl
  | key text indicator =>
    rw [entry, Node.pieces, scalarNode, pieces_of_ne_mappingEntry Kind.noConfusion, piecesAll,
      piecesAll, piecesAll, List.append_nil]
    rfl

theorem pieces_scalarNode (lead text : Text) :
    (Head.scalarNode lead text).pieces = [⟨.scalar, lead, text⟩] := by
  rw [Head.scalarNode, pieces_of_ne_mappingEntry Kind.noConfusion, piecesAll]

theorem Block.pieces_entries (es : Entries) :
    (entries es).tree.pieces = ⟨es.head.blockKind, [], []⟩ :: piecesAll es.trees := by
  rw [tree, pieces_of_ne_mappingEntry]
  cases es.head <;> exact Kind.noConfusion

theorem Block.joined_pieces (b : Block) : joined b.tree.pieces = b.written :=
  b.tree.joined_pieces b.print_tree

theorem Block.joined_children (b : Block) : joined (piecesAll b.children) = b.written :=
  joined_piecesAll b.children b.printAll_children

theorem Entries.joined_pieces (es : Entries) : joined (piecesAll es.trees) = es.written :=
  joined_piecesAll es.trees es.printAll_trees

theorem Document.pieces_tree (d : Document) :
    d.tree.pieces = ⟨.document, d.lead, d.mark⟩ ::
      (piecesAll d.block.children ++ [⟨.documentEnd, d.endLead, d.endText⟩]) := by
  rw [tree, pieces_of_ne_mappingEntry Kind.noConfusion, piecesAll_append, piecesAll,
    pieces_of_ne_mappingEntry Kind.noConfusion]
  rfl

theorem Document.joined_pieces (d : Document) : joined d.tree.pieces = d.written :=
  d.tree.joined_pieces d.print_tree

theorem joined_documents (ds : List Document) :
    joined (piecesAll (ds.map Document.tree)) = writtenAll ds := by
  induction ds with
  | nil => rfl
  | cons d ds ih => rw [List.map_cons, piecesAll, joined_append, d.joined_pieces, ih, writtenAll]

theorem pieces_streamTree (ds : List Document) :
    (streamTree ds).pieces = ⟨.stream, [], []⟩ :: piecesAll (ds.map Document.tree) := by
  rw [streamTree, pieces_of_ne_mappingEntry Kind.noConfusion]

end YamlIndent
