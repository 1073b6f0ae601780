import Mathlib.Data.List.Nodup
import YamlIndent.Proofs.Formatting
import YamlIndent.Proofs.Pass.Stopping

/-!
# Stopping after a node

A pass that is to stop after a node is a splice of the full pass and of the tree that it is given:
the one up to a place that is not before the end of the node, and the other from there on. Other
documents are those of the full pass. The place is the end of the node, and nothing behind the node
is touched, unless the gap in front of the node was spaced ahead: then the pass comes to a copy of
the node, does not know it again, and goes on to the end of the document.

## Main definitions

* `SpliceAfter`: a document that is a splice at a place not before another.

## Main results

* `exists_follows`: over each document a pass with a stop follows the full pass.
* `reindent_stop_splices`: a stopped pass is a splice of the full pass and the tree.
* `reindent_stop_iff`: what stands behind the node stays just if the node was not spaced ahead.
-/

namespace YamlIndent

open Node

variable {style : Style} {x k : Nat} {trail : List (Frame Int)} {n : Node Origin}

/-! ### Documents as nodes -/

theorem regular_of_kind {α : Type} {n : Node α} (hd : n.kind ≠ .document)
    (hi : n.kind ≠ .sequenceEntry) : n.Regular :=
  ⟨hd, fun h => absurd h hi⟩

theorem regular_entry (lead : Text) (head : Head) (value : Tree)
    (h : ∀ m ∈ value.preorder, m.Regular) :
    ∀ m ∈ (head.entry lead value).preorder, m.Regular := by
  cases head with
  | item =>
    rw [Head.entry, preorder, preorderAll, preorderAll, List.append_nil]
    exact List.forall_mem_cons.2 ⟨⟨Kind.noConfusion, fun _ => ⟨value, rfl⟩⟩, h⟩
  | key text indicator =>
    rw [Head.entry, preorder, preorderAll, preorderAll, preorderAll, List.append_nil,
      Head.scalarNode, preorder, preorderAll]
    exact List.forall_mem_cons.2 ⟨regular_of_kind Kind.noConfusion Kind.noConfusion,
      List.forall_mem_cons.2 ⟨regular_of_kind Kind.noConfusion Kind.noConfusion, h⟩⟩

mutual

theorem Block.regular : (b : Block) → ∀ m ∈ b.tree.preorder, m.Regular
  | .empty | .scalar .. =>
    List.forall_mem_singleton.2 (regular_of_kind Kind.noConfusion Kind.noConfusion)
  | .entries es => by
    rw [Block.tree, preorder]
    refine List.forall_mem_cons.2 ⟨?_, Entries.regular es⟩
    cases es.head <;> exact regular_of_kind Kind.noConfusion Kind.noConfusion

theorem Entries.regular : (es : Entries) → ∀ m ∈ preorderAll es.trees, m.Regular
  | .last lead head value => by
    rw [Entries.trees, preorderAll, preorderAll, List.append_nil]
    exact regular_entry lead head value.tree (Block.regular value)
  | .more lead head value others => by
    rw [Entries.trees, preorderAll]
    exact List.forall_mem_append.2
      ⟨regular_entry lead head value.tree (Block.regular value), Entries.regular others⟩

end

theorem Document.regular (d : Document) : ∀ m ∈ preorderAll d.tree.children, m.Regular := by
  rw [tree, preorderAll_append]
  refine List.forall_mem_append.2 ⟨?_, List.forall_mem_singleton.2
    (regular_of_kind Kind.noConfusion Kind.noConfusion)⟩
  cases d.block with
  | empty => exact fun _ hm => absurd hm List.not_mem_nil
  | scalar lead text => exact (Block.scalar lead text).regular
  | entries es =>
    rw [Block.children, preorderAll, preorderAll, List.append_nil]
    exact (Block.entries es).regular

theorem regular_of_untagged (h : n.untagged.Regular) : n.Regular := by
  rw [untagged_eq] at h
  refine ⟨h.1, fun hk => ?_⟩
  obtain ⟨value, hvalue⟩ := h.2 hk
  obtain ⟨m, ms, hc, -, hnil⟩ := exists_of_untaggedAll_cons hvalue
  rw [eq_nil_of_untaggedAll hnil] at hc
  exact ⟨m, hc⟩

/-- A node that a pass is given for a document. -/
structure DocumentNode (d : Node Origin) : Prop where
  original : d.Original
  nodup : d.preorder.Nodup
  kind_eq : d.kind = .document
  regular : ∀ m ∈ preorderAll d.children, m.Regular

theorem Node.OriginalAll.of_mem : {ns : List (Node Origin)} → OriginalAll ns → n ∈ ns → n.Original
  | [], _, h => absurd h List.not_mem_nil
  | m :: ns, ho, h => by
    rw [OriginalAll] at ho
    rcases List.mem_cons.1 h with rfl | h
    · exact ho.1
    · exact OriginalAll.of_mem ho.2 h

theorem untaggedAll_eq_map (ns : List (Node Origin)) : untaggedAll ns = ns.map untagged := by
  induction ns with
  | nil => rfl
  | cons n ns ih => rw [untaggedAll_cons, ih, List.map_cons]

/-- The documents of a stream, as a pass is given them. -/
theorem documentNode_of_mem {ds : List Document} {d : Node Origin}
    (hd : d ∈ (streamTree ds).tagged.children) : DocumentNode d := by
  have hun : untaggedAll (streamTree ds).tagged.children = ds.map Document.tree :=
    congrArg children ((untagged_eq _).symm.trans (untagged_tagged (streamTree ds)))
  have hmem : d.untagged ∈ untaggedAll (streamTree ds).tagged.children := by
    rw [untaggedAll_eq_map]
    exact List.mem_map_of_mem hd
  rw [hun] at hmem
  obtain ⟨document, -, hdoc⟩ := List.mem_map.1 hmem
  have hparts := hdoc
  rw [untagged_eq] at hparts
  refine ⟨(original_tagged (streamTree ds)).children.of_mem hd, nodup_preorder_of_mem_tagged hd, ?_,
    fun m hm => ?_⟩
  · exact (congrArg kind hparts).symm
  · apply regular_of_untagged
    apply document.regular
    have hchildren : document.tree.children = untaggedAll d.children := congrArg children hparts
    rw [hchildren, untaggedAll, preorderAll_mapTagAll]
    exact List.mem_map_of_mem hm

/-! ### Streams -/

/-- Over a document a pass with a stop follows the full pass. -/
def FollowsDocument (style : Style) (x : Nat) (d g r : Node Origin) : Prop :=
  ∃ s, (s = false → r = g) ∧
    Follows x (SpacedAhead style d.preorder) d.preorder g.preorder r.preorder s

/-- A pass with a stop goes on from one document to the next. -/
theorem exists_visitAll_documents : (ds : List (Node Origin)) → (∀ d ∈ ds, DocumentNode d) →
    ∀ carry f, visitAll style none trail carry ds = .ok f → ∃ v,
      visitAll style (some x) trail carry ds = .ok v ∧ ∀ (i : Nat) d, ds[i]? = some d → ∃ r g,
        v.nodes[i]? = some r ∧ f.nodes[i]? = some g ∧ FollowsDocument style x d g r
  | [], _ => by
    intro carry f _
    refine ⟨⟨[], false, []⟩, ?_, by simp⟩
    rw [visitAll]
    rfl
  | d :: ds, h => by
    obtain ⟨hd, hds⟩ := List.forall_mem_cons.1 h
    intro carry f hf
    obtain ⟨first, -, hfirst, -⟩ := exists_of_visitAll_cons hf
    obtain ⟨first', hfirst', hfull, hcarry, s, hstop, hsame, hfollows⟩ :=
      d.halts hd.original hd.nodup (fun hk => by simp [hd.kind_eq] at hk) hd.regular false trail
        carry first hfirst
    have hgo : first'.stopped = false := by simp [hstop, hd.kind_eq]
    rw [visitAll_of_not_stopped hfirst hfull ds] at hf
    obtain ⟨rest, hrest, rfl⟩ := exists_of_map_eq_ok hf
    obtain ⟨rest', hrest', hall⟩ := exists_visitAll_documents ds hds _ _ hrest
    have hv := visitAll_of_not_stopped hfirst' hgo ds
    rw [hcarry, hrest'] at hv
    refine ⟨_, hv, fun i d' hi => ?_⟩
    cases i with
    | zero =>
      obtain rfl : d = d' := by simpa using hi
      refine ⟨first'.node, first.node, rfl, rfl, s, hsame, hfollows.congr fun y _ => ?_⟩
      simp [Missed]
    | succ i => exact hall i d' (by simpa using hi)

variable {source : Text} {t : Tree} {y d g r : Node Origin} {i j p : Nat}

/-- Two nodes of a tree that a pass is given are one if they have one tag. -/
theorem eq_of_tag_eq (hx : n ∈ t.tagged.preorder) (hy : y ∈ t.tagged.preorder)
    (h : n.tag = y.tag) : n = y :=
  List.inj_on_of_nodup_map t.nodup_tags_tagged hx hy h

/-- Where a tree has a node of its own at two places, these are one. -/
theorem eq_of_getElem?_eq (hn : n.preorder.Nodup) (hi : n.preorder[i]? = some y)
    (hj : n.preorder[j]? = some y) : i = j := by
  obtain ⟨hi, hyi⟩ := List.getElem?_eq_some_iff.1 hi
  obtain ⟨hj, hyj⟩ := List.getElem?_eq_some_iff.1 hj
  exact (hn.getElem_inj_iff).1 (hyi.trans hyj.symm)

/-- Two trees are one from a place in preorder on: they have the same nodes there. -/
def SameFrom (p : Nat) (r d : Node Origin) : Prop :=
  r.preorder.drop p = d.preorder.drop p

/-- From its end on a tree is any tree of its size. -/
theorem sameFrom_size (h : r.size = d.size) : SameFrom d.size r d := by
  have hr : r.preorder.length ≤ d.size := by simp [length_preorder, h]
  have hd : d.preorder.length ≤ d.size := by simp [length_preorder]
  rw [SameFrom, List.drop_eq_nil_of_le hr, List.drop_eq_nil_of_le hd]

/-- A document is a splice of one that the full pass gives and of one that the pass was given, at a
place not before another: up to it there are the leads of the one, and from there on the nodes of
the other. -/
def SpliceAfter (q : Nat) (d g r : Node Origin) : Prop :=
  r.size = d.size ∧ g.size = d.size ∧ ∃ p, q ≤ p ∧ p ≤ d.size ∧
    (r.preorder.take p).map (·.lead) = (g.preorder.take p).map (·.lead) ∧ SameFrom p r d

/-- A document without the node that the pass is to stop after is that of the full pass. -/
theorem FollowsDocument.eq_of_not_mem (h : FollowsDocument style x d g r)
    (hd : ∀ y ∈ d.preorder, y.tag ≠ some x) : r = g := by
  obtain ⟨s, hsame, hfollows⟩ := h
  cases s with
  | false => exact hsame rfl
  | true =>
    obtain ⟨i, y, hy, ht, -⟩ := hfollows.stops rfl
    exact absurd ht (hd y (List.mem_of_getElem? hy))

/-- A document with the node that the pass is to stop after is that of the full pass, if the node is
spaced ahead, and else it is cut behind the node. -/
theorem FollowsDocument.cases (h : FollowsDocument style x d g r) (hd : d.preorder.Nodup)
    (hu : ∀ z ∈ d.preorder, z.tag = some x → z = y) (hy : d.preorder[j]? = some y)
    (ht : y.tag = some x) :
    (SpacedAhead style d.preorder y ∧ r = g ∧ g.size = d.size) ∨
      (¬ SpacedAhead style d.preorder y ∧ g.size = d.size ∧
        CutAt (j + y.size) d.preorder g.preorder r.preorder) := by
  obtain ⟨s, hsame, hfollows⟩ := h
  have hsize : g.size = d.size := by
    simpa only [length_preorder] using hfollows.length_eq
  cases s with
  | false =>
    exact .inl ⟨(hfollows.goesOn rfl).2 y (List.mem_of_getElem? hy) ht, hsame rfl, hsize⟩
  | true =>
    obtain ⟨i, z, hz, hzt, hnot, hcut⟩ := hfollows.stops rfl
    obtain rfl := hu z (List.mem_of_getElem? hz) hzt
    obtain rfl := eq_of_getElem?_eq hd hz hy
    exact .inr ⟨hnot, hsize, hcut⟩

/-- A pass over the tree of a source that is to stop after a node of it follows the full pass over
each document. -/
theorem exists_follows (style : Style) (h : parse source = .ok t) (x : Nat) :
    ∃ v f, reindent style t.tagged (some x) = .ok v ∧ reindent style t.tagged = .ok f ∧
      v.node.children.length = t.tagged.children.length ∧
      f.node.children.length = t.tagged.children.length ∧
      ∀ (i : Nat) d, t.tagged.children[i]? = some d → ∃ r g, v.node.children[i]? = some r ∧
        f.node.children[i]? = some g ∧ FollowsDocument style x d g r := by
  obtain ⟨ds, hds, rfl⟩ := parse_eq_ok_iff.1 h
  obtain ⟨f, hf, -⟩ := reindent_streamTree style hds.laid
  obtain ⟨placed, inner, hp, hinner, hfp⟩ := placed_of_visit hf
  have hkind : (streamTree ds).tagged.kind = .stream :=
    congrArg kind ((untagged_eq _).symm.trans (untagged_tagged (streamTree ds)))
  have hchildren : placed.node.children = (streamTree ds).tagged.children := by
    have hitem : (streamTree ds).tagged.kind ≠ .sequenceEntry := by simp [hkind]
    rw [children_of_placeNode (b := false) (fun hk => absurd hk hitem) hp, spacesFirst,
      if_neg hitem]
    rfl
  have hfnode : f.node.children = inner.nodes := by
    rw [hfp.node_eq, children_rebuild (copiesOf_visitAll hinner)]
  obtain ⟨inner', hinner', hall⟩ := exists_visitAll_documents (x := x) placed.node.children
    (fun d hd => documentNode_of_mem (hchildren ▸ hd)) _ _ hinner
  obtain ⟨v, hv, hvp⟩ := visit_of_placed hp hinner'
  have hvnode : v.node.children = inner'.nodes := by
    rw [hvp.node_eq, children_rebuild (copiesOf_visitAll hinner')]
  refine ⟨v, f, hv, hf, ?_, ?_, fun i d hd => ?_⟩
  · rw [hvnode, ← hchildren, (copiesOf_visitAll hinner').length_eq]
  · rw [hfnode, ← hchildren, (copiesOf_visitAll hinner).length_eq]
  · rw [hvnode, hfnode]
    exact hall i d (hchildren ▸ hd)

/-! ### Nodes to stop after -/

theorem exists_tag_eq (hn : n ∈ t.tagged.preorder) : ∃ x, n.tag = some x := by
  rw [tagged, preorder_mapTag] at hn
  obtain ⟨m, -, rfl⟩ := List.mem_map.1 hn
  exact ⟨m.tag, tag_mapTag some m⟩

theorem preorder_subset_of_getElem? (hd : t.tagged.children[i]? = some d) :
    d.preorder ⊆ t.tagged.preorder :=
  (preorder_sublist_of_mem_children (List.mem_of_getElem? hd)).subset

/-- The document of a node that the pass is to stop after is that of the full pass if the node was
spaced ahead, and else it is cut behind the node. -/
theorem FollowsDocument.cases_of_tagged (h : FollowsDocument style x d g r)
    (hd : t.tagged.children[i]? = some d) (hn : d.preorder[j]? = some n) (ht : n.tag = some x) :
    (SpacedAhead style d.preorder n ∧ r = g ∧ g.size = d.size) ∨
      (¬ SpacedAhead style d.preorder n ∧ g.size = d.size ∧
        CutAt (j + n.size) d.preorder g.preorder r.preorder) := by
  have hsub := preorder_subset_of_getElem? hd
  refine h.cases (nodup_preorder_of_mem_tagged (List.mem_of_getElem? hd)) (fun z hz hzt => ?_) hn ht
  exact eq_of_tag_eq (hsub hz) (hsub (List.mem_of_getElem? hn)) (hzt.trans ht.symm)

/-- A pass that is to stop after a node gives other documents as the full pass does, and the
document of the node as a splice of what the full pass gives and what it was given, at a place that
is not before the end of the node. -/
theorem reindent_stop_splices (style : Style) (h : parse source = .ok t)
    (hn : n ∈ t.tagged.preorder) :
    ∃ v f, reindent style t.tagged n.tag = .ok v ∧ reindent style t.tagged = .ok f ∧
      v.node.children.length = t.tagged.children.length ∧
      f.node.children.length = t.tagged.children.length ∧
      ∀ (i : Nat) d, t.tagged.children[i]? = some d → ∃ r g, v.node.children[i]? = some r ∧
        f.node.children[i]? = some g ∧ (n ∉ d.preorder → r = g) ∧
        ∀ j, d.preorder[j]? = some n → SpliceAfter (j + n.size) d g r := by
  obtain ⟨x, hx⟩ := exists_tag_eq hn
  obtain ⟨v, f, hv, hf, hvl, hfl, hall⟩ := exists_follows style h x
  rw [hx]
  refine ⟨v, f, hv, hf, hvl, hfl, fun i d hd => ?_⟩
  obtain ⟨r, g, hr, hg, hfollows⟩ := hall i d hd
  refine ⟨r, g, hr, hg, fun hnot => ?_, fun j hj => ?_⟩
  · refine hfollows.eq_of_not_mem fun y hy hyt => hnot ?_
    rw [← eq_of_tag_eq (preorder_subset_of_getElem? hd hy) hn (hyt.trans hx.symm)]
    exact hy
  · rcases hfollows.cases_of_tagged hd hj hx with ⟨-, rfl, hsize⟩ | ⟨-, hsize, hcut⟩
    · -- The pass did not stop: the place is the end of the document.
      exact ⟨hsize, hsize, d.size, add_size_le_of_preorder d hj, Nat.le_refl _, rfl,
        sameFrom_size hsize⟩
    · obtain ⟨hp, hlength, hdrop, htake⟩ := hcut.take_drop
      simp only [length_preorder] at hp hlength
      exact ⟨hlength, hsize, _, Nat.le_refl _, hp, htake, hdrop⟩

/-- A stop at a scalar that is spaced ahead, and another document. -/
theorem reindent_stop_splices_wide :
    ∃ t n v f, parse "a:\n    -   b\n    - c\n---\n- - d\n".toList = .ok t ∧
      t.tagged.preorder[7]? = some n ∧ reindent .standard t.tagged n.tag = .ok v ∧
      reindent .standard t.tagged = .ok f ∧
      v.node.children.length = t.tagged.children.length ∧
      f.node.children.length = t.tagged.children.length ∧
      ∀ (i : Nat) d, t.tagged.children[i]? = some d → ∃ r g, v.node.children[i]? = some r ∧
        f.node.children[i]? = some g ∧ (n ∉ d.preorder → r = g) ∧
        ∀ j, d.preorder[j]? = some n → SpliceAfter (j + n.size) d g r := by
  have h : (parse "a:\n    -   b\n    - c\n---\n- - d\n".toList).toOption.any fun t =>
      t.tagged.preorder[7]?.isSome := by decide +kernel
  obtain ⟨t, hsome, hn⟩ := (Option.any_eq_true _ _).1 h
  obtain ⟨n, hn⟩ := Option.isSome_iff_exists.1 hn
  have ht := eq_ok_of_toOption hsome
  obtain ⟨v, f, hv, hf, hvl, hfl, hall⟩ :=
    reindent_stop_splices .standard ht (List.mem_of_getElem? hn)
  exact ⟨t, n, v, f, ht, hn, hv, hf, hvl, hfl, hall⟩

/-- What stands behind the node that a pass is to stop after is what the pass was given just if the
node is not spaced ahead, or the full pass leaves it as well. -/
theorem reindent_stop_iff (style : Style) (h : parse source = .ok t)
    (hd : t.tagged.children[i]? = some d) (hn : d.preorder[j]? = some n) :
    ∃ v f r g, reindent style t.tagged n.tag = .ok v ∧ reindent style t.tagged = .ok f ∧
      v.node.children[i]? = some r ∧ f.node.children[i]? = some g ∧
      (SameFrom (j + n.size) r d ↔
        ¬ SpacedAhead style d.preorder n ∨ SameFrom (j + n.size) g d) := by
  obtain ⟨x, hx⟩ := exists_tag_eq (preorder_subset_of_getElem? hd (List.mem_of_getElem? hn))
  obtain ⟨v, f, hv, hf, -, -, hall⟩ := exists_follows style h x
  obtain ⟨r, g, hr, hg, hfollows⟩ := hall i d hd
  rw [hx]
  refine ⟨v, f, r, g, hv, hf, hr, hg, ?_⟩
  rcases hfollows.cases_of_tagged hd hn hx with ⟨hahead, rfl, -⟩ | ⟨hahead, -, hcut⟩
  · simp [hahead]
  · have hsame : SameFrom (j + n.size) r d := hcut.take_drop.2.2.1
    simp [hahead, hsame]

/-- A stop at the value of a key that stands behind a loose gap; the value is not spaced ahead. -/
theorem reindent_stop_iff_item :
    ∃ t d n v f r g, parse "-   a:  1\n    b:  2\n-   c\n".toList = .ok t ∧
      t.tagged.children[0]? = some d ∧ d.preorder[6]? = some n ∧
      reindent .standard t.tagged n.tag = .ok v ∧ reindent .standard t.tagged = .ok f ∧
      v.node.children[0]? = some r ∧ f.node.children[0]? = some g ∧
      (SameFrom (6 + n.size) r d ↔
        ¬ SpacedAhead .standard d.preorder n ∨ SameFrom (6 + n.size) g d) := by
  have h : (parse "-   a:  1\n    b:  2\n-   c\n".toList).toOption.any fun t =>
      t.tagged.children[0]?.any fun d => d.preorder[6]?.isSome := by decide +kernel
  obtain ⟨t, hsome, hd⟩ := (Option.any_eq_true _ _).1 h
  obtain ⟨d, hd, hn⟩ := (Option.any_eq_true _ _).1 hd
  obtain ⟨n, hn⟩ := Option.isSome_iff_exists.1 hn
  have ht := eq_ok_of_toOption hsome
  obtain ⟨v, f, r, g, hv, hf, hr, hg, hiff⟩ := reindent_stop_iff .standard ht hd hn
  exact ⟨t, d, n, v, f, r, g, ht, hd, hn, hv, hf, hr, hg, hiff⟩

/-- A scalar that a `-` spaces ahead is not stopped after: the gap behind the next `-` changes. -/
theorem reindent_stop_fails :
    ∃ t d n v r, parse "-   a\n-   b\n".toList = .ok t ∧ t.tagged.children[0]? = some d ∧
      d.preorder[3]? = some n ∧ reindent .standard t.tagged n.tag = .ok v ∧
      v.node.children[0]? = some r ∧ ¬ SameFrom (3 + n.size) r d := by
  have h : (parse "-   a\n-   b\n".toList).toOption.any fun t =>
      t.tagged.children[0]?.any fun d => d.preorder[3]?.any fun n =>
        (reindent .standard t.tagged n.tag).toOption.any fun v =>
          v.node.children[0]?.any fun r => (r.preorder.drop (3 + n.size)).map (·.lead) !=
            (d.preorder.drop (3 + n.size)).map (·.lead) := by decide +kernel
  obtain ⟨t, ht, h⟩ := (Option.any_eq_true _ _).1 h
  obtain ⟨d, hd, h⟩ := (Option.any_eq_true _ _).1 h
  obtain ⟨n, hn, h⟩ := (Option.any_eq_true _ _).1 h
  obtain ⟨v, hv, h⟩ := (Option.any_eq_true _ _).1 h
  obtain ⟨r, hr, h⟩ := (Option.any_eq_true _ _).1 h
  refine ⟨t, d, n, v, r, eq_ok_of_toOption ht, hd, hn, eq_ok_of_toOption hv, hr, fun hsame => ?_⟩
  exact bne_iff_ne.1 h (congrArg (List.map (·.lead)) hsame)

end YamlIndent
