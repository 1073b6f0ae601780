import Mathlib.Data.List.Forall2
import YamlIndent.Proofs.Formatting
import YamlIndent.Proofs.Pass.Stopping

/-!
# Copies of what changed

The pass goes through any tree, whatever kinds of node stand where and whatever their leads and
texts are, and gives a tree of the same shape. A node of the result is the node that was given at
its place, just as it was, if all leads of it and below it stayed, and else a copy. Only a sequence
entry with more than one child is in the way, where the gap behind its `-` is to be one space: it is
refused, or loses what follows its first child.

## Main definitions

* `Node.Tracks`: a node of the result next to the node that was given at its place.
* `Node.Slim`: no sequence entry has more than one child.

## Main results

* `exists_placeNode`: in a slim tree every node finds its place.
* `Node.exists_visit`: a node is visited without fail, and what comes of it tracks it.
* `reindent_tracks`: so it is for a whole pass, with any stop and below any nodes.
-/

namespace YamlIndent

open Node

variable {style : Style} {stop : Option Nat} {trail : List (Frame Int)} {carry : Option Int}
  {b : Bool} {m n : Node Origin} {ms ns ms' ns' : List (Node Origin)}

/-! ### A node next to the one it was made of -/

/-- What a pass made of a node: a node of its kind with its text and as many children, which is the
very node that was given, and then just as it was, if and only if all leads stayed. -/
structure Node.Tracks (m n : Node Origin) : Prop where
  kind_eq : m.kind = n.kind
  text_eq : m.text = n.text
  length_eq : m.children.length = n.children.length
  /-- It is the node as it was given, or a copy. -/
  copy : m = n ∨ m.tag = none
  same_iff : m.tag = n.tag ↔ m.preorder.map (·.lead) = n.preorder.map (·.lead)

/-- What a pass made of some nodes: trees of the same shapes, and at each place a node that tracks
the given one. -/
structure Node.TracksAll (ms ns : List (Node Origin)) : Prop where
  bareAll_eq : bareAll ms = bareAll ns
  nodes : List.Forall₂ Tracks (preorderAll ms) (preorderAll ns)

theorem length_bareAll {α : Type} (ns : List (Node α)) : (bareAll ns).length = ns.length := by
  induction ns with
  | nil => rfl
  | cons n ns ih => rw [bareAll, List.length_cons, List.length_cons, ih]

/-- Nodes of one shape read alike if and only if their leads are those of one another. -/
theorem untagged_eq_iff_leads (h : m.bare = n.bare) :
    m.untagged = n.untagged ↔ m.preorder.map (·.lead) = n.preorder.map (·.lead) := by
  rw [← leads_mapTag (fun _ => ()) m, ← leads_mapTag (fun _ => ()) n]
  constructor
  · intro he
    exact congrArg (fun t : Tree => t.preorder.map (·.lead)) he
  · intro hl
    refine eq_of_leads_eq _ _ ?_ hl
    rw [untagged, untagged, bare_mapTag, bare_mapTag, h]

namespace Node.TracksAll

theorem nil : TracksAll [] [] :=
  ⟨rfl, .nil⟩

theorem append (h : TracksAll ms ns) (h' : TracksAll ms' ns') :
    TracksAll (ms ++ ms') (ns ++ ns') where
  bareAll_eq := by rw [bareAll_append, bareAll_append, h.bareAll_eq, h'.bareAll_eq]
  nodes := by
    rw [preorderAll_append, preorderAll_append]
    exact List.rel_append h.nodes h'.nodes

/-- A node over children that track others tracks another, if it is a copy that is no copy without
need. -/
theorem node (ho : n.Original) (hk : m.kind = n.kind) (ht : m.text = n.text) (hc : CopyOf m n)
    (hsame : m.untagged = n.untagged → m = n) (h : TracksAll m.children n.children) :
    TracksAll [m] [n] := by
  have hbare : m.bare = n.bare := by
    cases m
    cases n
    rw [bare, bare, h.bareAll_eq]
    simp_all
  have htag : m.tag = n.tag → m = n := fun he => hc (he ▸ ho.isSome_tag)
  have hroot : m.Tracks n := by
    refine ⟨hk, ht, ?_, ?_, ?_⟩
    · rw [← length_bareAll, h.bareAll_eq, length_bareAll]
    · cases hm : m.tag with
      | none => exact .inr rfl
      | some i => exact .inl (hc (by rw [hm]; rfl))
    · rw [← untagged_eq_iff_leads hbare]
      exact ⟨fun he => congrArg untagged (htag he), fun he => congrArg tag (hsame he)⟩
  refine ⟨by rw [bareAll, bareAll, hbare, bareAll, bareAll], ?_⟩
  simp only [preorderAll, List.append_nil, preorder_eq m, preorder_eq n]
  exact .cons hroot h.nodes

end Node.TracksAll

mutual

/-- A node that the pass leaves tracks itself. -/
theorem Node.tracks_self : (n : Node Origin) → n.Original → TracksAll [n] [n]
  | ⟨_, _, _, _, children⟩, ho =>
    .node ho rfl rfl (.refl _) (fun _ => rfl) (tracksAll_self children ho.children)

theorem Node.tracksAll_self : (ns : List (Node Origin)) → OriginalAll ns → TracksAll ns ns
  | [], _ => .nil
  | n :: ns, ho => by
    rw [OriginalAll] at ho
    exact .append (tracks_self n ho.1) (tracksAll_self ns ho.2)

end

/-! ### Trees without wide entries -/

/-- If the style asks for one space behind a `-`, no sequence entry has more than one child. -/
def Node.Slim {α : Type} (style : Style) (n : Node α) : Prop :=
  style.singleGap → n.kind = .sequenceEntry → n.children.length ≤ 1

instance {α : Type} (n : Node α) : Decidable (n.Slim style) :=
  inferInstanceAs (Decidable (_ → _ → _))

theorem exists_spaceItem_of_slim (h : style.singleGap → n.children.length ≤ 1) :
    ∃ m, spaceItem style n = .ok m := by
  rw [spaceItem]
  by_cases hs : style.singleGap = true
  · rw [if_pos hs]
    have hlength := h hs
    rcases hn : n.children with _ | ⟨value, _ | ⟨second, rest⟩⟩
    · exact ⟨n, rfl⟩
    · exact ⟨_, withChildren_eq_rebuild (by rw [hn]; rfl)⟩
    · simp [hn] at hlength
  · rw [if_neg hs]
    exact ⟨n, rfl⟩

/-- In a slim tree every node finds its place. -/
theorem exists_placeNode (style : Style) (trail : List (Frame Int)) (carry : Option Int)
    (h : n.Slim style) : ∃ placed, placeNode style trail carry n = .ok placed := by
  rw [placeNode, placeWith]
  cases hk : n.kind
  case sequenceEntry =>
    have hchildren :=
      (moves_startItem style trail ((basis trail).indent Int.ofNat) carry n).children_eq
    obtain ⟨spaced, hspaced⟩ := exists_spaceItem_of_slim fun hs => by
      rw [hchildren]
      exact h hs hk
    simp only [placeItem, hspaced]
    exact ⟨_, rfl⟩
  all_goals exact ⟨_, rfl⟩

theorem children_length_spacedIf (b : Bool) (n : Node Origin) :
    (n.spacedIf b).children.length = n.children.length := by
  cases b
  · rfl
  · rw [spacedIf, if_pos rfl]
    rcases singleGap_cases n with ⟨-, h⟩ | h | h
    · have hcopies := copiesOf_singleGapFirst n.children
      rw [h, children_rebuild hcopies, hcopies.length_eq]
    · rw [h, (withLead_parts _ n).2.2.2]
    · rw [h]

theorem Node.Slim.spacedIf (h : n.Slim style) (b : Bool) : (n.spacedIf b).Slim style := by
  rw [Slim, kind_spacedIf, children_length_spacedIf]
  exact h

/-! ### Going through a tree -/

theorem Moves.text_eq (h : Moves n m) : m.text = n.text := by
  obtain ⟨lead, -, rfl⟩ := h
  exact (withLead_parts lead n).2.2.1

theorem Moves.kind_eq (h : Moves n m) : m.kind = n.kind := by
  obtain ⟨lead, -, rfl⟩ := h
  exact (withLead_parts lead n).1

theorem text_spacedIf (b : Bool) (n : Node Origin) : (n.spacedIf b).text = n.text := by
  cases b
  · rfl
  · rw [spacedIf, if_pos rfl]
    rcases singleGap_cases n with ⟨-, h⟩ | h | h <;> rw [h]
    · exact (rebuild_parts _ n).2.2
    · exact (withLead_parts _ n).2.2.1

/-- A node in place is of its kind and has its text. -/
theorem parts_of_placeNode {placed : Placed} (h : placeNode style trail carry n = .ok placed) :
    placed.node.kind = n.kind ∧ placed.node.text = n.text := by
  obtain ⟨m, hm, rfl | ⟨-, hs⟩⟩ := exists_of_placeNode h
  · exact ⟨hm.kind_eq, hm.text_eq⟩
  · rcases spaceItem_cases hs with he | ⟨value, others, -, he, -⟩
    · rw [he]
      exact ⟨hm.kind_eq, hm.text_eq⟩
    · obtain ⟨hk, -, ht⟩ := rebuild_parts [singleGap value] m
      rw [he, hk, ht]
      exact ⟨hm.kind_eq, hm.text_eq⟩

theorem copyOf_spacedIf (b : Bool) (n : Node Origin) : CopyOf (n.spacedIf b) n := by
  cases b
  · exact .refl n
  · exact copyOf_singleGap n

/-- What the pass makes of a node, spaced ahead or not, is the node if it reads like it. -/
theorem Node.Original.eq_of_untagged {v : Visited} (ho : n.Original)
    (h : visit style stop trail carry (n.spacedIf b) = .ok v)
    (hu : v.node.untagged = n.untagged) : v.node = n := by
  obtain ⟨hself, hspaced⟩ := n.givesBack style stop ho
  cases b
  · exact (hself _ _ _ h hu).2
  · exact (hspaced _ _ _ h hu).2

/-- A node is visited without fail if its children are, and what comes of it tracks it if that of
its children tracks them. -/
theorem exists_visit_of_children (ho : n.Original) (hs : n.Slim style)
    (h : ∀ trail, ∃ w, visitAll style stop trail none
      (spacedFirstIf (n.spacesFirst style b) n.children) = .ok w ∧ TracksAll w.nodes n.children)
    (trail : List (Frame Int)) (carry : Option Int) :
    ∃ v, visit style stop trail carry (n.spacedIf b) = .ok v ∧ TracksAll [v.node] [n] := by
  obtain ⟨placed, hplaced⟩ := exists_placeNode style trail carry (hs.spacedIf b)
  have hchildren := children_of_placeNode (fun hk hsingle => hs hsingle hk) hplaced
  obtain ⟨inner, hinner, htracks⟩ :=
    h (⟨(n.spacedIf b).kind, placed.node.lead, placed.indent⟩ :: trail)
  rw [← hchildren] at hinner
  obtain ⟨v, hv, hparts⟩ := visit_of_placed hplaced hinner
  obtain ⟨hkind, htext⟩ := parts_of_placeNode hplaced
  obtain ⟨hk, -, ht⟩ := rebuild_parts inner.nodes placed.node
  refine ⟨v, hv, .node ho ?_ ?_ ?_ (ho.eq_of_untagged hv) ?_⟩
  · rw [hparts.node_eq, hk, hkind, kind_spacedIf]
  · rw [hparts.node_eq, ht, htext, text_spacedIf]
  · exact (copyOf_visit hv).trans (copyOf_spacedIf b n)
  · rw [hparts.node_eq, children_rebuild (copiesOf_visitAll hinner)]
    exact htracks

mutual

/-- A node of a slim tree is visited without fail, also where it was spaced ahead, and what comes of
it tracks it. -/
theorem Node.exists_visit (style : Style) (stop : Option Nat) : (n : Node Origin) → n.Original →
    (∀ m ∈ n.preorder, m.Slim style) → ∀ b trail carry,
    ∃ v, visit style stop trail carry (n.spacedIf b) = .ok v ∧ TracksAll [v.node] [n]
  | ⟨_, _, _, _, children⟩, ho, hs => by
    rw [preorder, List.forall_mem_cons] at hs
    intro b
    exact exists_visit_of_children ho hs.1
      fun trail => exists_visitAll style stop children ho.children hs.2 _ trail none

/-- Nodes of slim trees are visited without fail, and what comes of them tracks them. -/
theorem Node.exists_visitAll (style : Style) (stop : Option Nat) : (ns : List (Node Origin)) →
    OriginalAll ns → (∀ m ∈ preorderAll ns, m.Slim style) → ∀ b trail carry,
    ∃ w, visitAll style stop trail carry (spacedFirstIf b ns) = .ok w ∧ TracksAll w.nodes ns
  | [], _, _ => by
    intro b trail carry
    refine ⟨⟨[], false, []⟩, ?_, .nil⟩
    cases b <;> rw [spacedFirstIf] <;> simp [singleGapFirst, visitAll, pure, Except.pure]
  | n :: ns, ho, hs => by
    rw [OriginalAll] at ho
    rw [preorderAll, List.forall_mem_append] at hs
    intro b trail carry
    obtain ⟨first, hfirst, htracks⟩ := exists_visit style stop n ho.1 hs.1 b trail carry
    rw [spacedFirstIf_cons]
    cases hstopped : first.stopped with
    | true =>
      -- What follows a stop is left, and nothing of it was spaced ahead.
      exact ⟨_, visitAll_of_stopped hfirst hstopped, htracks.append (tracksAll_self ns ho.2)⟩
    | false =>
      obtain ⟨others, hothers, hrest⟩ :=
        exists_visitAll style stop ns ho.2 hs.2 false trail first.carry
      have hall := visitAll_of_not_stopped hfirst hstopped ns
      rw [show visitAll style stop trail first.carry ns = .ok others from hothers] at hall
      exact ⟨_, hall, htracks.append hrest⟩

end

/-! ### A whole pass -/

/-- The pass over any slim tree, with any stop and below any nodes, gives a tree of the same shape,
in which each node is the one that was given at its place if and only if all leads of it and below
it stayed; it is then just as it was. -/
theorem reindent_tracks (style : Style) (stop : Option Nat) (ancestors : List (Node Origin))
    (ho : n.Original) (hs : ∀ m ∈ n.preorder, m.Slim style) :
    ∃ v, reindent style n stop ancestors = .ok v ∧
      List.Forall₂ Tracks v.node.preorder n.preorder := by
  obtain ⟨v, hv, htracks⟩ := n.exists_visit style stop ho hs false
    (ancestors.reverse.map fun a => ⟨a.kind, a.lead, none⟩) none
  refine ⟨v, hv, ?_⟩
  simpa only [preorderAll, List.append_nil] using htracks.nodes

/-- A sequence entry and a document below a scalar, a key without its parts behind a loose gap, a
stop at the collection that the gap is in front of, and a node above. -/
theorem reindent_tracks_mixed :
    let key : Tree := ⟨(), .mappingEntry, "   ".toList, [':'], []⟩
    let item : Tree := ⟨(), .sequenceEntry, "\n".toList, ['-'], [⟨(), .mapping, [], [], [key]⟩]⟩
    let last : Tree := ⟨(), .document, " # c\n  # d".toList, [], []⟩
    let t : Tree := ⟨(), .scalar, "\n # e\n".toList, ['x'], [item, last]⟩
    (∀ m ∈ t.tagged.preorder, m.Slim .standard) ∧
      ∃ v, reindent .standard t.tagged (some 2) [⟨some 7, .sequence, "\n    ".toList, [], []⟩] =
        .ok v ∧ List.Forall₂ Tracks v.node.preorder t.tagged.preorder := by
  intro key item last t
  have hslim : ∀ m ∈ t.tagged.preorder, m.Slim .standard := by decide
  exact ⟨hslim, reindent_tracks .standard _ _ t.original_tagged hslim⟩

/-- A sequence entry with two children is refused if the first has no gap in front of it, and loses
the second if the first is spaced. -/
theorem reindent_wide_fails :
    let wide (gap : Text) : Tree :=
      ⟨(), .sequenceEntry, [], ['-'], [Head.scalarNode gap ['a'], Head.scalarNode [] ['b']]⟩
    (reindent .standard (wide []).tagged).isOk = false ∧
      ∃ v, reindent .standard (wide [' ', ' ']).tagged = .ok v ∧ v.node.children.length = 1 := by
  intro wide
  have hlost : (reindent .standard (wide [' ', ' ']).tagged).toOption.any
      fun v => v.node.children.length == 1 := by decide +kernel
  obtain ⟨v, hv, hlength⟩ := (Option.any_eq_true _ _).1 hlost
  exact ⟨by decide +kernel, v, eq_ok_of_toOption hv, beq_iff_eq.1 hlength⟩

end YamlIndent
