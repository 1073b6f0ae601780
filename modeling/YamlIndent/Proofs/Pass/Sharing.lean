import YamlIndent.Proofs.Lead
import YamlIndent.Proofs.Source.Reading
import YamlIndent.Proofs.Tree.Copy
import YamlIndent.Reindent

/-!
# No copies but of what changes

The pass makes copies at three places: where a lead changes, where the gap behind a `-` is spaced
ahead of the nodes below, and where a child is another node than before. None of these copies a tree
that stays as it is. In particular a gap that was spaced ahead is not widened again below.

## Main definitions

* `Node.Original`: a tree of nodes that the pass was given.
* `GivesBack`: what the pass makes of a node is a given node, if it reads like it.

## Main results

* `copyOf_visit`: the pass makes of a node the node itself or a copy.
* `Node.givesBack`: a tree that reads as before is the tree that the pass was given.
* `reindent_eq_self`: so it is for a whole pass.
-/

namespace YamlIndent

open Node

variable {style : Style} {stop : Option Nat} {trail : List (Frame Int)} {carry : Option Int}
  {m n : Node Origin} {ms ns : List (Node Origin)}

/-! ### Nodes that the pass was given -/

mutual

/-- A tree of nodes that the pass was given, none of them a copy. -/
def Node.Original : Node Origin → Prop
  | ⟨tag, _, _, _, children⟩ => tag.isSome ∧ OriginalAll children

/-- Trees of nodes that the pass was given. -/
def Node.OriginalAll : List (Node Origin) → Prop
  | [] => True
  | n :: ns => n.Original ∧ OriginalAll ns

end

mutual

theorem original_mapTag_some {α : Type} (f : α → Nat) :
    (n : Node α) → (n.mapTag fun a => some (f a)).Original
  | ⟨_, _, _, _, children⟩ => ⟨rfl, originalAll_mapTagAll_some f children⟩

theorem originalAll_mapTagAll_some {α : Type} (f : α → Nat) :
    (ns : List (Node α)) → OriginalAll (mapTagAll (fun a => some (f a)) ns)
  | [] => trivial
  | n :: ns => ⟨original_mapTag_some f n, originalAll_mapTagAll_some f ns⟩

end

theorem Node.original_tagged {α : Type} (n : Node α) : n.tagged.Original :=
  original_mapTag_some id n.number

theorem Node.Original.isSome_tag (h : n.Original) : n.tag.isSome := by
  cases n
  rw [Original] at h
  exact h.1

theorem Node.Original.children (h : n.Original) : OriginalAll n.children := by
  cases n
  rw [Original] at h
  exact h.2

theorem sameItems_self : (ns : List (Node Origin)) → OriginalAll ns →
    sameItems Node.same ns ns = .ok true
  | [], _ => rfl
  | n :: ns, h => by
    rw [OriginalAll] at h
    have hsame : n.same n = true := by
      rw [Node.same, h.1.isSome_tag, beq_self_eq_true]
      rfl
    rw [sameItems, if_pos hsame, sameItems_self ns h.2]

/-- A node that gets the children it has is no copy. -/
theorem rebuild_self (h : OriginalAll n.children) : n.rebuild n.children = n := by
  rw [rebuild, sameItems_self n.children h]

/-! ### Steps of the pass -/

theorem copyOf_singleGap (n : Node Origin) : CopyOf (singleGap n) n := by
  obtain ⟨tag, kind, lead, text, children⟩ := n
  rw [singleGap]
  split
  · exact copyOf_rebuild _ _
  · split
    · exact copyOf_withLead _ _
    · exact .refl _

theorem copiesOf_singleGapFirst (ns : List (Node Origin)) : CopiesOf (singleGapFirst ns) ns := by
  cases ns with
  | nil => trivial
  | cons first others => exact ⟨copyOf_singleGap first, .refl others⟩

/-- Spacing a node ahead is spacing the first node below it, or the node itself. -/
theorem singleGap_cases (n : Node Origin) :
    (n.kind.isCollection = true ∧ singleGap n = n.rebuild (singleGapFirst n.children)) ∨
      singleGap n = n.withLead [' '] ∨ singleGap n = n := by
  obtain ⟨tag, kind, lead, text, children⟩ := n
  rw [singleGap]
  split
  · rename_i h
    exact .inl ⟨(Bool.and_eq_true_iff.1 h).1, rfl⟩
  · split
    · exact .inr (.inl rfl)
    · exact .inr (.inr rfl)

/-- A sequence entry is spaced by spacing its only child, unless it stays. -/
theorem spaceItem_cases (h : spaceItem style n = .ok m) :
    m = n ∨ ∃ value others, n.children = value :: others ∧ m = n.rebuild [singleGap value] ∧
      m.children = [singleGap value] := by
  rw [spaceItem] at h
  split at h
  · split at h
    · cases h
      exact .inl rfl
    · rename_i value others hc
      rw [withChildren] at h
      obtain ⟨same, hsame, h⟩ := exists_of_bind_eq_ok h
      cases same with
      | true =>
        cases h
        exact .inl rfl
      | false =>
        cases h
        refine .inr ⟨value, others, hc, ?_, rfl⟩
        rw [rebuild, hsame]
  · cases h
    exact .inl rfl

theorem lead_of_spaceItem (h : spaceItem style n = .ok m) : m.lead = n.lead := by
  rcases spaceItem_cases h with rfl | ⟨value, others, -, rfl, -⟩
  · rfl
  · exact (rebuild_parts _ n).2.1

theorem copyOf_spaceItem (h : spaceItem style n = .ok m) : CopyOf m n := by
  rcases spaceItem_cases h with rfl | ⟨value, others, -, rfl, -⟩
  · exact .refl _
  · exact copyOf_rebuild _ n

/-- A node with its lead moved. One space that stays on its line is not moved. -/
def Moves (n m : Node Origin) : Prop :=
  ∃ lead, (n.lead = [' '] → lead = [' ']) ∧ m = n.withLead lead

theorem Moves.refl (n : Node Origin) : Moves n n :=
  ⟨n.lead, id, (withLead_self n).symm⟩

theorem moves_realign (column : Int) (n : Node Origin) :
    Moves n (n.withLead (realign column n.lead)) :=
  ⟨_, fun h => by rw [h, realign_of_not_hasBreak column rfl], rfl⟩

theorem moves_realignDocument (n : Node Origin) :
    Moves n (n.withLead (realignDocument 0 n.lead)) :=
  ⟨_, fun h => by rw [h]; decide, rfl⟩

theorem moves_moveTo (column : Int) (n : Node Origin) :
    Moves n (n.withLead (moveTo column n.lead)) :=
  ⟨_, fun h => by rw [h]; rfl, rfl⟩

theorem moves_placeOther (style : Style) (trail : List (Frame Int)) (indent : Int)
    (n : Node Origin) : Moves n (placeOther style trail indent n) := by
  rw [placeOther]
  split
  · exact .refl n
  · split
    · exact moves_realign _ n
    · exact moves_moveTo _ n

theorem moves_placePair (style : Style) (trail : List (Frame Int)) (indent : Int)
    (n : Node Origin) : Moves n (placePair style trail indent n).1 := by
  simp only [placePair]
  split
  · split
    · exact moves_realign _ n
    · exact moves_moveTo _ n
  · split
    · exact .refl n
    · split
      · exact .refl n
      · exact moves_realign _ n

theorem moves_startItem (style : Style) (trail : List (Frame Int)) (indent : Int)
    (carry : Option Int) (n : Node Origin) :
    Moves n (startItem style trail indent carry n).1 := by
  simp only [startItem]
  split
  · split
    · exact moves_realign _ n
    · exact moves_moveTo _ n
  · exact .refl n

/-- To place a node is to move its lead, and to space it if it is a sequence entry. -/
theorem exists_of_placeNode {placed : Placed} (h : placeNode style trail carry n = .ok placed) :
    ∃ m, Moves n m ∧
      (placed.node = m ∨ n.kind = .sequenceEntry ∧ spaceItem style m = .ok placed.node) := by
  rw [placeNode, placeWith] at h
  cases hk : n.kind <;> rw [hk] at h
  case sequenceEntry =>
    obtain ⟨spaced, hspaced, h⟩ := exists_of_bind_eq_ok h
    cases h
    exact ⟨_, moves_startItem style trail _ carry n, .inr ⟨rfl, hspaced⟩⟩
  case mappingEntry =>
    cases h
    exact ⟨_, moves_placePair style trail _ n, .inl rfl⟩
  case document =>
    cases h
    exact ⟨_, moves_realignDocument n, .inl rfl⟩
  all_goals
    cases h
    exact ⟨_, moves_placeOther style trail _ n, .inl rfl⟩

theorem Moves.copyOf (h : Moves n m) : CopyOf m n := by
  obtain ⟨lead, -, rfl⟩ := h
  exact copyOf_withLead lead n

theorem copyOf_placeNode {placed : Placed} (h : placeNode style trail carry n = .ok placed) :
    CopyOf placed.node n := by
  obtain ⟨m, hm, rfl | ⟨-, hs⟩⟩ := exists_of_placeNode h
  · exact hm.copyOf
  · exact (copyOf_spaceItem hs).trans hm.copyOf

/-- To visit siblings is to visit the first, and the others unless the pass stops there. -/
theorem exists_of_visitAll_cons {w : VisitedAll}
    (h : visitAll style stop trail carry (n :: ns) = .ok w) :
    ∃ first others, visit style stop trail carry n = .ok first ∧ w.nodes = first.node :: others ∧
      (others = ns ∨
        ∃ rest, visitAll style stop trail first.carry ns = .ok rest ∧ others = rest.nodes) := by
  rw [visitAll] at h
  obtain ⟨first, hfirst, h⟩ := exists_of_bind_eq_ok h
  split at h
  · cases h
    exact ⟨first, ns, hfirst, rfl, .inl rfl⟩
  · obtain ⟨rest, hrest, h⟩ := exists_of_bind_eq_ok h
    cases h
    exact ⟨first, rest.nodes, hfirst, rfl, .inr ⟨rest, hrest, rfl⟩⟩

/-- The pass makes of a node the node itself or a copy. -/
theorem copyOf_visit {v : Visited} (h : visit style stop trail carry n = .ok v) :
    CopyOf v.node n := by
  obtain ⟨placed, inner, hplaced, -, rfl⟩ := exists_of_visit h
  exact (copyOf_rebuild _ _).trans (copyOf_placeNode hplaced)

theorem copiesOf_visitAll : {ns : List (Node Origin)} → {carry : Option Int} → {w : VisitedAll} →
    visitAll style stop trail carry ns = .ok w → CopiesOf w.nodes ns
  | [], _, _, h => by
    rw [visitAll] at h
    cases h
    trivial
  | _ :: ns, _, _, h => by
    obtain ⟨first, others, hfirst, hnodes, hothers⟩ := exists_of_visitAll_cons h
    rw [hnodes]
    refine ⟨copyOf_visit hfirst, ?_⟩
    rcases hothers with rfl | ⟨rest, hrest, rfl⟩
    · exact .refl _
    · exact copiesOf_visitAll hrest

/-! ### Trees that stay -/

/-- What the pass makes of `m`, if it reads like `n`, is `n`, and so was `m`. -/
def GivesBack (style : Style) (stop : Option Nat) (m n : Node Origin) : Prop :=
  ∀ trail carry v, visit style stop trail carry m = .ok v → v.node.untagged = n.untagged →
    m = n ∧ v.node = n

/-- What the pass makes of some nodes, if they read like `ns`, is `ns`, and so were they. -/
def GivesBackAll (style : Style) (stop : Option Nat) (ms ns : List (Node Origin)) : Prop :=
  ∀ trail carry w, visitAll style stop trail carry ms = .ok w →
    untaggedAll w.nodes = untaggedAll ns → ms = ns ∧ w.nodes = ns

theorem GivesBackAll.nil : GivesBackAll style stop [] [] := by
  intro trail carry w hw _
  rw [visitAll] at hw
  cases hw
  exact ⟨rfl, rfl⟩

theorem GivesBackAll.cons (h : GivesBack style stop m n) (hs : GivesBackAll style stop ns ns) :
    GivesBackAll style stop (m :: ns) (n :: ns) := by
  intro trail carry w hw hu
  obtain ⟨first, others, hfirst, hnodes, hothers⟩ := exists_of_visitAll_cons hw
  rw [hnodes, untaggedAll_cons, untaggedAll_cons, List.cons.injEq] at hu
  obtain ⟨rfl, hnode⟩ := h _ _ _ hfirst hu.1
  have hrest : others = ns := by
    rcases hothers with rfl | ⟨rest, hrest, rfl⟩
    · rfl
    · exact (hs _ _ _ hrest hu.2).2
  rw [hnodes, hnode, hrest]
  exact ⟨rfl, rfl⟩

/-- A node that was rebuilt and reads like another has its parts. -/
theorem eq_of_untagged_rebuild (hc : CopiesOf ms m.children)
    (hu : (m.rebuild ms).untagged = n.untagged) :
    m.lead = n.lead ∧ untaggedAll ms = untaggedAll n.children := by
  rw [untagged_rebuild hc, untagged_eq n, Node.mk.injEq] at hu
  exact ⟨hu.2.2.1, hu.2.2.2.2⟩

/-- A node whose children are given back is given back. -/
theorem givesBack_of_children (ho : n.Original) (h : GivesBackAll style stop n.children n.children)
    (hs : GivesBackAll style stop (singleGapFirst n.children) n.children) :
    GivesBack style stop n n := by
  intro trail carry v hv hu
  obtain ⟨placed, inner, hplaced, hinner, hvisited⟩ := exists_of_visit hv
  have hnode : v.node = placed.node.rebuild inner.nodes := congrArg Visited.node hvisited.symm
  rw [hnode] at hu ⊢
  obtain ⟨hlead, hchildren⟩ := eq_of_untagged_rebuild (copiesOf_visitAll hinner) hu
  refine ⟨rfl, ?_⟩
  -- Its children are rebuilt from themselves once its lead is seen to stay.
  have hself (hp : placed.node = n) : placed.node.rebuild inner.nodes = n := by
    rw [hp] at hinner ⊢
    rw [(h _ _ _ hinner hchildren).2, rebuild_self ho.children]
  obtain ⟨m, ⟨lead, -, rfl⟩, hp | ⟨-, hp⟩⟩ := exists_of_placeNode hplaced
  · rw [hp, (withLead_parts lead n).2.1] at hlead
    rw [hlead, withLead_self] at hp
    exact hself hp
  · rw [lead_of_spaceItem hp, (withLead_parts lead n).2.1] at hlead
    rw [hlead, withLead_self] at hp
    rcases spaceItem_cases hp with hp | ⟨value, others, hc, hp, hpc⟩
    · exact hself hp
    · -- The value was spaced ahead, and there is no other child.
      rw [hpc] at hinner
      have hothers : others = [] := by
        have hlength := congrArg List.length hchildren
        rw [length_untaggedAll, length_untaggedAll, (copiesOf_visitAll hinner).length_eq, hc]
          at hlength
        exact List.length_eq_zero_iff.1 (Nat.succ.inj hlength).symm
      have hfirst : singleGapFirst n.children = [singleGap value] := by
        rw [hc, hothers, singleGapFirst]
      rw [← hfirst] at hinner hp
      obtain ⟨hsame, hnodes⟩ := hs _ _ _ hinner hchildren
      rw [hp, hsame, rebuild_self ho.children, hnodes, rebuild_self ho.children]

/-- So is a node that was spaced ahead. -/
theorem givesBack_singleGap (ho : n.Original) (h : GivesBack style stop n n)
    (hs : GivesBackAll style stop (singleGapFirst n.children) n.children) :
    GivesBack style stop (singleGap n) n := by
  intro trail carry v hv hu
  obtain ⟨placed, inner, hplaced, hinner, hvisited⟩ := exists_of_visit hv
  have hnode : v.node = placed.node.rebuild inner.nodes := congrArg Visited.node hvisited.symm
  have hparts := hu
  rw [hnode] at hparts
  obtain ⟨hlead, hchildren⟩ := eq_of_untagged_rebuild (copiesOf_visitAll hinner) hparts
  obtain ⟨m, ⟨lead, hspace, rfl⟩, hp⟩ := exists_of_placeNode hplaced
  have hplead : placed.node.lead = lead := by
    rcases hp with hp | ⟨-, hp⟩
    · rw [hp, (withLead_parts lead _).2.1]
    · rw [lead_of_spaceItem hp, (withLead_parts lead _).2.1]
  rw [hplead] at hlead
  rcases singleGap_cases n with ⟨hk, hgap⟩ | hgap | hgap
  · -- The gap is that of the first node below.
    obtain ⟨hmk, hml, -⟩ := rebuild_parts (singleGapFirst n.children) n
    have hmc := children_rebuild (copiesOf_singleGapFirst n.children)
    rw [← hgap] at hmk hml hmc
    have hself : placed.node = singleGap n := by
      rcases hp with hp | ⟨hitem, -⟩
      · rw [hp, hlead, ← hml, withLead_self]
      · rw [hmk] at hitem
        rw [hitem] at hk
        cases hk
    rw [hself, hmc] at hinner
    obtain ⟨hsame, hnodes⟩ := hs _ _ _ hinner hchildren
    have hn : singleGap n = n := by rw [hgap, hsame, rebuild_self ho.children]
    rw [hnode, hself, hnodes, hn, rebuild_self ho.children]
    exact ⟨rfl, rfl⟩
  · -- The gap is its own, and stays one space.
    have hone : n.lead = [' '] := by
      rw [← hlead]
      exact hspace (by rw [hgap, (withLead_parts [' '] n).2.1])
    have hn : singleGap n = n := by rw [hgap, ← hone, withLead_self]
    rw [hn] at hv ⊢
    exact h _ _ _ hv hu
  · rw [hgap] at hv ⊢
    exact h _ _ _ hv hu

mutual

/-- A tree that reads as before is the tree that the pass was given, also if it was spaced ahead. -/
theorem Node.givesBack (style : Style) (stop : Option Nat) : (n : Node Origin) → n.Original →
    GivesBack style stop n n ∧ GivesBack style stop (singleGap n) n
  | ⟨_, _, _, _, children⟩, ho => by
    obtain ⟨h, hs⟩ := givesBackAll style stop children ho.children
    have hn := givesBack_of_children ho h hs
    exact ⟨hn, givesBack_singleGap ho hn hs⟩

/-- Trees that read as before are those that the pass was given. -/
theorem Node.givesBackAll (style : Style) (stop : Option Nat) : (ns : List (Node Origin)) →
    OriginalAll ns → GivesBackAll style stop ns ns ∧ GivesBackAll style stop (singleGapFirst ns) ns
  | [], _ => ⟨.nil, .nil⟩
  | n :: ns, ho => by
    rw [OriginalAll] at ho
    obtain ⟨h, hs⟩ := givesBack style stop n ho.1
    have hns := (givesBackAll style stop ns ho.2).1
    exact ⟨.cons h hns, .cons hs hns⟩

end

/-- A pass whose result reads like the tree it was given gives back that tree itself. -/
theorem reindent_eq_self {ancestors : List (Node Origin)} {v : Visited} (ho : n.Original)
    (h : reindent style n stop ancestors = .ok v) (hu : v.node.untagged = n.untagged) :
    v.node = n :=
  ((n.givesBack style stop ho).1 _ _ _ h hu).2

end YamlIndent
