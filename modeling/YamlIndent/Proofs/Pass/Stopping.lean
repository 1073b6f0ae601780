import YamlIndent.Proofs.Pass.Sharing
import YamlIndent.Proofs.Pass.Spacing
import YamlIndent.Proofs.Shape
import YamlIndent.Proofs.Tree.Preorder

/-!
# Passes that stop

A pass with a stop goes the way of the full pass up to the node it is to stop after, which it knows
by its tag, and leaves what follows as it was. The two go in step: they place the same nodes with
the same leads and hand on the same indents. But the gap behind a `-` is spaced ahead of the nodes
that it stands in front of, and if that makes copies of them, the pass meets the copies and goes on.

## Main definitions

* `Node.front`, `Node.gapInFront`: the nodes that a tree begins with, and the gap in front of them.
* `SpacedAhead`: a node that a sequence entry spaces ahead.
* `CutAt`: nodes that are those of the full pass up to a place, and the given ones from there on.
* `Follows`: what a pass with a stop makes of some nodes, next to the full pass.

## Main results

* `singleGap_eq_self_iff`: spacing ahead makes copies just where a gap is loose.
* `Node.halts`, `Node.haltsAll`: a pass with a stop follows the full pass.
-/

namespace YamlIndent

open Node

/-! ### Nodes in front -/

section Front

variable {α : Type}

mutual

/-- The nodes that the first token of a tree belongs to, but for the entry that it may be of: the
tree, and what is in front of a block. -/
def Node.front : Node α → List (Node α)
  | ⟨tag, kind, lead, text, children⟩ =>
    ⟨tag, kind, lead, text, children⟩ :: if kind.isCollection then frontAll children else []

/-- The nodes in front of some trees. -/
def Node.frontAll : List (Node α) → List (Node α)
  | [] => []
  | n :: _ => n.front

end

mutual

/-- The lead of the first token of a tree. -/
def Node.gapInFront : Node α → Text
  | ⟨_, kind, lead, _, children⟩ =>
    if kind.isCollection && !children.isEmpty then gapInFrontAll children else lead

/-- The lead of the first token of some trees. -/
def Node.gapInFrontAll : List (Node α) → Text
  | [] => []
  | n :: _ => n.gapInFront

end

mutual

theorem Node.front_subset_preorder : (n : Node α) → n.front ⊆ n.preorder
  | ⟨_, kind, _, _, children⟩ => by
    rw [front, preorder]
    refine List.cons_subset_cons _ ?_
    split
    · exact frontAll_subset_preorderAll children
    · exact List.nil_subset _

theorem Node.frontAll_subset_preorderAll : (ns : List (Node α)) → frontAll ns ⊆ preorderAll ns
  | [] => List.nil_subset _
  | n :: ns => by
    rw [frontAll, preorderAll]
    exact List.subset_append_of_subset_left _ (front_subset_preorder n)

end

mutual

theorem Node.preorder_subset_preorder {m : Node α} :
    (n : Node α) → m ∈ n.preorder → m.preorder ⊆ n.preorder
  | ⟨_, _, _, _, children⟩, h => by
    rw [preorder, List.mem_cons] at h
    rcases h with rfl | h
    · rw [preorder]
      exact List.Subset.refl _
    · rw [preorder]
      exact List.subset_cons_of_subset _ (preorder_subset_preorderAll children h)

theorem Node.preorder_subset_preorderAll {m : Node α} :
    (ns : List (Node α)) → m ∈ preorderAll ns → m.preorder ⊆ preorderAll ns
  | [], h => absurd h List.not_mem_nil
  | n :: ns, h => by
    rw [preorderAll, List.mem_append] at h
    rw [preorderAll]
    rcases h with h | h
    · exact List.subset_append_of_subset_left _ (preorder_subset_preorder n h)
    · exact List.subset_append_of_subset_right _ (preorder_subset_preorderAll ns h)

end

end Front

/-! ### Spacing ahead -/

variable {style : Style} {x p : Nat} {b s : Bool} {trail : List (Frame Int)} {carry : Option Int}
  {m n y : Node Origin} {ms ns fs vs gs ws : List (Node Origin)} {missed : Node Origin → Prop}

/-- A gap that stays on its line and is not one space. -/
def IsLoose (gap : Text) : Prop :=
  isInlineGap gap ∧ gap ≠ [' ']

/-- A node is in front of the value of a sequence entry among some nodes, and the gap there is loose
where the style asks for one space. -/
def SpacedAhead (style : Style) (ns : List (Node Origin)) (y : Node Origin) : Prop :=
  style.singleGap ∧ ∃ e ∈ ns, e.kind = .sequenceEntry ∧
    ∃ value ∈ e.children, IsLoose value.gapInFront ∧ y ∈ value.front

theorem withLead_eq_self_iff (ho : n.Original) (lead : Text) :
    n.withLead lead = n ↔ lead = n.lead := by
  rw [withLead]
  split
  · rename_i h
    simp [h]
  · rename_i h
    refine ⟨fun hn => ?_, fun hl => absurd hl h⟩
    have htag := ho.isSome_tag
    rw [← hn] at htag
    simp at htag

/-- A node that gets other children is another node. -/
theorem rebuild_ne_self (hc : CopiesOf ms n.children) (h : ms ≠ n.children) :
    n.rebuild ms ≠ n := by
  intro hn
  have := children_rebuild hc
  rw [hn] at this
  exact h this.symm

mutual

/-- Spacing a node ahead makes a copy just where the gap in front of it is loose. -/
theorem singleGap_eq_self_iff :
    (n : Node Origin) → n.Original → (singleGap n = n ↔ ¬ IsLoose n.gapInFront)
  | ⟨tag, kind, lead, text, children⟩, ho => by
    have ih := singleGapFirst_eq_self_iff children ho.children
    rw [singleGap, gapInFront]
    by_cases hk : (kind.isCollection && !children.isEmpty) = true
    · rw [if_pos hk, if_pos hk, ← ih]
      constructor
      · intro hn
        exact Classical.byContradiction fun hne =>
          rebuild_ne_self (copiesOf_singleGapFirst children) hne hn
      · intro hn
        rw [hn]
        exact rebuild_self ho.children
    · rw [if_neg hk, if_neg hk, IsLoose]
      split
      · rename_i hi
        rw [withLead_eq_self_iff ho]
        simp [hi, eq_comm]
      · rename_i hi
        simp [hi]

theorem singleGapFirst_eq_self_iff : (ns : List (Node Origin)) → OriginalAll ns →
    (singleGapFirst ns = ns ↔ ¬ IsLoose (gapInFrontAll ns))
  | [], _ => by simp [singleGapFirst, gapInFrontAll, IsLoose, isInlineGap]
  | n :: ns, ho => by
    rw [OriginalAll] at ho
    rw [singleGapFirst, gapInFrontAll, ← singleGap_eq_self_iff n ho.1]
    simp

end

/-- The node, spaced ahead or not. -/
def Node.spacedIf (b : Bool) (n : Node Origin) : Node Origin :=
  if b then singleGap n else n

/-- Some nodes, the first of them spaced ahead or not. -/
def Node.spacedFirstIf (b : Bool) (ns : List (Node Origin)) : List (Node Origin) :=
  if b then singleGapFirst ns else ns

/-- Whether the pass spaces the first child of a node ahead, where it may have spaced the node. -/
def Node.spacesFirst (style : Style) (b : Bool) (n : Node Origin) : Bool :=
  if n.kind = .sequenceEntry then style.singleGap else b && n.kind.isCollection

theorem spacedFirstIf_cons (b : Bool) (n : Node Origin) (ns : List (Node Origin)) :
    spacedFirstIf b (n :: ns) = n.spacedIf b :: ns := by
  cases b <;> rfl

theorem kind_spacedIf (b : Bool) (n : Node Origin) : (n.spacedIf b).kind = n.kind := by
  cases b
  · rfl
  · rw [spacedIf, if_pos rfl]
    rcases singleGap_cases n with ⟨-, h⟩ | h | h <;> rw [h]
    · exact (rebuild_parts _ n).1
    · exact (withLead_parts _ n).1

/-- A node that is spaced ahead keeps its tag unless that makes a copy of it. -/
theorem tag_spacedIf_eq_some_iff (ho : n.Original) :
    (n.spacedIf b).tag = some x ↔ n.tag = some x ∧ ¬ (b ∧ IsLoose n.gapInFront) := by
  cases b
  · simp [spacedIf]
  · have hcopy := copyOf_singleGap n
    have hself := singleGap_eq_self_iff n ho
    rw [spacedIf, if_pos rfl]
    constructor
    · intro ht
      have hn : singleGap n = n := hcopy (by simp [ht])
      exact ⟨by rw [← hn]; exact ht, by simpa using hself.1 hn⟩
    · rintro ⟨ht, hloose⟩
      rw [hself.2 (by simpa using hloose)]
      exact ht

/-! ### The children that are gone through -/

/-- A node that is no document, and that has one child if it is a sequence entry. -/
def Node.Regular {α : Type} (n : Node α) : Prop :=
  n.kind ≠ .document ∧ (n.kind = .sequenceEntry → ∃ value, n.children = [value])

theorem children_spaceItem (hc : style.singleGap → n.children.length ≤ 1)
    (h : spaceItem style n = .ok m) : m.children = spacedFirstIf style.singleGap n.children := by
  rw [spaceItem] at h
  by_cases hs : style.singleGap = true
  · rw [if_pos hs] at h
    rw [hs]
    have hlength := hc hs
    rcases hn : n.children with _ | ⟨value, _ | ⟨second, rest⟩⟩
    · rw [hn] at h
      obtain rfl := Except.ok.inj h
      exact hn
    · rw [hn] at h
      simp only at h
      rw [withChildren_eq_rebuild (by rw [hn]; rfl)] at h
      obtain rfl := Except.ok.inj h
      refine children_rebuild ?_
      rw [hn]
      exact ⟨copyOf_singleGap value, trivial⟩
    · simp [hn] at hlength
  · rw [if_neg hs] at h
    obtain rfl := Except.ok.inj h
    rw [eq_false_of_ne_true hs]
    rfl

theorem placeItem_eq_of_kind {placed : Placed} (hk : n.kind = .sequenceEntry)
    (h : placeNode style trail carry n = .ok placed) :
    ∃ m, Moves n m ∧ spaceItem style m = .ok placed.node := by
  rw [placeNode, placeWith, hk] at h
  obtain ⟨spaced, hspaced, h⟩ := exists_of_bind_eq_ok h
  obtain rfl := Except.ok.inj h
  exact ⟨_, moves_startItem style trail _ carry n, hspaced⟩

theorem Moves.children_eq (h : Moves n m) : m.children = n.children := by
  obtain ⟨lead, -, rfl⟩ := h
  exact (withLead_parts lead n).2.2.2

/-- A collection is spaced ahead at its first child. -/
theorem children_singleGap_of_collection (hk : n.kind.isCollection) :
    (singleGap n).children = singleGapFirst n.children := by
  have hcopies := copiesOf_singleGapFirst n.children
  obtain ⟨tag, kind, lead, text, children⟩ := n
  cases children with
  | nil =>
    rw [singleGap, if_neg (by simp)]
    split
    · exact (withLead_parts _ _).2.2.2
    · rfl
  | cons first others =>
    rw [singleGap, if_pos (by simpa using hk)]
    exact children_rebuild hcopies

/-- The children of a node in place are its own, the first of them spaced ahead or not. -/
theorem children_of_placeNode {placed : Placed}
    (hitem : n.kind = .sequenceEntry → style.singleGap → n.children.length ≤ 1)
    (h : placeNode style trail carry (n.spacedIf b) = .ok placed) :
    placed.node.children = spacedFirstIf (n.spacesFirst style b) n.children := by
  have hkind := kind_spacedIf b n
  by_cases hk : n.kind = .sequenceEntry
  · have hchildren : (n.spacedIf b).children = n.children := by
      cases b
      · rfl
      · rw [spacedIf, if_pos rfl, singleGap_of_not_collection (by rw [hk]; rfl)]
        exact (withLead_parts _ n).2.2.2
    obtain ⟨m, hm, hs⟩ := placeItem_eq_of_kind (hkind.trans hk) h
    rw [spacesFirst, if_pos hk, ← hchildren, ← hm.children_eq]
    refine children_spaceItem (fun hsingle => ?_) hs
    rw [hm.children_eq, hchildren]
    exact hitem hk hsingle
  · obtain ⟨m, hm, hp | ⟨hitem, -⟩⟩ := exists_of_placeNode h
    · rw [hp, hm.children_eq, spacesFirst, if_neg hk]
      cases b
      · rfl
      · rw [spacedIf, if_pos rfl, Bool.true_and]
        cases hc : n.kind.isCollection
        · rw [singleGap_of_not_collection hc]
          exact (withLead_parts _ n).2.2.2
        · exact children_singleGap_of_collection hc
    · exact absurd (hkind.symm.trans hitem) hk

/-! ### Nodes that are missed -/

/-- The pass does not know a node again below `n`, which it has spaced ahead if `b` says so: it
comes to a copy of it. -/
def Missed (style : Style) (b : Bool) (n y : Node Origin) : Prop :=
  (b ∧ IsLoose n.gapInFront ∧ y ∈ n.front) ∨ SpacedAhead style n.preorder y

/-- The pass does not know a node again below `ns`, the first of which it has spaced ahead if `b`
says so. -/
def MissedAll (style : Style) (b : Bool) (ns : List (Node Origin)) (y : Node Origin) : Prop :=
  (b ∧ IsLoose (gapInFrontAll ns) ∧ y ∈ frontAll ns) ∨ SpacedAhead style (preorderAll ns) y

theorem front_eq (n : Node Origin) :
    n.front = n :: if n.kind.isCollection then frontAll n.children else [] := by
  cases n
  rw [front]

theorem spacedAhead_cons_iff : SpacedAhead style (n :: ns) y ↔
    (style.singleGap ∧ n.kind = .sequenceEntry ∧
      ∃ value ∈ n.children, IsLoose value.gapInFront ∧ y ∈ value.front) ∨
    SpacedAhead style ns y := by
  simp only [SpacedAhead, List.mem_cons, exists_eq_or_imp]
  exact and_or_left

theorem spacedAhead_append_iff : SpacedAhead style (ns ++ ms) y ↔
    SpacedAhead style ns y ∨ SpacedAhead style ms y := by
  simp only [SpacedAhead, List.mem_append, or_and_right, exists_or, and_or_left]

/-- What is spaced ahead stands below a sequence entry. -/
theorem mem_of_mem_front {value : Node Origin} (hv : value ∈ ns) (hy : y ∈ value.front) :
    y ∈ preorderAll ns :=
  (preorder_sublist_preorderAll hv).subset (value.front_subset_preorder hy)

theorem SpacedAhead.mem_preorderAll (h : SpacedAhead style (preorderAll ns) y) :
    y ∈ preorderAll ns := by
  obtain ⟨-, e, he, -, value, hv, -, hy⟩ := h
  refine preorder_subset_preorderAll ns he ?_
  rw [preorder_eq]
  exact List.mem_cons_of_mem _ (mem_of_mem_front hv hy)

theorem SpacedAhead.mem_children (h : SpacedAhead style n.preorder y) :
    y ∈ preorderAll n.children := by
  rw [preorder_eq, spacedAhead_cons_iff] at h
  rcases h with ⟨-, -, value, hv, -, hy⟩ | h
  · exact mem_of_mem_front hv hy
  · exact h.mem_preorderAll

theorem not_mem_children (hn : n.preorder.Nodup) : n ∉ preorderAll n.children := by
  rw [preorder_eq] at hn
  exact (List.nodup_cons.1 hn).1

/-- A node is missed itself if it is a copy. -/
theorem missed_self_iff (hn : n.preorder.Nodup) :
    Missed style b n n ↔ b ∧ IsLoose n.gapInFront := by
  constructor
  · rintro (⟨hb, hloose, -⟩ | h)
    · exact ⟨hb, hloose⟩
    · exact absurd h.mem_children (not_mem_children hn)
  · rintro ⟨hb, hloose⟩
    refine .inl ⟨hb, hloose, ?_⟩
    rw [front_eq]
    exact List.mem_cons_self

/-- What is missed below a node is missed below its children. -/
theorem missedAll_children_iff (hn : n.preorder.Nodup)
    (hitem : n.kind = .sequenceEntry → ∃ value, n.children = [value])
    (hy : y ∈ preorderAll n.children) :
    MissedAll style (n.spacesFirst style b) n.children y ↔ Missed style b n y := by
  have hne : y ≠ n := fun h => not_mem_children hn (h ▸ hy)
  rw [Missed, MissedAll, preorder_eq, spacedAhead_cons_iff, front_eq, spacesFirst]
  by_cases hk : n.kind = .sequenceEntry
  · obtain ⟨value, hvalue⟩ := hitem hk
    simp [hk, hvalue, hne, Kind.isCollection, gapInFrontAll, frontAll]
  · by_cases hc : n.kind.isCollection = true
    · have hgap : n.gapInFront = gapInFrontAll n.children := by
        obtain ⟨tag, kind, lead, text, children⟩ := n
        cases children with
        | nil => simp [preorderAll] at hy
        | cons => rw [gapInFront, if_pos (by simpa using hc)]
      simp [hk, hc, hne, hgap]
    · simp [hk, hc, hne]

/-- What is missed in the first of some trees is not for what is below the others. -/
theorem missedAll_cons_iff_left (hn : (preorderAll (n :: ns)).Nodup) (hy : y ∈ n.preorder) :
    Missed style b n y ↔ MissedAll style b (n :: ns) y := by
  rw [preorderAll, List.nodup_append] at hn
  have hnot : ¬ SpacedAhead style (preorderAll ns) y :=
    fun h => hn.2.2 y hy y h.mem_preorderAll rfl
  rw [Missed, MissedAll, preorderAll, spacedAhead_append_iff, gapInFrontAll, frontAll]
  simp [hnot]

/-- What is missed in the others is not for the first. -/
theorem missedAll_cons_iff_right (hn : (preorderAll (n :: ns)).Nodup) (hy : y ∈ preorderAll ns) :
    MissedAll style false ns y ↔ MissedAll style b (n :: ns) y := by
  rw [preorderAll, List.nodup_append] at hn
  have hnot (h : y ∈ n.preorder) : False := hn.2.2 y h y hy rfl
  have hfront : y ∉ n.front := fun h => hnot (n.front_subset_preorder h)
  have hahead : ¬ SpacedAhead style n.preorder y := by
    intro h
    apply hnot
    rw [preorder_eq]
    exact List.mem_cons_of_mem _ h.mem_children
  rw [MissedAll, MissedAll, preorderAll, spacedAhead_append_iff, gapInFrontAll, frontAll]
  simp [hfront, hahead]

/-! ### Cuts -/

/-- Up to a place, nodes have the leads of others, and from there on they are those given. -/
def CutAt (p : Nat) (ns fs vs : List (Node Origin)) : Prop :=
  ∃ as bs cs rest fs', ns = as ++ rest ∧ fs = bs ++ fs' ∧ vs = cs ++ rest ∧ as.length = p ∧
    cs.length = p ∧ cs.map (·.lead) = bs.map (·.lead)

theorem CutAt.append (h : CutAt p ns fs vs) (ms gs : List (Node Origin)) :
    CutAt p (ns ++ ms) (fs ++ gs) (vs ++ ms) := by
  obtain ⟨as, bs, cs, rest, fs', rfl, rfl, rfl, has, hcs, hlead⟩ := h
  exact ⟨as, bs, cs, rest ++ ms, fs' ++ gs, by simp, by simp, by simp, has, hcs, hlead⟩

theorem CutAt.prepend (h : CutAt p ns fs vs) {as bs cs : List (Node Origin)}
    (hlength : cs.length = as.length) (hlead : cs.map (·.lead) = bs.map (·.lead)) :
    CutAt (as.length + p) (as ++ ns) (bs ++ fs) (cs ++ vs) := by
  obtain ⟨as', bs', cs', rest, fs', rfl, rfl, rfl, has, hcs, hlead'⟩ := h
  exact ⟨as ++ as', bs ++ bs', cs ++ cs', rest, fs', by simp, by simp, by simp, by simp [has],
    by simp [hlength, hcs], by simp [hlead, hlead']⟩

theorem cutAt_end (h : fs.length = ns.length) (hlead : vs.map (·.lead) = fs.map (·.lead)) :
    CutAt ns.length ns fs vs := by
  have hlength := congrArg List.length hlead
  rw [List.length_map, List.length_map] at hlength
  exact ⟨ns, fs, vs, [], [], by simp, by simp, by simp, rfl, hlength.trans h, hlead⟩

theorem CutAt.take_drop (h : CutAt p ns fs vs) :
    p ≤ ns.length ∧ vs.length = ns.length ∧ vs.drop p = ns.drop p ∧
      (vs.take p).map (·.lead) = (fs.take p).map (·.lead) := by
  obtain ⟨as, bs, cs, rest, fs', rfl, rfl, rfl, rfl, hcs, hlead⟩ := h
  have hbs : bs.length = as.length := by
    have := congrArg List.length hlead
    rw [List.length_map, List.length_map, hcs] at this
    exact this.symm
  refine ⟨by simp, by simp [hcs], ?_, ?_⟩
  · rw [List.drop_left, ← hcs, List.drop_left]
  · rw [← hbs, List.take_left, hbs, ← hcs, List.take_left, hlead]

/-! ### Following the full pass -/

/-- Next to the full pass, which made `fs` of the nodes `ns`, a pass with a stop made `vs` of them.
If it did not stop, all nodes with the tag of the stop were missed; if it did, it was at one that
was not missed, and the nodes are cut behind it. -/
structure Follows (x : Nat) (missed : Node Origin → Prop) (ns fs vs : List (Node Origin))
    (stopped : Bool) : Prop where
  length_eq : fs.length = ns.length
  goesOn : stopped = false → vs = fs ∧ ∀ y ∈ ns, y.tag = some x → missed y
  stops : stopped = true → ∃ i y, ns[i]? = some y ∧ y.tag = some x ∧ ¬ missed y ∧
    CutAt (i + y.size) ns fs vs

namespace Follows

variable {missed' : Node Origin → Prop}

theorem nil : Follows x missed [] [] [] false where
  length_eq := rfl
  goesOn := by simp
  stops := by simp

/-- What is said of all nodes missed is said of those below alone. -/
theorem congr (h : Follows x missed ns fs vs s) (hm : ∀ y ∈ ns, (missed y ↔ missed' y)) :
    Follows x missed' ns fs vs s where
  length_eq := h.length_eq
  goesOn hs := ⟨(h.goesOn hs).1, fun y hy ht => (hm y hy).1 ((h.goesOn hs).2 y hy ht)⟩
  stops hs := by
    obtain ⟨i, y, hy, ht, hnot, hcut⟩ := h.stops hs
    exact ⟨i, y, hy, ht, fun hy' => hnot ((hm y (List.mem_of_getElem? hy)).2 hy'), hcut⟩

/-- Once it has stopped, the pass leaves what follows. -/
theorem append_of_stopped (h : Follows x missed ns fs vs true) (hl : gs.length = ms.length) :
    Follows x missed (ns ++ ms) (fs ++ gs) (vs ++ ms) true where
  length_eq := by simp [h.length_eq, hl]
  goesOn := by simp
  stops _ := by
    obtain ⟨i, y, hy, ht, hnot, hcut⟩ := h.stops rfl
    refine ⟨i, y, ?_, ht, hnot, hcut.append ms gs⟩
    rw [List.getElem?_append_left (List.getElem?_eq_some_iff.1 hy).1]
    exact hy

/-- As long as it has not, it goes on with what follows. -/
theorem append (h : Follows x missed ns fs vs false) (hs : Follows x missed ms gs ws s) :
    Follows x missed (ns ++ ms) (fs ++ gs) (vs ++ ws) s where
  length_eq := by simp [h.length_eq, hs.length_eq]
  goesOn hstop := by
    obtain ⟨rfl, hm⟩ := h.goesOn rfl
    obtain ⟨rfl, hm'⟩ := hs.goesOn hstop
    exact ⟨rfl, fun y hy => (List.mem_append.1 hy).elim (hm y) (hm' y)⟩
  stops hstop := by
    obtain ⟨rfl, -⟩ := h.goesOn rfl
    obtain ⟨i, y, hy, ht, hnot, hcut⟩ := hs.stops hstop
    refine ⟨ns.length + i, y, ?_, ht, hnot, ?_⟩
    · rw [List.getElem?_append_right (Nat.le_add_right _ _), Nat.add_sub_cancel_left]
      exact hy
    · rw [Nat.add_assoc]
      exact hcut.prepend h.length_eq rfl

/-- A node follows the full pass if its children do. It is stopped at, unless it is missed. -/
theorem node {f v : Node Origin} {here : Bool}
    (h : Follows x missed (preorderAll n.children) (preorderAll f.children)
      (preorderAll v.children) s)
    (hlead : v.lead = f.lead) (hsame : s = false → v = f)
    (hhere : here = true ↔ n.tag = some x ∧ ¬ missed n) :
    Follows x missed n.preorder f.preorder v.preorder (s || here) where
  length_eq := by
    have := h.length_eq
    rw [preorder_eq, preorder_eq]
    simpa using this
  goesOn hs := by
    simp only [Bool.or_eq_false_iff] at hs
    rw [hsame hs.1, preorder_eq n]
    refine ⟨rfl, List.forall_mem_cons.2 ⟨fun ht => ?_, (h.goesOn hs.1).2⟩⟩
    exact Classical.byContradiction fun hm => by simp [hhere.2 ⟨ht, hm⟩] at hs
  stops hs := by
    cases s with
    | true =>
      obtain ⟨i, y, hy, ht, hnot, hcut⟩ := h.stops rfl
      refine ⟨i + 1, y, ?_, ht, hnot, ?_⟩
      · rw [preorder_eq]
        exact hy
      · have hroot : CutAt (1 + (i + y.size)) ([n] ++ _) ([f] ++ _) ([v] ++ _) :=
          hcut.prepend rfl (by simp [hlead])
        rw [preorder_eq, preorder_eq f, preorder_eq v, Nat.add_right_comm, Nat.add_comm]
        exact hroot
    | false =>
      obtain ⟨ht, hnot⟩ := hhere.1 hs
      refine ⟨0, n, by rw [preorder_eq]; rfl, ht, hnot, ?_⟩
      have hlength : f.preorder.length = n.preorder.length := by
        have := h.length_eq
        rw [preorder_eq, preorder_eq n]
        simpa using this
      rw [hsame rfl, Nat.zero_add, ← length_preorder]
      exact cutAt_end hlength rfl

end Follows

/-! ### Going through a tree -/

section Steps

variable {stop : Option Nat} {placed : Placed} {inner : VisitedAll} {first v f : Visited}

/-- A visit of a node gives what its place and the visits of its children come to. -/
structure VisitParts (stop : Option Nat) (n : Node Origin) (placed : Placed) (inner : VisitedAll)
    (v : Visited) : Prop where
  node_eq : v.node = placed.node.rebuild inner.nodes
  carry_eq : v.carry = placed.carry
  stopped_eq : v.stopped =
    ((inner.stopped || (stop.isSome && n.tag == stop)) && n.kind != .document)

theorem visit_of_placed (hp : placeNode style trail carry n = .ok placed)
    (hi : visitAll style stop (⟨n.kind, placed.node.lead, placed.indent⟩ :: trail) none
      placed.node.children = .ok inner) :
    ∃ v, visit style stop trail carry n = .ok v ∧ VisitParts stop n placed inner v := by
  refine ⟨placed.visited stop n inner, ?_, rfl, rfl, rfl⟩
  rw [visit_of_ok hp, hi]
  rfl

theorem placed_of_visit (h : visit style stop trail carry n = .ok v) :
    ∃ placed inner, placeNode style trail carry n = .ok placed ∧
      visitAll style stop (⟨n.kind, placed.node.lead, placed.indent⟩ :: trail) none
        placed.node.children = .ok inner ∧ VisitParts stop n placed inner v := by
  obtain ⟨placed, inner, hp, hinner, rfl⟩ := exists_of_visit h
  exact ⟨placed, inner, hp, hinner, rfl, rfl, rfl⟩

theorem visitAll_of_stopped (h : visit style stop trail carry n = .ok first)
    (hs : first.stopped = true) :
    visitAll style stop trail carry (n :: ns) = .ok ⟨first.node :: ns, true, first.log⟩ := by
  rw [visitAll, h]
  simp [bind, Except.bind, hs, pure, Except.pure]

theorem visitAll_of_not_stopped (h : visit style stop trail carry n = .ok first)
    (hs : first.stopped = false) (ns : List (Node Origin)) :
    visitAll style stop trail carry (n :: ns) =
      (visitAll style stop trail first.carry ns).map fun others =>
        ⟨first.node :: others.nodes, others.stopped, first.log ++ others.log⟩ := by
  rw [visitAll, h]
  simp only [bind, Except.bind, hs, Bool.false_eq_true, if_false]
  cases visitAll style stop trail first.carry ns <;> rfl

/-- A pass with a stop halts in its course over a node, or goes on as the full pass does. Documents
hold a stop in. -/
structure Halts (style : Style) (x : Nat) (b : Bool) (n : Node Origin) (f v : Visited) : Prop where
  full : f.stopped = false
  carry_eq : v.carry = f.carry
  follows : ∃ s, v.stopped = (s && n.kind != .document) ∧ (s = false → v.node = f.node) ∧
    Follows x (Missed style b n) n.preorder f.node.preorder v.node.preorder s

/-- A pass with a stop halts in its course over some nodes, or goes on as the full pass does. -/
structure HaltsAll (style : Style) (x : Nat) (b : Bool) (ns : List (Node Origin))
    (f v : VisitedAll) : Prop where
  full : f.stopped = false
  same : v.stopped = false → v.nodes = f.nodes
  follows : Follows x (MissedAll style b ns) (preorderAll ns) (preorderAll f.nodes)
    (preorderAll v.nodes) v.stopped

/-- A pass with a stop halts over a node if it does so over its children. -/
theorem halts_of_children (ho : n.Original) (hn : n.preorder.Nodup)
    (hitem : n.kind = .sequenceEntry → ∃ value, n.children = [value])
    (h : ∀ trail f, visitAll style none trail none
      (spacedFirstIf (n.spacesFirst style b) n.children) = .ok f → ∃ v, visitAll style (some x)
      trail none (spacedFirstIf (n.spacesFirst style b) n.children) = .ok v ∧
      HaltsAll style x (n.spacesFirst style b) n.children f v)
    (hf : visit style none trail carry (n.spacedIf b) = .ok f) :
    ∃ v, visit style (some x) trail carry (n.spacedIf b) = .ok v ∧ Halts style x b n f v := by
  obtain ⟨placed, inner, hp, hinner, hfp⟩ := placed_of_visit hf
  have hslim (hk : n.kind = .sequenceEntry) (_ : style.singleGap) : n.children.length ≤ 1 := by
    obtain ⟨value, hvalue⟩ := hitem hk
    simp [hvalue]
  have hchildren := children_of_placeNode hslim hp
  have hcopies := copiesOf_visitAll hinner
  rw [hchildren] at hinner
  obtain ⟨inner', hinner', hall⟩ := h _ _ hinner
  rw [← hchildren] at hinner'
  have hcopies' := copiesOf_visitAll hinner'
  obtain ⟨v, hv, hvp⟩ := visit_of_placed hp hinner'
  have hfnode : f.node.children = inner.nodes := by rw [hfp.node_eq, children_rebuild hcopies]
  have hvnode : v.node.children = inner'.nodes := by rw [hvp.node_eq, children_rebuild hcopies']
  have hlead : v.node.lead = f.node.lead := by
    rw [hfp.node_eq, hvp.node_eq, (rebuild_parts _ _).2.1, (rebuild_parts _ _).2.1]
  have hsame (hs : inner'.stopped = false) : v.node = f.node := by
    rw [hvp.node_eq, hfp.node_eq, hall.same hs]
  have hbelow := hall.follows.congr fun y hy => missedAll_children_iff hn hitem hy
  rw [← hfnode, ← hvnode] at hbelow
  have hhere : ((n.spacedIf b).tag == some x) = true ↔ n.tag = some x ∧ ¬ Missed style b n n := by
    rw [beq_iff_eq, tag_spacedIf_eq_some_iff ho, missed_self_iff hn]
  refine ⟨v, hv, ?_, ?_, inner'.stopped || (n.spacedIf b).tag == some x, ?_, ?_,
    hbelow.node hlead hsame hhere⟩
  · rw [hfp.stopped_eq, hall.full]
    rfl
  · rw [hvp.carry_eq, hfp.carry_eq]
  · rw [hvp.stopped_eq, kind_spacedIf]
    rfl
  · intro hs
    exact hsame (Bool.or_eq_false_iff.1 hs).1

/-- A pass with a stop halts over some nodes if it does so over the first and over the others. -/
theorem haltsAll_cons {f : VisitedAll} (hn : (preorderAll (n :: ns)).Nodup)
    (hk : n.kind ≠ .document)
    (h : ∀ f, visit style none trail carry (n.spacedIf b) = .ok f → ∃ v,
      visit style (some x) trail carry (n.spacedIf b) = .ok v ∧ Halts style x b n f v)
    (hs : ∀ carry f, visitAll style none trail carry ns = .ok f → ∃ v,
      visitAll style (some x) trail carry ns = .ok v ∧ HaltsAll style x false ns f v)
    (hf : visitAll style none trail carry (spacedFirstIf b (n :: ns)) = .ok f) :
    ∃ v, visitAll style (some x) trail carry (spacedFirstIf b (n :: ns)) = .ok v ∧
      HaltsAll style x b (n :: ns) f v := by
  rw [spacedFirstIf_cons] at hf ⊢
  obtain ⟨first, -, hfirst, -⟩ := exists_of_visitAll_cons hf
  obtain ⟨first', hfirst', hfull, hcarry, s, hstop, hsame, hfollows⟩ := h first hfirst
  rw [visitAll_of_not_stopped hfirst hfull] at hf
  obtain ⟨rest, hrest, rfl⟩ := exists_of_map_eq_ok hf
  obtain ⟨rest', hrest', hall⟩ := hs _ _ hrest
  have hleft := hfollows.congr fun y hy => missedAll_cons_iff_left (b := b) hn hy
  have hright := hall.follows.congr fun y hy => missedAll_cons_iff_right (b := b) hn hy
  rw [bne_iff_ne.2 hk, Bool.and_true] at hstop
  cases s with
  | true =>
    refine ⟨_, visitAll_of_stopped hfirst' hstop, hall.full, by simp, ?_⟩
    exact hleft.append_of_stopped hright.length_eq
  | false =>
    have hv := visitAll_of_not_stopped hfirst' hstop ns
    rw [hcarry, hrest'] at hv
    refine ⟨_, hv, hall.full, fun hs => ?_, hleft.append hright⟩
    simp only [hsame rfl, hall.same hs]

mutual

/-- Over a node, a pass with a stop follows the full pass. -/
theorem Node.halts {style : Style} {x : Nat} : (n : Node Origin) → n.Original →
    n.preorder.Nodup → (n.kind = .sequenceEntry → ∃ value, n.children = [value]) →
    (∀ m ∈ preorderAll n.children, m.Regular) → ∀ b trail carry f,
    visit style none trail carry (n.spacedIf b) = .ok f → ∃ v,
      visit style (some x) trail carry (n.spacedIf b) = .ok v ∧ Halts style x b n f v
  | ⟨_, _, _, _, children⟩, ho, hn, hitem, hr => by
    have hn' := hn
    rw [preorder, List.nodup_cons] at hn'
    intro b trail carry f hf
    exact halts_of_children ho hn hitem
      (fun trail f hf => haltsAll children ho.children hn'.2 hr _ trail none f hf) hf

/-- Over some nodes, a pass with a stop follows the full pass. -/
theorem Node.haltsAll {style : Style} {x : Nat} : (ns : List (Node Origin)) → OriginalAll ns →
    (preorderAll ns).Nodup → (∀ m ∈ preorderAll ns, m.Regular) → ∀ b trail carry f,
    visitAll style none trail carry (spacedFirstIf b ns) = .ok f → ∃ v,
      visitAll style (some x) trail carry (spacedFirstIf b ns) = .ok v ∧ HaltsAll style x b ns f v
  | [], _, _, _ => by
    intro b trail carry f hf
    have hnil : spacedFirstIf b [] = [] := by cases b <;> rfl
    rw [hnil, visitAll] at hf ⊢
    obtain rfl := Except.ok.inj hf
    exact ⟨_, rfl, rfl, fun _ => rfl, .nil⟩
  | n :: ns, ho, hn, hr => by
    have hn' := hn
    rw [preorderAll, List.nodup_append] at hn'
    rw [preorderAll, List.forall_mem_append] at hr
    rw [OriginalAll] at ho
    have hroot := hr.1 n (mem_preorder_self n)
    have hbelow := hr.1
    rw [preorder_eq, List.forall_mem_cons] at hbelow
    intro b trail carry f hf
    exact haltsAll_cons hn hroot.1
      (fun f hf => halts n ho.1 hn'.1 hroot.2 hbelow.2 b trail carry f hf)
      (fun carry f hf => haltsAll ns ho.2 hn'.2.1 hr.2 false trail carry f hf) hf

end

end Steps

end YamlIndent
