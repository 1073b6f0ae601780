import YamlIndent.Proofs.Source.Syntax
import YamlIndent.Proofs.Tree.Copy
import YamlIndent.Reindent

/-!
# Going through a tree

The pass changes the lead of a node by what is above it, and goes on with the children of the node
it has put in place. So what it makes of a tree is said node by node, in terms of the trees without
tags.

## Main definitions

* `Visits`, `VisitsAll`: the pass gives some trees for some nodes below a trail.

## Main results

* `Visits.of_placed`: a node is put in place, and its children are gone through.
* `visits_leaf`: a scalar and the end of a document get their leads.
-/

namespace YamlIndent

open Node

variable {style : Style} {trail : List (Frame Int)} {carry carry' : Option Int} {n : Node Origin}

/-- The pass without a stop gives a tree for a node below a trail, hands an indent to the next, and
copies what it changes. -/
def Visits (style : Style) (trail : List (Frame Int)) (carry : Option Int) (n : Node Origin)
    (t : Tree) (carry' : Option Int) : Prop :=
  ∃ v, visit style none trail carry n = .ok v ∧ v.node.untagged = t ∧ v.carry = carry' ∧
    v.stopped = false ∧ CopyOf v.node n

/-- The pass without a stop gives trees for some nodes in turn below a trail. -/
def VisitsAll (style : Style) (trail : List (Frame Int)) (carry : Option Int)
    (ns : List (Node Origin)) (ts : List Tree) : Prop :=
  ∃ v, visitAll style none trail carry ns = .ok v ∧ untaggedAll v.nodes = ts ∧
    v.stopped = false ∧ CopiesOf v.nodes ns

/-! ### Going through a tree -/

theorem VisitsAll.nil : VisitsAll style trail carry [] [] :=
  ⟨⟨[], false, []⟩, by rw [visitAll]; rfl, rfl, rfl, trivial⟩

theorem VisitsAll.cons {ns : List (Node Origin)} {t : Tree} {ts : List Tree}
    (h : Visits style trail carry n t carry') (hs : VisitsAll style trail carry' ns ts) :
    VisitsAll style trail carry (n :: ns) (t :: ts) := by
  obtain ⟨v, hv, rfl, rfl, hstop, hc⟩ := h
  obtain ⟨w, hw, rfl, hstop', hcs⟩ := hs
  refine ⟨⟨v.node :: w.nodes, w.stopped, v.log ++ w.log⟩, ?_, untaggedAll_cons _ _, hstop', hc, hcs⟩
  rw [visitAll, hv]
  simp only [bind, Except.bind, hstop, hw]
  rfl

/-- The pass puts a node in place and goes through its children. -/
theorem Visits.of_placed {placed : Placed} {ts : List Tree}
    (h : placeNode style trail carry n = .ok placed) (hc : CopyOf placed.node n)
    (hs : VisitsAll style (⟨n.kind, placed.node.lead, placed.indent⟩ :: trail) none
      placed.node.children ts) :
    Visits style trail carry n
      ⟨(), placed.node.kind, placed.node.lead, placed.node.text, ts⟩ placed.carry := by
  obtain ⟨v, hv, rfl, hstop, hcs⟩ := hs
  have hvisit : visit style none trail carry n = .ok (placed.visited none n v) := by
    rw [visit_of_ok h, hv]
    rfl
  have hgoes : (placed.visited none n v).stopped = false := by
    rw [Placed.visited, hstop]
    rfl
  exact ⟨_, hvisit, untagged_rebuild hcs, rfl, hgoes, (copyOf_rebuild _ _).trans hc⟩

/-- The indent in effect below a trail. -/
def indentBelow (trail : List (Frame Int)) : Int :=
  (basis trail).indent Int.ofNat

/-! ### Nodes that are no entries -/

/-- The lead that the pass gives to a node that is no entry and no document. -/
def otherLead (style : Style) (trail : List (Frame Int)) (lead : Text) : Text :=
  if !hasBreak lead then lead
  else if atTop trail then settle lead
  else moveTo (indentBelow trail + style.step) lead

theorem placeOther_eq (style : Style) (trail : List (Frame Int)) (n : Node Origin) :
    placeOther style trail (indentBelow trail) n = n.withLead (otherLead style trail n.lead) := by
  rw [placeOther, otherLead]
  split
  · rw [withLead_self]
  · split <;> rfl

theorem Visits.of_placeOther {ts : List Tree}
    (h : placeNode style trail carry n = .ok ⟨placeOther style trail (indentBelow trail) n, none,
      carry⟩)
    (hs : VisitsAll style (⟨n.kind, otherLead style trail n.lead, none⟩ :: trail) none
      n.children ts) :
    Visits style trail carry n ⟨(), n.kind, otherLead style trail n.lead, n.text, ts⟩ carry := by
  rw [placeOther_eq] at h
  obtain ⟨hk, hl, ht, hc⟩ := withLead_parts (otherLead style trail n.lead) n
  have := Visits.of_placed h (copyOf_withLead _ n) (by simpa only [hl, hc] using hs)
  simpa only [hk, hl, ht] using this

/-- A scalar and the end of a document get their leads. -/
theorem visits_leaf {kind : Kind} {lead text : Text} (hkind : kind = .scalar ∨ kind = .documentEnd)
    (hn : n.untagged = ⟨(), kind, lead, text, []⟩) :
    Visits style trail carry n ⟨(), kind, otherLead style trail lead, text, []⟩ carry := by
  rw [untagged_eq, Node.mk.injEq] at hn
  obtain ⟨-, hk, rfl, rfl, hc⟩ := hn
  have hplace : placeNode style trail carry n =
      .ok ⟨placeOther style trail (indentBelow trail) n, none, carry⟩ := by
    rw [placeNode, placeWith, hk]
    rcases hkind with rfl | rfl <;> rfl
  have hnil : VisitsAll style (⟨n.kind, otherLead style trail n.lead, none⟩ :: trail) none
      n.children [] := by
    rw [eq_nil_of_untaggedAll hc]
    exact .nil
  have hvisits := Visits.of_placeOther hplace hnil
  rwa [hk] at hvisits

theorem visits_scalar {lead text : Text} (hn : n.untagged = Head.scalarNode lead text) :
    Visits style trail carry n (Head.scalarNode (otherLead style trail lead) text) carry :=
  visits_leaf (.inl rfl) hn

end YamlIndent
