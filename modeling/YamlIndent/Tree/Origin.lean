import YamlIndent.Tree.Basic

/-!
# Where the nodes of a result come from

A pass over a tree gives back the nodes it did not change and makes copies of the others. A node's
tag tells the two apart: the position of the node in the tree that the pass was given, or none for a
copy. A node is copied when its lead changes, and when any of its children is another node than
before.

## Main definitions

* `Origin`: the tag of a node.
* `Node.withLead`, `Node.rebuild`, `Node.withChildren`: a node with another lead or other children.
* `sameItems`: comparing two lists from the left until they differ.

## Main results

* `Node.withChildren_eq_rebuild`: as many children as before are never refused.
-/

namespace YamlIndent

/-- The position of a node in the tree a pass was given, or none for a copy. -/
abbrev Origin := Option Nat

/-- Whether two lists hold the same items; the first difference decides, and lists that differ only
in length are refused. -/
def sameItems {α : Type} (same : α → α → Bool) : List α → List α → Except TreeError Bool
  | [], [] => return true
  | a :: as, b :: bs => if same a b then sameItems same as bs else return false
  | [], _ :: _ | _ :: _, [] => throw .childCount

namespace Node

/-- The tree as a pass is given it, its nodes tagged by their positions. -/
def tagged {α : Type} (n : Node α) : Node Origin :=
  n.number.mapTag some

/-- Two nodes of a pass are one node of the tree it was given. -/
def same (a b : Node Origin) : Bool :=
  a.tag.isSome && a.tag == b.tag

/-- The node with this lead: itself, if it has that lead already. -/
def withLead (lead : Text) (n : Node Origin) : Node Origin :=
  if lead = n.lead then n else ⟨none, n.kind, lead, n.text, n.children⟩

/-- The node with these children: itself, if they are its children already. -/
def rebuild (children : List (Node Origin)) (n : Node Origin) : Node Origin :=
  match sameItems same children n.children with
  | .ok true => n
  | _ => ⟨none, n.kind, n.lead, n.text, children⟩

/-- The node with these children, which are refused if they begin or go on like its own and are not
as many. -/
def withChildren (children : List (Node Origin)) (n : Node Origin) :
    Except TreeError (Node Origin) := do
  if ← sameItems same children n.children then return n
  else return ⟨none, n.kind, n.lead, n.text, children⟩

theorem sameItems_isOk {α : Type} (same : α → α → Bool) {as bs : List α}
    (h : as.length = bs.length) : ∃ b, sameItems same as bs = .ok b := by
  induction as generalizing bs with
  | nil => cases bs <;> simp_all [sameItems, pure, Except.pure]
  | cons a as ih =>
    cases bs with
    | nil => simp at h
    | cons b bs =>
      rw [sameItems]
      split
      · exact ih (by simpa using h)
      · exact ⟨false, rfl⟩

/-- As many children as before are never refused. -/
theorem withChildren_eq_rebuild {children : List (Node Origin)} {n : Node Origin}
    (h : children.length = n.children.length) :
    n.withChildren children = .ok (n.rebuild children) := by
  obtain ⟨b, hb⟩ := sameItems_isOk same h
  cases b <;> simp [withChildren, rebuild, hb, bind, Except.bind, pure, Except.pure]

end Node

end YamlIndent
