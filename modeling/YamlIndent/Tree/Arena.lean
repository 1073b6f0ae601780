import YamlIndent.Tree.Origin

/-!
# Nodes that share their children

In an arena nodes are told apart by number, in the order in which they were made. A node's children
are a list that it may share with its copies: a copy under another lead keeps the list, so that a
child added to either is a child of both, while a copy with other children has a list of its own.

## Main definitions

* `Arena`, `Arena.Cell`: nodes by number, and their lists of children.
* `Arena.make`, `Arena.addChild`, `Arena.withLead`, `Arena.withChildren`: the operations.
* `Arena.tree?`: the tree below a node.

## Main results

* `Arena.childrenOf_addChild`: a child added to a node is a child of all nodes that share its list.
-/

namespace YamlIndent

/-- A node by its own content and the number of its list of children. -/
structure Arena.Cell where
  kind : Kind
  lead : Text
  text : Text
  list : Nat
  deriving DecidableEq, Repr

/-- Nodes by number, and their lists of children by number. -/
structure Arena where
  cells : Array Arena.Cell := #[]
  lists : Array (List Nat) := #[]
  deriving DecidableEq, Repr

namespace Arena

/-- The children of a node. -/
def childrenOf (a : Arena) (c : Cell) : List Nat :=
  (a.lists[c.list]?).getD []

/-- A new node, which is the last. -/
def make (a : Arena) (kind : Kind) (lead text : Text) (children : List Nat) : Arena × Nat :=
  (⟨a.cells.push ⟨kind, lead, text, a.lists.size⟩, a.lists.push children⟩, a.cells.size)

/-- The arena with a child more at the end of a node's list. -/
def addChild (a : Arena) (c : Cell) (child : Nat) : Arena :=
  { a with lists := a.lists.modify c.list (· ++ [child]) }

/-- The node with a lead: the node itself, if it has that lead already, else a copy that shares its
list of children. -/
def withLead (a : Arena) (n : Nat) (c : Cell) (lead : Text) : Arena × Nat :=
  if lead = c.lead then (a, n)
  else ({ a with cells := a.cells.push { c with lead } }, a.cells.size)

/-- The node with some children: the node itself, if they are its children already, else a copy with
a list of its own. -/
def withChildren (a : Arena) (n : Nat) (c : Cell) (children : List Nat) :
    Except TreeError (Arena × Nat) := do
  if ← sameItems (· == ·) children (a.childrenOf c) then return (a, n)
  else return a.make c.kind c.lead c.text children

/-- The tree below a node, its nodes tagged by number, if it is no more than `depth` nodes deep. -/
def treeWithin (a : Arena) : Nat → Nat → Option (Node Nat)
  | 0, _ => none
  | depth + 1, n => do
    let c ← a.cells[n]?
    let children ← (a.childrenOf c).mapM (a.treeWithin depth)
    return ⟨n, c.kind, c.lead, c.text, children⟩

/-- The tree below a node, unless the node is its own descendant. Else no way down is longer than
the arena has nodes. -/
def tree? (a : Arena) (n : Nat) : Option (Node Nat) :=
  a.treeWithin a.cells.size n

/-- A child added to a node is a child of all nodes that share its list, and of no others. -/
theorem childrenOf_addChild (a : Arena) (c d : Cell) (child : Nat)
    (h : c.list < a.lists.size) :
    (a.addChild c child).childrenOf d =
      if d.list = c.list then a.childrenOf d ++ [child] else a.childrenOf d := by
  unfold addChild childrenOf
  by_cases hd : d.list = c.list
  · simp [hd, h, Array.getElem_modify]
  · simp [hd, Array.getElem?_modify, Ne.symm hd]

end Arena

end YamlIndent
