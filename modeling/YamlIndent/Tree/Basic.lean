import YamlIndent.Text.Basic

/-!
# Syntax trees that keep every character

A node owns the text in front of it (its lead: blanks, breaks and comments) and a text of its own,
so that printing a tree gives back what it was read from. Any node may stand anywhere: which trees a
source text has is a matter of the reader.

## Main definitions

* `Kind`: the closed set of node kinds, and their names.
* `Node`: a tree whose nodes carry tags, and `Tree` for a tree without tags.
* `Node.print`: the text of a tree.
* `Node.preorder`, `Node.outline`, `Node.findEntry`: looking through a tree.
* `Node.number`, `Node.paths`: the positions of a tree's nodes in preorder.

## Main results

* `Node.length_preorder`: a tree has as many nodes as its size says.
-/

namespace YamlIndent

/-- The kinds of node. -/
inductive Kind where
  | stream
  | document
  | documentEnd
  | mapping
  | mappingEntry
  | sequence
  | sequenceEntry
  | scalar
  deriving DecidableEq, Repr

namespace Kind

/-- The name of a kind. -/
def name : Kind → String
  | stream => "stream"
  | document => "document"
  | documentEnd => "document_end"
  | mapping => "mapping"
  | mappingEntry => "mapping_entry"
  | sequence => "sequence"
  | sequenceEntry => "sequence_entry"
  | scalar => "scalar"

/-- Every kind. -/
def all : List Kind :=
  [stream, document, documentEnd, mapping, mappingEntry, sequence, sequenceEntry, scalar]

/-- The kind of a name. -/
def ofName? (name : String) : Option Kind :=
  all.find? (·.name == name)

/-- Mappings and sequences hold entries and no text of their own. -/
def isCollection (k : Kind) : Bool :=
  k == mapping || k == sequence

end Kind

/-- What an operation on a tree may refuse. -/
inductive TreeError where
  /-- A mapping entry has not just a key and a value. -/
  | entryArity
  /-- A mapping entry has no key. -/
  | missingKey
  /-- A list of children has not the length of the list it replaces. -/
  | childCount
  /-- No kind has this name. -/
  | unknownKind
  deriving DecidableEq, Repr

/-- What was refused, in words. -/
def TreeError.message : TreeError → String
  | entryArity => "a mapping entry has a key and a value"
  | missingKey => "a mapping entry has a key"
  | childCount => "a node keeps the number of its children"
  | unknownKind => "no such kind of node"

/-- A tree whose nodes carry tags. -/
structure Node (α : Type) where
  tag : α
  kind : Kind
  /-- What stands between the node and the text before it. -/
  lead : Text
  /-- A scalar's value, the `-` of a sequence entry, the colon of a mapping entry, or the mark of a
  document. -/
  text : Text
  children : List (Node α)

/-- A tree without tags. -/
abbrev Tree := Node Unit

variable {α β : Type}

namespace Node

/-- A node that holds entries and no text of its own. -/
def isCollection (n : Node α) : Bool :=
  n.kind.isCollection

/-! ### Size and order -/

mutual

/-- The number of nodes of a tree. -/
def size : Node α → Nat
  | ⟨_, _, _, _, children⟩ => 1 + sizeAll children

/-- The number of nodes of some trees. -/
def sizeAll : List (Node α) → Nat
  | [] => 0
  | n :: ns => n.size + sizeAll ns

end

mutual

/-- The nodes of a tree, each before its children. -/
def preorder : Node α → List (Node α)
  | ⟨tag, kind, lead, text, children⟩ =>
    ⟨tag, kind, lead, text, children⟩ :: preorderAll children

/-- The nodes of some trees in turn. -/
def preorderAll : List (Node α) → List (Node α)
  | [] => []
  | n :: ns => n.preorder ++ preorderAll ns

end

mutual

/-- The nodes of a tree with the number of nodes above each, each before its children. -/
def outline (depth : Nat) : Node α → List (Nat × Node α)
  | ⟨tag, kind, lead, text, children⟩ =>
    (depth, ⟨tag, kind, lead, text, children⟩) :: outlineAll (depth + 1) children

/-- The nodes of some trees with the number of nodes above each. -/
def outlineAll (depth : Nat) : List (Node α) → List (Nat × Node α)
  | [] => []
  | n :: ns => n.outline depth ++ outlineAll depth ns

end

mutual

/-- The nodes of a tree, each with the nodes above it from the root down. -/
def paths (above : List (Node α)) : Node α → List (List (Node α) × Node α)
  | ⟨tag, kind, lead, text, children⟩ =>
    (above, ⟨tag, kind, lead, text, children⟩) ::
      pathsAll (above ++ [⟨tag, kind, lead, text, children⟩]) children

/-- The nodes of some trees, each with the nodes above it. -/
def pathsAll (above : List (Node α)) : List (Node α) → List (List (Node α) × Node α)
  | [] => []
  | n :: ns => n.paths above ++ pathsAll above ns

end

mutual

/-- The tree with its nodes tagged by position, the root at `start`. -/
def numberFrom (start : Nat) : Node α → Node Nat
  | ⟨_, kind, lead, text, children⟩ => ⟨start, kind, lead, text, numberAll (start + 1) children⟩

/-- Trees with their nodes tagged by position, the first root at `start`. -/
def numberAll (start : Nat) : List (Node α) → List (Node Nat)
  | [] => []
  | n :: ns => n.numberFrom start :: numberAll (start + n.size) ns

end

/-- The tree with its nodes tagged by their positions in preorder. -/
def number (n : Node α) : Node Nat :=
  n.numberFrom 0

mutual

/-- The tree with other tags. -/
def mapTag (f : α → β) : Node α → Node β
  | ⟨tag, kind, lead, text, children⟩ => ⟨f tag, kind, lead, text, mapTagAll f children⟩

/-- Trees with other tags. -/
def mapTagAll (f : α → β) : List (Node α) → List (Node β)
  | [] => []
  | n :: ns => n.mapTag f :: mapTagAll f ns

end

mutual

theorem length_preorder : (n : Node α) → n.preorder.length = n.size
  | ⟨_, _, _, _, children⟩ => by
    simp only [preorder, size, List.length_cons, length_preorderAll children]
    omega

theorem length_preorderAll : (ns : List (Node α)) → (preorderAll ns).length = sizeAll ns
  | [] => rfl
  | n :: ns => by
    simp only [preorderAll, sizeAll, List.length_append, length_preorder n, length_preorderAll ns]

end

theorem preorderAll_append (ns ms : List (Node α)) :
    preorderAll (ns ++ ms) = preorderAll ns ++ preorderAll ms := by
  induction ns with
  | nil => rfl
  | cons n ns ih => rw [List.cons_append, preorderAll, preorderAll, ih, List.append_assoc]

/-! ### Printing -/

mutual

/-- The text of a tree. The text of a mapping entry stands between its key and its value, any other
node's in front of its children. -/
def print : Node α → Except TreeError Text
  | ⟨_, .mappingEntry, lead, text, children⟩ =>
    match children with
    | [key, value] => do
      let key ← key.print
      let value ← value.print
      return lead ++ key ++ text ++ value
    | _ => throw .entryArity
  | ⟨_, _, lead, text, children⟩ => do
    let inner ← printAll children
    return lead ++ text ++ inner

/-- The text of some trees in turn. -/
def printAll : List (Node α) → Except TreeError Text
  | [] => return []
  | n :: ns => do
    let first ← n.print
    let others ← printAll ns
    return first ++ others

end

/-! ### Looking up entries -/

/-- The first mapping entry among some nodes whose key has the text `key`. -/
def firstEntry (key : Text) : List (Node α) → Except TreeError (Option (Node α))
  | [] => return none
  | n :: ns =>
    if n.kind = .mappingEntry then
      match n.children with
      | [] => throw .missingKey
      | k :: _ => if k.text = key then return some n else firstEntry key ns
    else firstEntry key ns

/-- The first mapping entry of a tree whose key has the text `key`. -/
def findEntry (root : Node α) (key : Text) : Except TreeError (Option (Node α)) :=
  firstEntry key root.preorder

end Node

end YamlIndent
