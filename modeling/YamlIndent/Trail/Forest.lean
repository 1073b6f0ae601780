import YamlIndent.Trail

/-!
# Cursors and their notes

A cursor stands on a node and has the cursor of a node above as its parent, or none. Cursors are
told apart by number, and a parent is older than its children. Each cursor carries notes under keys;
a look for the nearest note goes from a cursor up. To resolve the baseline at a cursor is to look
for the indent in effect there, and to note it at the cursor that it was measured from.

## Main definitions

* `Note`, `Cursor`, `Forest`: cursors by number, and the notes that they carry.
* `Forest.chain`: the cursors from one up.
* `Forest.nearest`, `Forest.firstEnclosing`, `Forest.ancestor?`, `Forest.root`: looking upwards.
* `Forest.resolve`: resolving the baseline.

## Main results

* `Notes.get?_put`, `Forest.get?_put`: what a note changes.
-/

namespace YamlIndent

/-- What a note says. A note may hold other values, of a type `α`, which nothing here looks into. -/
inductive Note (α : Type := Empty) where
  | null
  | bool (b : Bool)
  | int (n : Int)
  | other (value : α)
  deriving DecidableEq, Repr

/-- Notes in the order of their keys. -/
abbrev Notes (α : Type := Empty) := List (String × Note α)

variable {α : Type}

namespace Notes

/-- The note under a key. -/
def get? (notes : Notes α) (key : String) : Option (Note α) :=
  (notes.find? (·.1 == key)).map (·.2)

/-- The notes with one under a key, in place of any before. -/
def put (key : String) (note : Note α) : Notes α → Notes α
  | [] => [(key, note)]
  | (k, n) :: rest =>
    if k == key then (key, note) :: rest
    else if key < k then (key, note) :: (k, n) :: rest
    else (k, n) :: put key note rest

theorem get?_cons (first : String × Note α) (rest : Notes α) (key : String) :
    get? (first :: rest) key = if first.1 = key then some first.2 else rest.get? key := by
  rw [get?, List.find?_cons]
  by_cases h : first.1 = key
  · rw [h, beq_self_eq_true, if_pos rfl, Option.map_some]
  · rw [beq_false_of_ne h, if_neg h]
    rfl

/-- A note that is put under a key is there, and those under other keys are as they were. -/
theorem get?_put (notes : Notes α) (key k : String) (note : Note α) :
    (notes.put key note).get? k = if key = k then some note else notes.get? k := by
  induction notes with
  | nil => exact get?_cons _ _ _
  | cons first rest ih =>
    rw [put, get?_cons first]
    by_cases hkey : first.1 = key
    · rw [if_pos (by simpa using hkey), get?_cons, hkey]
      split <;> rfl
    · rw [if_neg (by simpa using hkey)]
      split
      · rw [get?_cons, get?_cons]
      · rw [get?_cons, ih]
        split
        · rename_i h
          rw [if_neg fun hk => hkey (h.trans hk.symm)]
        · rfl

end Notes

/-- A cursor: its node's kind and lead, its parent, and its notes. -/
structure Cursor (α : Type := Empty) where
  kind : Kind
  lead : Text
  parent : Option Nat
  notes : Notes α := []
  deriving DecidableEq, Repr

namespace Cursor

/-- The key of the note that holds an indent. -/
def indentKey : String := "last_indent"

/-- The note of an indent at a cursor, if it says anything. -/
def indent? (c : Cursor α) : Option (Note α) :=
  match c.notes.get? indentKey with
  | some .null | none => none
  | some note => some note

/-- A cursor as a node above a place. -/
def frame (c : Cursor α) : Frame (Note α) :=
  ⟨c.kind, c.lead, c.indent?⟩

end Cursor

/-- Cursors by number. -/
structure Forest (α : Type := Empty) where
  cursors : Array (Cursor α) := #[]
  deriving DecidableEq, Repr

namespace Forest

/-- The cursor of a number. -/
def get? (f : Forest α) (n : Nat) : Option (Cursor α) :=
  f.cursors[n]?

/-- A new cursor, which is the last. -/
def make (f : Forest α) (kind : Kind) (lead : Text) (parent : Option Nat) : Forest α × Nat :=
  (⟨f.cursors.push ⟨kind, lead, parent, []⟩⟩, f.cursors.size)

/-- New cursors on nodes, each the parent of the next and the first below `parent`; the number is
that of the last. -/
def makePath (f : Forest α) (parent : Option Nat) : List (Kind × Text) → Forest α × Option Nat
  | [] => (f, parent)
  | (kind, lead) :: path =>
    let (f, n) := f.make kind lead parent
    f.makePath (some n) path

/-! ### Looking upwards -/

/-- A cursor and the cursors above it, nearest first. -/
def chain (f : Forest α) (n : Nat) : List Nat :=
  match (f.get? n).bind (·.parent) with
  | some p => if p < n then n :: f.chain p else [n]
  | none => [n]
termination_by n

/-- The cursors above one and itself, with their numbers, nearest first. -/
def line (f : Forest α) (n : Nat) : List (Nat × Cursor α) :=
  (f.chain n).filterMap fun m => (f.get? m).map (m, ·)

/-- The nearest note under a key at a cursor or above. -/
def nearest (f : Forest α) (n : Nat) (key : String) : Option (Note α) :=
  (f.line n).findSome? fun (_, c) => c.notes.get? key

/-- The nearest cursor at or above one whose node is of a kind. -/
def firstEnclosing (f : Forest α) (n : Nat) (kind : Kind) : Option Nat :=
  ((f.line n).find? (·.2.kind == kind)).map (·.1)

/-- The cursor so many levels up; the cursor itself for none or fewer. -/
def ancestor? (f : Forest α) (n : Nat) (levels : Int) : Option Nat :=
  (f.chain n)[levels.toNat]?

/-- The uppermost cursor above one. -/
def root (f : Forest α) (n : Nat) : Nat :=
  (f.chain n).getLastD n

/-- The kinds and leads of the nodes from a cursor up. -/
def path (f : Forest α) (n : Nat) : List (Kind × Text) :=
  (f.line n).map fun (_, c) => (c.kind, c.lead)

/-- A cursor by the kinds of its nodes, from the root down. -/
def shown (f : Forest α) (n : Nat) : String :=
  "Cursor(" ++ "/".intercalate ((f.path n).reverse.map (·.1.name)) ++ ")"

/-! ### Notes -/

/-- The forest with a note at a cursor. -/
def put (f : Forest α) (n : Nat) (key : String) (note : Note α) : Forest α :=
  ⟨f.cursors.modify n fun c => { c with notes := c.notes.put key note }⟩

/-- A note at a cursor leaves the others as they were. -/
theorem get?_put (f : Forest α) (n m : Nat) (key : String) (note : Note α) :
    (f.put n key note).get? m =
      if n = m then (f.get? m).map fun c => { c with notes := c.notes.put key note }
      else f.get? m :=
  Array.getElem?_modify

/-- The forest with a note at the nearest cursor at or above one whose node is of a kind, and
whether there is such a cursor. -/
def putOnAncestor (f : Forest α) (n : Nat) (kind : Kind) (key : String) (note : Note α) :
    Forest α × Bool :=
  match f.firstEnclosing n kind with
  | some m => (f.put m key note, true)
  | none => (f, false)

/-- What the indent in effect at a cursor rests on. -/
def basisAt (f : Forest α) (n : Nat) : Basis (Note α) :=
  basis ((f.line n).map (·.2.frame))

/-- The indent in effect at a cursor, noted at the cursor it was measured from; the margin where
there is no cursor. -/
def resolve (f : Forest α) : Option Nat → Forest α × Note α
  | none => (f, .int 0)
  | some n =>
    let noted := match f.basisAt n with
      | .measured level column =>
        match (f.line n)[level]? with
        | some (m, _) => f.put m Cursor.indentKey (.int column)
        | none => f
      | .noted _ | .margin => f
    (noted, (f.basisAt n).indent fun column => .int column)

end Forest

end YamlIndent
