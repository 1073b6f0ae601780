import YamlIndent.Lead
import YamlIndent.Tree.Basic

/-!
# Trails and the indent in effect

A trail holds what a place in a tree knows of the nodes above it, the nearest first. Each of its
frames may note the indent that the node's content starts from. Where no frame notes one, the indent
in effect is measured from the nearest node above that starts a line off the margin.

## Main definitions

* `Frame`: a node above a place, with the indent that it notes.
* `Basis`, `basis`: what the indent in effect rests on.
* `Basis.indent`: the indent in effect.
-/

namespace YamlIndent

/-- A node above a place: its kind, its lead, and the indent that it notes. -/
structure Frame (α : Type) where
  kind : Kind
  lead : Text
  indent : Option α
  deriving DecidableEq, Repr

/-- What the indent in effect at the end of a trail rests on. -/
inductive Basis (α : Type) where
  /-- A frame notes it. -/
  | noted (indent : α)
  /-- The node `level` frames up starts a line at this column. -/
  | measured (level : Nat) (column : Nat)
  /-- Nothing speaks for a column but the margin. -/
  | margin
  deriving DecidableEq, Repr

variable {α : Type}

namespace Basis

/-- The same basis, seen from one frame further down. -/
def below : Basis α → Basis α
  | measured level column => measured (level + 1) column
  | b => b

/-- The indent in effect, where `ofColumn` makes an indent of a column. -/
def indent (ofColumn : Nat → α) : Basis α → α
  | noted i => i
  | measured _ column => ofColumn column
  | margin => ofColumn 0

end Basis

/-- The column at which a frame's node starts its line, unless that is the margin. -/
def Frame.column? (f : Frame α) : Option Nat :=
  if hasBreak f.lead && indentOf f.lead != 0 then some (indentOf f.lead) else none

/-- What the indent in effect below a trail rests on: the nearest frame that notes an indent or
starts a line off the margin. -/
def basis : List (Frame α) → Basis α
  | [] => .margin
  | f :: above =>
    match f.indent, f.column? with
    | some i, _ => .noted i
    | none, some column => .measured 0 column
    | none, none => (basis above).below

end YamlIndent
