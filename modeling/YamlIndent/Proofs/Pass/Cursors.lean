import YamlIndent.Proofs.Pass.Indents
import YamlIndent.Proofs.Recording

/-!
# The pass over cursors

The pass may be made over cursors instead of a trail. It makes a cursor for each node that it comes
to, resolves the baseline above it, which may record a measured indent there, notes the indent of an
entry, and puts the cursor on the node in place. A stop is a note too, on the cursor of the document
around, which every node looks for before anything is done to it.

Cursors show a trail if their nodes are those of its frames and if they note the same indents, but
for the columns that are recorded and what is noted of a stop. A trail that is shown is shown in the
same way after each step of the pass.

## Main definitions

* `ByCursor.visit`, `ByCursor.visitAll`, `ByCursor.reindent`: the pass over cursors.
* `Cursor.StandsFor`: a cursor on the node of a frame.
* `Forest.Shows`: cursors that show a trail, and whether the pass has stopped below it.
* `Forest.AllStandFor`: every cursor stands for a frame of some kind.

## Main results

* `Forest.Shows.isStopped_eq`, `Forest.Shows.resolve_eq`: what is told below a trail that is shown.
* `Forest.Shows.enter`, `Forest.Shows.halt`: a trail is shown, with one more frame, when a node is
  put in place, and with a stop when the pass stops.
* `Forest.AllStandFor.enter`, `Forest.AllStandFor.halt`: so do all cursors stand for frames.
-/

namespace YamlIndent

open Node

/-! ### Steps of the pass -/

/-- Whether a note says that something is so. -/
def Note.isTrue {α : Type} : Note α → Bool
  | null => false
  | bool b => b
  | int n => n != 0
  | other _ => true

/-- The number that a note says, zero for no number. -/
def Note.toInt {α : Type} : Note α → Int
  | int n => n
  | _ => 0

/-- The key of the note that stops a pass. -/
def Cursor.stopKey : String := "stop"

/-- A cursor that is put on a node in place, and notes the indent that the node notes. -/
def Cursor.settled {α : Type} (c : Cursor α) (placed : Placed) : Cursor α where
  kind := placed.node.kind
  lead := placed.node.lead
  parent := c.parent
  notes := placed.indent.elim c.notes fun i => c.notes.put indentKey (.int i)

namespace Forest

/-- The kinds and leads of the nodes from a place up, as a trail that notes nothing. -/
def above {α : Type} (f : Forest α) (parent : Option Nat) : List (Frame Int) :=
  (parent.elim [] f.line).map fun (_, c) => ⟨c.kind, c.lead, none⟩

/-- Whether the pass has stopped for what is below a cursor. -/
def isStopped {α : Type} (f : Forest α) : Option Nat → Bool
  | none => false
  | some n => (f.nearest n Cursor.stopKey).any Note.isTrue

/-- The forest with a stop noted on the cursor of the document around a cursor, or on the uppermost
one if there is no document. -/
def halt {α : Type} (f : Forest α) (n : Nat) : Forest α :=
  match f.putOnAncestor n .document Cursor.stopKey (.bool true) with
  | (g, true) => g
  | (g, false) => g.put (g.root n) Cursor.stopKey (.bool true)

/-- The forest with a cursor put on a node in place. -/
def settle {α : Type} (f : Forest α) (n : Nat) (placed : Placed) : Forest α :=
  ⟨f.cursors.modify n (·.settled placed)⟩

end Forest

namespace ByCursor

/-- A node after the pass, the indent it hands to its next sibling, the cursors, and what was
reported. -/
structure Visited where
  node : Node Origin
  carry : Option Int
  forest : Forest
  log : List Event

/-- Siblings after the pass, the cursors, and what was reported. -/
structure VisitedAll where
  nodes : List (Node Origin)
  forest : Forest
  log : List Event

mutual

/-- The pass over the node `n` and what is below it. -/
def visit (style : Style) (stop : Option Nat) (f : Forest) (parent : Option Nat)
    (carry : Option Int) (n : Node Origin) : Except TreeError Visited :=
  if f.isStopped parent then return ⟨n, carry, f, []⟩
  else
    let made := f.make n.kind n.lead parent
    let resolved := made.1.resolve parent
    match _h : placeWith style (resolved.1.above parent) resolved.2.toInt carry n with
    | .error e => .error e
    | .ok placed => do
      let inner ← visitAll style stop (resolved.1.settle made.2 placed) made.2 none
        placed.node.children
      let node ← placed.node.withChildren inner.nodes
      let stopsHere := stop.isSome && n.tag == stop
      return {
        node
        carry := placed.carry
        forest := if stopsHere then inner.forest.halt made.2 else inner.forest
        log :=
          (if placed.node.lead = n.lead then [] else [.moved n.kind n.lead placed.node.lead]) ++
            inner.log ++ (if stopsHere then [.stopped n.kind] else []) }
termination_by 2 * n.size
decreasing_by
  have := size_placeWith_le _h
  rw [size_eq placed.node] at this
  omega

/-- The pass over siblings in turn. -/
def visitAll (style : Style) (stop : Option Nat) (f : Forest) (parent : Nat) (carry : Option Int)
    (ns : List (Node Origin)) : Except TreeError VisitedAll :=
  match ns with
  | [] => return ⟨[], f, []⟩
  | n :: ns => do
    let first ← visit style stop f (some parent) carry n
    let others ← visitAll style stop first.forest parent first.carry ns
    return ⟨first.node :: others.nodes, others.forest, first.log ++ others.log⟩
termination_by 2 * sizeAll ns + 1
decreasing_by
  · simp only [sizeAll]
    omega
  · simp only [sizeAll, size_eq n]
    omega

end

/-- The pass over a tree, or over the part of one that stands below `ancestors`, the root first.
What follows the node at `stop` in its document stays as it is. -/
def reindent (style : Style) (n : Node Origin) (stop : Option Nat := none)
    (ancestors : List (Node Origin) := []) : Except TreeError Visited :=
  let made := Forest.makePath {} none (ancestors.map fun a => (a.kind, a.lead))
  visit style stop (made.1.resolve made.2).1 made.2 none n

end ByCursor

/-! ### A cursor and a frame -/

namespace Cursor

/-- A cursor on the node of a frame, which notes the indent that the frame notes, or has the column
recorded that is measured there. -/
structure StandsFor (c : Cursor) (frame : Frame Int) : Prop where
  kind_eq : c.kind = frame.kind
  lead_eq : c.lead = frame.lead
  indent?_eq : c.indent? = frame.indent.map .int ∨ c.indent? = frame.recorded?.map .int

/-- The cursor `d` is `c` at a later time: it stands for the frames that `c` stands for, and it has
the parent of `c` and what is noted there of a stop. -/
structure GoesOn (c d : Cursor) : Prop where
  parent_eq : d.parent = c.parent
  stop_eq : d.notes.get? stopKey = c.notes.get? stopKey
  standsFor (frame : Frame Int) (h : c.StandsFor frame) : d.StandsFor frame

theorem GoesOn.refl (c : Cursor) : c.GoesOn c :=
  ⟨rfl, rfl, fun _ h => h⟩

variable {c d : Cursor} {frame : Frame Int}

namespace StandsFor

theorem column?_eq (h : c.StandsFor frame) : c.frame.column? = frame.column? := by
  rw [Frame.column?, Frame.column?, ← h.lead_eq]
  rfl

/-- What a cursor notes is recorded at the frame. -/
theorem recorded?_of_noted (h : c.StandsFor frame) {i : Note} (hi : c.indent? = some i) :
    ∃ j, frame.recorded? = some j ∧ i = .int j := by
  rcases h.indent?_eq with he | he <;> rw [hi] at he
  · obtain ⟨j, hj, rfl⟩ := Option.map_eq_some_iff.1 he.symm
    exact ⟨j, by rw [Frame.recorded?, hj]; rfl, rfl⟩
  · obtain ⟨j, hj, rfl⟩ := Option.map_eq_some_iff.1 he.symm
    exact ⟨j, hj, rfl⟩

/-- What is measured at a cursor that notes nothing is recorded at the frame. -/
theorem recorded?_of_unset (h : c.StandsFor frame) (hi : c.indent? = none) :
    frame.recorded? = c.frame.column?.map Int.ofNat := by
  have hnone : frame.indent = none := by
    rcases h.indent?_eq with he | he <;> rw [hi] at he
    · exact Option.map_eq_none_iff.1 he.symm
    · rw [eq_comm, Option.map_eq_none_iff, Frame.recorded?] at he
      cases hf : frame.indent with
      | none => rfl
      | some i => rw [hf] at he; cases he
  rw [Frame.recorded?, hnone, h.column?_eq]
  rfl

/-- A cursor with another note that is no indent stands for the same frame. -/
theorem put (h : c.StandsFor frame) {key : String} (hkey : key ≠ indentKey) (note : Note) :
    StandsFor { c with notes := c.notes.put key note } frame := by
  refine ⟨h.kind_eq, h.lead_eq, ?_⟩
  have hi : indent? { c with notes := c.notes.put key note } = c.indent? := by
    rw [indent?, indent?, Notes.get?_put, if_neg hkey]
  rw [hi]
  exact h.indent?_eq

end StandsFor

/-- A cursor goes on when its column is recorded. -/
theorem Records.goesOn {column : Nat} (h : c.Records d column) : c.GoesOn d where
  parent_eq := h.parent_eq
  stop_eq := by rw [h.get?_eq, if_neg (by decide)]
  standsFor frame hc := by
    refine ⟨h.kind_eq.trans hc.kind_eq, h.lead_eq.trans hc.lead_eq, .inr ?_⟩
    have hcolumn : indentOf c.lead ≠ 0 := h.column_eq ▸ h.ne_zero
    rw [h.indent?_eq, hc.recorded?_of_unset h.unset, c.column?_eq_some h.startsLine hcolumn,
      h.column_eq]
    rfl

end Cursor

/-! ### Cursors that show a trail -/

/-- A stop below a frame is noted at the frame: it is that of a document, or the uppermost one. -/
def Frame.holdsStop (frame : Frame Int) (trail : List (Frame Int)) : Bool :=
  frame.kind == .document || trail.isEmpty

variable {f g : Forest} {n : Nat} {path : List Nat} {frame frame' : Frame Int}
  {trail : List (Frame Int)} {stopped : Bool}

namespace Frame

theorem holdsStop_nil (frame : Frame Int) : frame.holdsStop [] = true :=
  Bool.or_true _

theorem holdsStop_of_document (h : frame.kind = .document) (trail : List (Frame Int)) :
    frame.holdsStop trail = true := by
  rw [holdsStop, h]
  rfl

theorem holdsStop_cons_of_ne (h : frame.kind ≠ .document) :
    frame.holdsStop (frame' :: trail) = false := by
  rw [holdsStop, beq_false_of_ne h]
  rfl

end Frame

namespace Forest

/-- The cursors `path`, each the parent of the one before, show a trail, and tell whether the pass
has stopped for what is below it. -/
inductive Shows (f : Forest) : List Nat → List (Frame Int) → Bool → Prop
  | nil (stopped : Bool) : Shows f [] [] stopped
  | cons {c : Cursor} {n : Nat} {path : List Nat} {frame : Frame Int} {trail : List (Frame Int)}
      {stopped : Bool} (hc : f.get? n = some c) (hparent : f.parent? n = path.head?)
      (hframe : c.StandsFor frame)
      (hstop : c.notes.get? Cursor.stopKey =
        if frame.holdsStop trail && stopped then some (.bool true) else none)
      (h : Shows f path trail (!frame.holdsStop trail && stopped)) :
      Shows f (n :: path) (frame :: trail) stopped

/-! #### What is told -/

/-- A cursor that is found again with the parent that it had has the same cursor above. -/
theorem parent?_of_get? {c d : Cursor} (hc : f.get? n = some c) (hd : g.get? n = some d)
    (h : d.parent = c.parent) : g.parent? n = f.parent? n := by
  rw [parent?, parent?, hc, hd, Option.bind_some, Option.bind_some, h]

theorem nearest_eq {c : Cursor} (hc : f.get? n = some c) (key : String) :
    f.nearest n key =
      (c.notes.get? key).or ((f.parent? n).elim none fun p => f.nearest p key) := by
  rw [nearest, line_eq hc, List.findSome?_cons]
  dsimp only
  cases c.notes.get? key with
  | some note => rfl
  | none => cases f.parent? n <;> rfl

theorem firstEnclosing_eq {c : Cursor} (hc : f.get? n = some c) (kind : Kind) :
    f.firstEnclosing n kind =
      if c.kind = kind then some n
      else (f.parent? n).elim none fun p => f.firstEnclosing p kind := by
  rw [firstEnclosing, line_eq hc, List.find?_cons]
  split
  · rename_i h
    rw [if_pos (beq_iff_eq.1 h)]
    rfl
  · rename_i h
    rw [if_neg (beq_eq_false_iff_ne.1 h)]
    cases f.parent? n <;> rfl

theorem root_eq (f : Forest) (n : Nat) : f.root n = (f.parent? n).elim n f.root := by
  have hway : f.chain n = n :: f.way (f.parent? n) := f.way_some n
  rw [root, hway]
  cases f.parent? n with
  | none => rfl
  | some p =>
    have hp : f.chain p = p :: f.way (f.parent? p) := f.way_some p
    rw [Option.elim_some, root, way, hp]
    rfl

namespace Shows

theorem isEmpty_eq (h : f.Shows path trail stopped) : path.isEmpty = trail.isEmpty := by
  cases h <;> rfl

theorem get?_isSome (h : f.Shows path trail stopped) : ∀ m ∈ path, ∃ c, f.get? m = some c := by
  induction h with
  | nil => exact nofun
  | cons hc _ _ _ _ ih => exact List.forall_mem_cons.2 ⟨⟨_, hc⟩, ih⟩

theorem way_eq (h : f.Shows path trail stopped) : f.way path.head? = path := by
  induction h with
  | nil => rfl
  | cons _ hparent _ _ _ ih => rw [List.head?_cons, way_some, hparent, ih]

/-- The cursors that show a trail are older than any new one. -/
theorem lt_size (h : f.Shows path trail stopped) : ∀ m ∈ path, m < f.cursors.size := by
  intro m hm
  obtain ⟨c, hc⟩ := h.get?_isSome m hm
  exact (Array.getElem?_eq_some_iff.1 hc).1

/-- A stop below a frame is told above it, unless the frame is that of a document. -/
theorem tail (h : f.Shows (n :: path) (frame :: trail) stopped) :
    f.Shows path trail (stopped && frame.kind != .document) := by
  obtain _ | ⟨-, -, -, -, h⟩ := h
  cases trail with
  | nil =>
    cases h
    exact .nil _
  | cons frame' trail =>
    rw [Frame.holdsStop, List.isEmpty_cons, Bool.or_false, Bool.and_comm] at h
    exact h

/-- Cursors further up are older. -/
theorem lt_of_mem (h : f.Shows path trail stopped) (hparent : f.parent? n = path.head?) :
    ∀ m ∈ path, m < n := by
  induction h generalizing n with
  | nil => exact nofun
  | cons _ hp _ _ _ ih =>
    have hlt := of_decide_eq_true (Option.filter_eq_some_iff.1 hparent).2
    exact List.forall_mem_cons.2 ⟨hlt, fun m hm => (ih hp m hm).trans hlt⟩

/-- The kinds of the nodes above are those of the trail. -/
theorem above_eq (h : f.Shows path trail stopped) :
    (f.above path.head?).map (·.kind) = trail.map (·.kind) := by
  induction h with
  | nil => rfl
  | cons hc hparent hframe _ _ ih =>
    rw [List.map_cons, ← ih, ← hframe.kind_eq, above, List.head?_cons, Option.elim_some,
      line_eq hc, hparent]
    rfl

/-- The pass has stopped where the cursors tell so. -/
theorem isStopped_eq (h : f.Shows path trail stopped) :
    f.isStopped path.head? = (!path.isEmpty && stopped) := by
  induction h with
  | nil => rfl
  | @cons c n path frame trail stopped hc hparent hframe hstop h ih =>
    rw [List.head?_cons, isStopped, nearest_eq hc, hstop]
    have hrest : ((f.parent? n).elim none fun p => f.nearest p Cursor.stopKey).any Note.isTrue =
        (!trail.isEmpty && (!frame.holdsStop trail && stopped)) := by
      rw [hparent, ← h.isEmpty_eq, ← ih]
      cases path.head? <;> rfl
    cases stopped with
    | false =>
      rw [Bool.and_false, if_neg Bool.false_ne_true, Option.none_or, hrest]
      simp
    | true =>
      cases hholds : frame.holdsStop trail with
      | true => rfl
      | false =>
        rw [Frame.holdsStop, Bool.or_eq_false_iff] at hholds
        rw [Bool.false_and, if_neg Bool.false_ne_true, Option.none_or, hrest, Frame.holdsStop,
          hholds.1, hholds.2]
        rfl

/-- The baseline is the indent in effect below the trail. -/
theorem resolve_eq (h : f.Shows path trail stopped) :
    (f.resolve path.head?).2 = .int (indentBelow trail) := by
  induction h with
  | nil => rfl
  | @cons c n path frame trail stopped hc hparent hframe hstop h ih =>
    rw [List.head?_cons, indentBelow_eq]
    rcases c.indent_cases with ⟨i, hi⟩ | ⟨hi, hb, hcolumn⟩ | hsilent
    · obtain ⟨j, hj, rfl⟩ := hframe.recorded?_of_noted hi
      rw [resolve_of_noted hc hi, hj]
      rfl
    · rw [resolve_of_measured hc hi hb hcolumn, hframe.recorded?_of_unset hi,
        c.column?_eq_some hb hcolumn]
      rfl
    · rw [resolve_of_silent hc hsilent, hparent, ih, hframe.recorded?_of_unset hsilent.1,
        c.column?_eq_none hsilent]
      rfl

/-! #### What is shown after a step -/

/-- A trail is shown as long as the cursors that show it go on. -/
theorem of_goesOn (h : f.Shows path trail stopped)
    (hget : ∀ m ∈ path, ∀ c, f.get? m = some c → ∃ d, g.get? m = some d ∧ c.GoesOn d) :
    g.Shows path trail stopped := by
  induction h with
  | nil stopped => exact .nil stopped
  | cons hc hparent hframe hstop _ ih =>
    obtain ⟨hfirst, hrest⟩ := List.forall_mem_cons.1 hget
    obtain ⟨d, hd, hgoes⟩ := hfirst _ hc
    exact .cons hd ((parent?_of_get? hc hd hgoes.parent_eq).trans hparent)
      (hgoes.standsFor _ hframe) (hgoes.stop_eq.trans hstop) (ih hrest)

end Shows

/-! ### Steps -/

theorem get?_make (f : Forest) (kind : Kind) (lead : Text) (parent : Option Nat) (n : Nat) :
    (f.make kind lead parent).1.get? n =
      if n = (f.make kind lead parent).2 then some ⟨kind, lead, parent, []⟩ else f.get? n :=
  Array.getElem?_push

theorem get?_make_self (f : Forest) (kind : Kind) (lead : Text) (parent : Option Nat) :
    (f.make kind lead parent).1.get? (f.make kind lead parent).2 =
      some ⟨kind, lead, parent, []⟩ := by
  rw [get?_make, if_pos rfl]

theorem get?_make_of_some {c : Cursor} (h : f.get? n = some c) (kind : Kind) (lead : Text)
    (parent : Option Nat) : (f.make kind lead parent).1.get? n = some c := by
  have hlt : n < (f.make kind lead parent).2 := (Array.getElem?_eq_some_iff.1 h).1
  rw [get?_make, if_neg hlt.ne, h]

/-- A call leaves cursors that are not on its way. -/
theorem get?_resolve_of_not_mem {m : Option Nat} (h : n ∉ f.way m) :
    (f.resolve m).1.get? n = f.get? n := by
  have hresolves := f.resolves_resolve m
  generalize (f.resolve m).1 = g, (f.resolve m).2 = i at hresolves ⊢
  cases hresolves with
  | noted | margin => rfl
  | measured hway _ hrecords =>
    refine hrecords.get?_eq n fun he => h ?_
    rw [hway, he]
    exact List.mem_append_right _ List.mem_cons_self

/-- After a call there are the cursors that were there before, and each has gone on. -/
theorem rel_get?_resolve (f : Forest) (m : Option Nat) (n : Nat) :
    Option.Rel Cursor.GoesOn (f.get? n) ((f.resolve m).1.get? n) := by
  have hrefl : Option.Rel Cursor.GoesOn (f.get? n) (f.get? n) := by
    cases f.get? n with
    | none => exact .none
    | some c => exact .some (.refl c)
  have hresolves := f.resolves_resolve m
  generalize (f.resolve m).1 = g, (f.resolve m).2 = i at hresolves ⊢
  cases hresolves with
  | noted | margin => exact hrefl
  | @measured _ _ k column _ _ _ hrecords =>
    by_cases hk : n = k
    · obtain ⟨c, d, hc, hd, hr⟩ := hrecords.exists_records
      rw [hk, hc, hd]
      exact .some hr.goesOn
    · rw [hrecords.get?_eq n hk]
      exact hrefl

/-- The parent of a cursor is the cursor above it, if it is older. -/
theorem parent?_eq {c : Cursor} (hc : f.get? n = some c) (hparent : c.parent = path.head?)
    (hnew : ∀ m ∈ path, m < n) : f.parent? n = path.head? := by
  rw [parent?, hc, Option.bind_some, hparent]
  cases path with
  | nil => rfl
  | cons m path => simpa using hnew m List.mem_cons_self

theorem get?_settle (f : Forest) (n m : Nat) (placed : Placed) :
    (f.settle n placed).get? m =
      if n = m then (f.get? m).map (·.settled placed) else f.get? m :=
  Array.getElem?_modify

theorem halt_eq (f : Forest) (n : Nat) : f.halt n =
    f.put ((f.firstEnclosing n .document).getD (f.root n)) Cursor.stopKey (.bool true) := by
  rw [halt, putOnAncestor]
  cases f.firstEnclosing n .document <;> rfl

/-- A stop is noted at the cursor of a document itself, and at an uppermost cursor. -/
theorem halt_of_holds {c : Cursor} (hc : f.get? n = some c)
    (h : c.kind = .document ∨ f.parent? n = none) :
    f.halt n = f.put n Cursor.stopKey (.bool true) := by
  rw [halt_eq, firstEnclosing_eq hc, root_eq]
  by_cases hk : c.kind = .document
  · rw [if_pos hk, Option.getD_some]
  · rw [if_neg hk, h.resolve_left hk, Option.elim_none, Option.elim_none, Option.getD_none]

/-- A stop at any other cursor is one at the cursor above. -/
theorem halt_of_below {c : Cursor} {p : Nat} (hc : f.get? n = some c) (hk : c.kind ≠ .document)
    (hp : f.parent? n = some p) : f.halt n = f.halt p := by
  rw [halt_eq, halt_eq, firstEnclosing_eq hc, if_neg hk, root_eq, hp]
  rfl

namespace Shows

theorem make (h : f.Shows path trail stopped) (kind : Kind) (lead : Text) (parent : Option Nat) :
    (f.make kind lead parent).1.Shows path trail stopped :=
  h.of_goesOn fun _ _ c hc => ⟨c, get?_make_of_some hc kind lead parent, .refl c⟩

theorem resolve (h : f.Shows path trail stopped) (m : Option Nat) :
    (f.resolve m).1.Shows path trail stopped := by
  refine h.of_goesOn fun k _ c hc => ?_
  have hrel := f.rel_get?_resolve m k
  rw [hc] at hrel
  generalize (f.resolve m).1.get? k = d at hrel ⊢
  cases hrel with
  | some hgoes => exact ⟨_, rfl, hgoes⟩

/-- A trail is shown with the frame of a node in place below, where a new cursor is put on it. -/
theorem settle {c : Cursor} {placed : Placed} (h : f.Shows path trail false)
    (hc : f.get? n = some c) (hparent : c.parent = path.head?) (hnotes : c.notes = [])
    (hnew : ∀ m ∈ path, m < n) :
    (f.settle n placed).Shows (n :: path)
      (⟨placed.node.kind, placed.node.lead, placed.indent⟩ :: trail) false := by
  have hn : (f.settle n placed).get? n = some (c.settled placed) := by
    rw [get?_settle, if_pos rfl, hc, Option.map_some]
  refine .cons hn (parent?_eq hn hparent hnew) ⟨rfl, rfl, .inl ?_⟩ ?_ ?_
  · rw [Cursor.settled, hnotes]
    cases placed.indent <;> rfl
  · rw [Bool.and_false, Cursor.settled, hnotes]
    cases placed.indent <;> rfl
  · rw [Bool.and_false]
    refine h.of_goesOn fun m hm d hd => ⟨d, ?_, .refl d⟩
    rw [get?_settle, if_neg (hnew m hm).ne', hd]

/-- A trail is shown with the frame of a node in place below, where the pass comes to the node. -/
theorem enter (h : f.Shows path trail false) (n : Node Origin) {placed : Placed}
    (hkind : placed.node.kind = n.kind) :
    let made := f.make n.kind n.lead path.head?
    ((made.1.resolve path.head?).1.settle made.2 placed).Shows (made.2 :: path)
      (⟨n.kind, placed.node.lead, placed.indent⟩ :: trail) false := by
  intro made
  have hmade : made.1.Shows path trail false := h.make n.kind n.lead path.head?
  have hnew : ∀ m ∈ path, m < made.2 := h.lt_size
  have hself : (made.1.resolve path.head?).1.get? made.2 =
      some ⟨n.kind, n.lead, path.head?, []⟩ := by
    rw [get?_resolve_of_not_mem]
    · exact f.get?_make_self n.kind n.lead path.head?
    · rw [hmade.way_eq]
      exact fun hm => Nat.lt_irrefl _ (hnew _ hm)
  rw [← hkind]
  exact (hmade.resolve path.head?).settle hself rfl rfl hnew

/-- A trail is shown with more frames below that note nothing, where a path of new cursors is made
for them. -/
theorem exists_makePath (h : f.Shows path trail false) (nodes : List (Node Origin)) :
    ∃ made, (f.makePath path.head? (nodes.map fun a => (a.kind, a.lead))).2 = made.head? ∧
      (f.makePath path.head? (nodes.map fun a => (a.kind, a.lead))).1.Shows made
        (nodes.reverse.map (fun a => ⟨a.kind, a.lead, none⟩) ++ trail) false := by
  induction nodes generalizing f path trail with
  | nil => exact ⟨path, rfl, h⟩
  | cons a nodes ih =>
    have hshows : (f.make a.kind a.lead path.head?).1.Shows
        ((f.make a.kind a.lead path.head?).2 :: path) (⟨a.kind, a.lead, none⟩ :: trail) false := by
      have hself := f.get?_make_self a.kind a.lead path.head?
      refine .cons hself (parent?_eq hself rfl ?_) ⟨rfl, rfl, .inl rfl⟩ ?_ ?_
      · exact h.lt_size
      · rw [Bool.and_false]
        rfl
      · rw [Bool.and_false]
        exact h.make a.kind a.lead path.head?
    obtain ⟨made, hmade, hrest⟩ := ih hshows
    refine ⟨made, hmade, ?_⟩
    rw [List.reverse_cons, List.map_append, List.append_assoc]
    exact hrest

/-- A stop is told below a trail once it is noted at the cursor that holds it. -/
theorem put_stop {c : Cursor} (hc : f.get? n = some c) (hparent : f.parent? n = path.head?)
    (hframe : c.StandsFor frame) (hholds : frame.holdsStop trail = true)
    (h : f.Shows path trail false) :
    (f.put n Cursor.stopKey (.bool true)).Shows (n :: path) (frame :: trail) true := by
  have hself : (f.put n Cursor.stopKey (.bool true)).get? n =
      some { c with notes := c.notes.put Cursor.stopKey (.bool true) } := by
    rw [get?_put, if_pos rfl, hc, Option.map_some]
  refine .cons hself ((parent?_of_get? hc hself rfl).trans hparent) (hframe.put (by decide) _)
    ?_ ?_
  · rw [hholds, Notes.get?_put, if_pos rfl]
    rfl
  · rw [hholds]
    refine h.of_goesOn fun m hm d hd => ⟨d, ?_, .refl d⟩
    rw [get?_put, if_neg (h.lt_of_mem hparent m hm).ne', hd]

/-- A stop at a cursor is told below the trail from then on, and changes no newer cursor. -/
theorem halt (h : f.Shows (n :: path) (frame :: trail) stopped) :
    (f.halt n).Shows (n :: path) (frame :: trail) true ∧
      ∀ m, n < m → (f.halt n).get? m = f.get? m := by
  induction path generalizing n frame trail stopped with
  | nil =>
    obtain _ | ⟨hc, hparent, hframe, -, h⟩ := h
    cases h
    rw [halt_of_holds hc (.inr hparent)]
    refine ⟨put_stop hc hparent hframe frame.holdsStop_nil (.nil _), fun m hm => ?_⟩
    rw [get?_put, if_neg hm.ne]
  | cons p path ih =>
    obtain _ | ⟨hc, hparent, hframe, hstop, h⟩ := h
    by_cases hk : frame.kind = .document
    · have hholds := Frame.holdsStop_of_document hk trail
      rw [hholds] at h
      rw [halt_of_holds hc (.inl (hframe.kind_eq.trans hk))]
      refine ⟨put_stop hc hparent hframe hholds h, fun m hm => ?_⟩
      rw [get?_put, if_neg hm.ne]
    · rcases trail with _ | ⟨frame', trail⟩
      · cases h
      · have hholds : frame.holdsStop (frame' :: trail) = false := Frame.holdsStop_cons_of_ne hk
        have hp : p < n := h.lt_of_mem hparent p List.mem_cons_self
        obtain ⟨hshows, hleaves⟩ := ih h
        rw [halt_of_below hc (fun he => hk (hframe.kind_eq.symm.trans he)) hparent]
        have hself := (hleaves n hp).trans hc
        refine ⟨.cons hself ((parent?_of_get? hc hself rfl).trans hparent) hframe ?_ ?_,
          fun m hm => hleaves m (hp.trans hm)⟩
        · rw [hstop, hholds]
          rfl
        · rw [hholds]
          exact hshows

end Shows

/-! ### All cursors -/

/-- Every cursor stands for a frame of some kind. -/
def AllStandFor (f : Forest) (P : Frame Int → Prop) : Prop :=
  ∀ n c, f.get? n = some c → ∃ frame, P frame ∧ c.StandsFor frame

namespace AllStandFor

variable {P : Frame Int → Prop}

theorem empty : AllStandFor {} P := nofun

/-- So does the cursor that the pass makes for a node, if the node in place is such a frame. -/
theorem enter (hall : f.AllStandFor P) (h : f.Shows path trail false) (n : Node Origin)
    {placed : Placed} (hkind : placed.node.kind = n.kind)
    (hP : P ⟨n.kind, placed.node.lead, placed.indent⟩) :
    let made := f.make n.kind n.lead path.head?
    ((made.1.resolve path.head?).1.settle made.2 placed).AllStandFor P := by
  intro made k c hc
  by_cases hk : made.2 = k
  · obtain _ | ⟨hself, -, hframe, -, -⟩ := h.enter n hkind
    rw [← hk] at hc
    obtain rfl := Option.some.inj (hself.symm.trans hc)
    exact ⟨_, hP, hframe⟩
  · rw [get?_settle, if_neg hk] at hc
    have hrel := made.1.rel_get?_resolve path.head? k
    rw [get?_make, if_neg (Ne.symm hk), hc] at hrel
    generalize hd : f.get? k = d at hrel
    cases hrel with
    | some hgoes =>
      obtain ⟨frame, hframe, hd⟩ := hall k _ hd
      exact ⟨frame, hframe, hgoes.standsFor frame hd⟩

/-- So they do when a stop is noted. -/
theorem halt (hall : f.AllStandFor P) (n : Nat) : (f.halt n).AllStandFor P := by
  intro k c hc
  rw [halt_eq, get?_put] at hc
  split at hc
  · obtain ⟨d, hd, rfl⟩ := Option.map_eq_some_iff.1 hc
    obtain ⟨frame, hframe, hd⟩ := hall k d hd
    exact ⟨frame, hframe, hd.put (by decide) _⟩
  · exact hall k c hc

end AllStandFor

end Forest

end YamlIndent
