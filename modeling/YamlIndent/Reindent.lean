import YamlIndent.Results
import YamlIndent.Style
import YamlIndent.Trail
import YamlIndent.Tree.Origin

/-!
# Reindenting a tree

One pass over a tree gives every node that starts a line its column: one step inside the entry it
belongs to, or in line with the token that its block was opened with. Documents and what stands at
the top of them keep their columns. Only leads change.

An entry notes on its frame the indent that what is below it starts from. The entries of one
sequence agree on the indent of the first that starts a line, which each hands to the next. A stop
after some node leaves what follows it in its document as it was.

## Main definitions

* `placeItem`, `placePair`, `placeOther`, `placeWith`, `placeNode`: one node in place, the indent it
  notes, and what it hands to its next sibling.
* `visit`, `visitAll`: the pass below a trail.
* `Event`: what a pass reports.
* `reindent`: the pass over a tree, with a stop and the nodes above it.

## Main results

* `size_placeWith_le`: placing a node adds no nodes below it.
* `visit_of_error`, `visit_of_ok`: a node is refused, or visited with its children.
* `siblings_induction`: induction over the siblings that a pass goes through.
-/

namespace YamlIndent

open Node

/-! ### Placing one node -/

/-- A node in place, the indent it notes, and the indent it hands to its next sibling. -/
structure Placed where
  node : Node Origin
  indent : Option Int
  carry : Option Int

/-- A document is among the two nearest nodes above. -/
def atTop (trail : List (Frame Int)) : Bool :=
  (trail.take 2).any (·.kind == .document)

/-- The block that a node is an entry of is the value of a sequence entry. -/
def inItem (trail : List (Frame Int)) : Bool :=
  (trail[1]?).any (·.kind == .sequenceEntry)

/-- The lead of the first node below a node that has a text of its own, looking through collections
and the entries of sequences; empty if there is none. -/
def firstContentLead {α : Type} (n : Node α) : Text :=
  (n.preorder.tail.find? fun m => !m.isCollection && m.kind != .sequenceEntry).elim [] (·.lead)

/-- The lead behind the `-` of a sequence entry: that of the first entry of a sequence which is its
value, else that of its first content. -/
def gapAfterItem {α : Type} (n : Node α) : Text :=
  match n.children with
  | ⟨_, .sequence, _, _, first :: _⟩ :: _ => first.lead
  | _ => firstContentLead n

/-- A gap that stays on its line. -/
def isInlineGap (lead : Text) : Bool :=
  !lead.isEmpty && !hasBreak lead

mutual

/-- The node with the gap in front of its first token as one space, if there is a gap and it stays
on its line. -/
def singleGap : Node Origin → Node Origin
  | ⟨tag, kind, lead, text, children⟩ =>
    if kind.isCollection && !children.isEmpty then
      rebuild (singleGapFirst children) ⟨tag, kind, lead, text, children⟩
    else if isInlineGap lead then withLead [' '] ⟨tag, kind, lead, text, children⟩
    else ⟨tag, kind, lead, text, children⟩

/-- Nodes with the gap in front of the first token of the first as one space. -/
def singleGapFirst : List (Node Origin) → List (Node Origin)
  | [] => []
  | first :: others => singleGap first :: others

end

/-- A sequence entry with the gap behind its `-` as the style has it. -/
def spaceItem (style : Style) (n : Node Origin) : Except TreeError (Node Origin) :=
  if style.singleGap then
    match n.children with
    | [] => return n
    | value :: _ => n.withChildren [singleGap value]
  else return n

/-- A sequence entry on its column, and the indent that it hands to the next. One that starts a line
goes one step inside the indent that its sequence shares. -/
def startItem (style : Style) (trail : List (Frame Int)) (indent : Int) (carry : Option Int)
    (n : Node Origin) : Node Origin × Int × Option Int :=
  let shared := carry.getD indent
  if hasBreak n.lead then
    if atTop trail then
      (n.withLead (realign (indentOf n.lead) n.lead), indentOf n.lead, carry)
    else (n.withLead (moveTo (shared + style.step) n.lead), shared + style.step, some shared)
  else (n, if atTop trail then indent else indent + style.step, carry)

/-- The indent that what is below a sequence entry at a column starts from. What opens behind its
`-` lines up with the first token there. -/
def itemIndent (style : Style) (column : Int) (n : Node Origin) : Int :=
  let gap := gapAfterItem n
  if isInlineGap gap then column + gap.length + 1 - style.step else column

/-- A sequence entry in place. -/
def placeItem (style : Style) (trail : List (Frame Int)) (indent : Int) (carry : Option Int)
    (n : Node Origin) : Except TreeError Placed := do
  let (started, column, carry) := startItem style trail indent carry n
  let spaced ← spaceItem style started
  return ⟨spaced, some (itemIndent style column spaced), carry⟩

/-- A mapping entry that starts a line goes one step inside the indent in effect; one behind a `-`
stands there already. -/
def placePair (style : Style) (trail : List (Frame Int)) (indent : Int) (n : Node Origin) :
    Node Origin × Int :=
  let top := atTop trail
  if hasBreak n.lead then
    if top then (n.withLead (realign (indentOf n.lead) n.lead), indentOf n.lead)
    else (n.withLead (moveTo (indent + style.step) n.lead), indent + style.step)
  else if inItem trail then (n, indent + style.step)
  else if top then (n, indent)
  else (n.withLead (realign indent n.lead), indent + style.step)

/-- Any other node that starts a line goes one step inside the indent in effect. -/
def placeOther (style : Style) (trail : List (Frame Int)) (indent : Int) (n : Node Origin) :
    Node Origin :=
  if !hasBreak n.lead then n
  else if atTop trail then n.withLead (realign (indentOf n.lead) n.lead)
  else n.withLead (moveTo (indent + style.step) n.lead)

/-- A node with its lead in place, where an indent is in effect. -/
def placeWith (style : Style) (trail : List (Frame Int)) (indent : Int) (carry : Option Int)
    (n : Node Origin) : Except TreeError Placed :=
  match n.kind with
  | .sequenceEntry => placeItem style trail indent carry n
  | .mappingEntry =>
    let (placed, column) := placePair style trail indent n
    return ⟨placed, some column, carry⟩
  | .document => return ⟨n.withLead (realignDocument 0 n.lead), none, carry⟩
  | .stream | .documentEnd | .mapping | .sequence | .scalar =>
    return ⟨placeOther style trail indent n, none, carry⟩

/-- A node below a trail with its lead in place. -/
def placeNode (style : Style) (trail : List (Frame Int)) (carry : Option Int) (n : Node Origin) :
    Except TreeError Placed :=
  placeWith style trail ((basis trail).indent Int.ofNat) carry n

/-! ### Placing adds no nodes -/

theorem size_eq {α : Type} (n : Node α) : n.size = 1 + sizeAll n.children := by
  cases n
  rw [size]

theorem size_withLead (lead : Text) (n : Node Origin) : (n.withLead lead).size = n.size := by
  unfold withLead
  split <;> simp [size_eq]

theorem size_rebuild {children : List (Node Origin)} {n : Node Origin}
    (h : sizeAll children = sizeAll n.children) : (n.rebuild children).size = n.size := by
  unfold rebuild
  split <;> simp [size_eq, h]

mutual

theorem size_singleGap : (n : Node Origin) → (singleGap n).size = n.size
  | ⟨_, _, _, _, children⟩ => by
    rw [singleGap]
    split
    · exact size_rebuild (size_singleGapFirst children)
    · split <;> simp [size_withLead]

theorem size_singleGapFirst :
    (ns : List (Node Origin)) → sizeAll (singleGapFirst ns) = sizeAll ns
  | [] => rfl
  | first :: others => by simp only [singleGapFirst, sizeAll, size_singleGap first]

end

theorem size_withChildren_le {children : List (Node Origin)} {n m : Node Origin}
    (hs : sizeAll children ≤ sizeAll n.children) (h : n.withChildren children = .ok m) :
    m.size ≤ n.size := by
  obtain ⟨b, -, h⟩ := exists_of_bind_eq_ok h
  split at h
  · cases h
    exact Nat.le_refl _
  · cases h
    simp only [size_eq]
    omega

theorem size_spaceItem_le {style : Style} {n m : Node Origin} (h : spaceItem style n = .ok m) :
    m.size ≤ n.size := by
  unfold spaceItem at h
  split at h
  · split at h
    · cases h
      exact Nat.le_refl _
    · rename_i value others hc
      refine size_withChildren_le ?_ h
      simp only [hc, sizeAll, size_singleGap]
      omega
  · cases h
    exact Nat.le_refl _

theorem size_startItem (style : Style) (trail : List (Frame Int)) (indent : Int)
    (carry : Option Int) (n : Node Origin) :
    (startItem style trail indent carry n).1.size = n.size := by
  unfold startItem
  simp only
  split
  · split <;> exact size_withLead _ _
  · rfl

theorem size_placeItem_le {style : Style} {trail : List (Frame Int)} {indent : Int}
    {carry : Option Int} {n : Node Origin} {r : Placed}
    (h : placeItem style trail indent carry n = .ok r) : r.node.size ≤ n.size := by
  obtain ⟨spaced, hs, h⟩ := exists_of_bind_eq_ok h
  cases h
  exact size_startItem style trail indent carry n ▸ size_spaceItem_le hs

/-- Placing a node adds no nodes below it. -/
theorem size_placeWith_le {style : Style} {trail : List (Frame Int)} {indent : Int}
    {carry : Option Int} {n : Node Origin} {r : Placed}
    (h : placeWith style trail indent carry n = .ok r) : r.node.size ≤ n.size := by
  have pair : (placePair style trail indent n).1.size = n.size := by
    unfold placePair
    simp only
    split
    · split <;> exact size_withLead _ _
    · split
      · rfl
      · split
        · rfl
        · exact size_withLead _ _
  have other : (placeOther style trail indent n).size = n.size := by
    unfold placeOther
    split
    · rfl
    · split <;> exact size_withLead _ _
  unfold placeWith at h
  split at h
  · exact size_placeItem_le h
  · cases h
    exact Nat.le_of_eq pair
  · cases h
    exact Nat.le_of_eq (size_withLead _ _)
  all_goals
    cases h
    exact Nat.le_of_eq other

theorem size_placeNode_le {style : Style} {trail : List (Frame Int)} {carry : Option Int}
    {n : Node Origin} {r : Placed} (h : placeNode style trail carry n = .ok r) :
    r.node.size ≤ n.size :=
  size_placeWith_le h

/-! ### The pass -/

/-- What a pass reports. -/
inductive Event where
  /-- A node of some kind got another lead. -/
  | moved (kind : Kind) (old new : Text)
  /-- What follows a node of some kind stays as it is. -/
  | stopped (kind : Kind)
  deriving DecidableEq, Repr

/-- A node after the pass, the indent it hands to its next sibling, whether what follows stays as it
is, and what was reported. -/
structure Visited where
  node : Node Origin
  carry : Option Int
  stopped : Bool
  log : List Event

/-- Siblings after the pass, whether what follows stays as it is, and what was reported. -/
structure VisitedAll where
  nodes : List (Node Origin)
  stopped : Bool
  log : List Event

mutual

/-- The pass over the node `n` and what is below it. A stop holds to the end of the document that it
is in. -/
def visit (style : Style) (stop : Option Nat) (trail : List (Frame Int)) (carry : Option Int)
    (n : Node Origin) : Except TreeError Visited :=
  match _h : placeNode style trail carry n with
  | .error e => .error e
  | .ok placed => do
    let frame : Frame Int := ⟨n.kind, placed.node.lead, placed.indent⟩
    let inner ← visitAll style stop (frame :: trail) none placed.node.children
    let stopsHere := stop.isSome && n.tag == stop
    return {
      node := placed.node.rebuild inner.nodes
      carry := placed.carry
      stopped := (inner.stopped || stopsHere) && n.kind != .document
      log :=
        (if placed.node.lead = n.lead then [] else [.moved n.kind n.lead placed.node.lead]) ++
          inner.log ++ (if stopsHere then [.stopped n.kind] else []) }
termination_by 2 * n.size
decreasing_by
  have := size_placeNode_le _h
  rw [size_eq placed.node] at this
  omega

/-- The pass over siblings in turn. -/
def visitAll (style : Style) (stop : Option Nat) (trail : List (Frame Int)) (carry : Option Int)
    (ns : List (Node Origin)) : Except TreeError VisitedAll :=
  match ns with
  | [] => return ⟨[], false, []⟩
  | n :: ns => do
    let first ← visit style stop trail carry n
    if first.stopped then return ⟨first.node :: ns, true, first.log⟩
    else
      let others ← visitAll style stop trail first.carry ns
      return ⟨first.node :: others.nodes, others.stopped, first.log ++ others.log⟩
termination_by 2 * sizeAll ns + 1
decreasing_by
  · simp only [sizeAll]
    omega
  · simp only [sizeAll, size_eq n]
    omega

end

/-! ### A visit and the visits of the children -/

/-- What a visit of the node `n`, which is in place, gives where the visits of its children give
`inner`. -/
def Placed.visited (placed : Placed) (stop : Option Nat) (n : Node Origin) (inner : VisitedAll) :
    Visited where
  node := placed.node.rebuild inner.nodes
  carry := placed.carry
  stopped := (inner.stopped || (stop.isSome && n.tag == stop)) && n.kind != .document
  log :=
    (if placed.node.lead = n.lead then [] else [.moved n.kind n.lead placed.node.lead]) ++
      inner.log ++ (if stop.isSome && n.tag == stop then [.stopped n.kind] else [])

section Equations

variable {style : Style} {stop : Option Nat} {trail : List (Frame Int)} {carry : Option Int}
  {n : Node Origin} {placed : Placed}

/-- A node that finds no place is refused. -/
theorem visit_of_error {e : TreeError} (h : placeNode style trail carry n = .error e) :
    visit style stop trail carry n = .error e := by
  rw [visit]
  split <;> rename_i he <;> cases h.symm.trans he
  rfl

/-- A node that finds its place is visited with its children. -/
theorem visit_of_ok (h : placeNode style trail carry n = .ok placed) :
    visit style stop trail carry n =
      (visitAll style stop (⟨n.kind, placed.node.lead, placed.indent⟩ :: trail) none
        placed.node.children).map (placed.visited stop n) := by
  rw [visit]
  split <;> rename_i he <;> cases h.symm.trans he
  dsimp only
  cases visitAll style stop _ none placed.node.children <;> rfl

theorem exists_of_visit {v : Visited} (h : visit style stop trail carry n = .ok v) :
    ∃ placed inner, placeNode style trail carry n = .ok placed ∧
      visitAll style stop (⟨n.kind, placed.node.lead, placed.indent⟩ :: trail) none
        placed.node.children = .ok inner ∧ placed.visited stop n inner = v := by
  cases hp : placeNode style trail carry n with
  | error e =>
    rw [visit_of_error hp] at h
    cases h
  | ok placed =>
    rw [visit_of_ok hp] at h
    obtain ⟨inner, hinner, hv⟩ := exists_of_map_eq_ok h
    exact ⟨placed, inner, rfl, hinner, hv⟩

end Equations

/-- What holds of no siblings, and holds of siblings if it does of the children of the first one in
place and of the others, holds of all siblings. -/
@[elab_as_elim]
theorem siblings_induction {motive : List (Node Origin) → Prop} (ns : List (Node Origin))
    (nil : motive [])
    (cons : ∀ n ns, (∀ style trail carry placed, placeNode style trail carry n = .ok placed →
      motive placed.node.children) → motive ns → motive (n :: ns)) : motive ns := by
  induction hsize : sizeAll ns using Nat.strongRecOn generalizing ns with
  | ind size ih =>
    cases ns with
    | nil => exact nil
    | cons n ns =>
      rw [sizeAll] at hsize
      refine cons n ns (fun style trail carry placed hp => ih _ ?_ _ rfl) (ih _ ?_ _ rfl)
      · have hle := size_placeNode_le hp
        rw [size_eq placed.node] at hle
        omega
      · rw [size_eq n] at hsize
        omega

/-! ### A whole pass -/

/-- The pass over a tree, or over the part of one that stands below `ancestors`, the root first.
What follows the node at `stop` in its document stays as it is. -/
def reindent (style : Style) (n : Node Origin) (stop : Option Nat := none)
    (ancestors : List (Node Origin) := []) : Except TreeError Visited :=
  let trail := ancestors.reverse.map fun a => (⟨a.kind, a.lead, none⟩ : Frame Int)
  visit style stop trail none n

end YamlIndent
