import YamlIndent.Proofs.Copies
import YamlIndent.Proofs.Pass.Cursors

/-!
# The two passes

The pass over cursors does what the pass below a trail does. Where the cursors show the trail, each
node finds the same place, and the cursors show the trail after it, with what the pass then knows of
a stop. A pass that has stopped hands back what it comes to, which is to leave it.

## Main definitions

* `ByCursor.Agrees`, `ByCursor.AgreesAll`: the two passes end alike.

## Main results

* `ByCursor.agrees_visit`, `ByCursor.agreesAll_visitAll`: the passes over some nodes end alike.
* `ByCursor.reindent_eq`: so do the passes over a whole tree, or over a part of one.
-/

namespace YamlIndent

open Node

variable {style : Style} {stop : Option Nat} {f g : Forest} {path : List Nat}
  {trail trail' : List (Frame Int)} {carry : Option Int} {n : Node Origin} {ns : List (Node Origin)}

/-! ### Placing a node -/

theorem atTop_congr (h : trail.map (·.kind) = trail'.map (·.kind)) :
    atTop trail = atTop trail' := by
  have hkinds (t : List (Frame Int)) :
      atTop t = ((t.map (·.kind)).take 2).any (· == .document) := by
    rw [atTop, ← List.map_take, List.any_map]
    rfl
  rw [hkinds, hkinds, h]

theorem inItem_congr (h : trail.map (·.kind) = trail'.map (·.kind)) :
    inItem trail = inItem trail' := by
  have hkinds (t : List (Frame Int)) :
      inItem t = ((t.map (·.kind))[1]?).any (· == .sequenceEntry) := by
    rw [inItem, List.getElem?_map, Option.any_map]
  rw [hkinds, hkinds, h]

/-- Of a trail, only the kinds matter to a node's place, once the indent in effect is known. -/
theorem placeWith_congr (h : trail.map (·.kind) = trail'.map (·.kind)) (style : Style)
    (indent : Int) (carry : Option Int) (n : Node Origin) :
    placeWith style trail indent carry n = placeWith style trail' indent carry n := by
  simp only [placeWith, placeItem, startItem, placePair, placeOther, atTop_congr h, inItem_congr h]

namespace ByCursor

/-- Below a trail that is shown a node finds its place. -/
theorem placeWith_eq (h : f.Shows path trail false) (style : Style) (carry : Option Int)
    (n : Node Origin) :
    let resolved := (f.make n.kind n.lead path.head?).1.resolve path.head?
    placeWith style (resolved.1.above path.head?) resolved.2.toInt carry n =
      placeNode style trail carry n := by
  intro resolved
  have hmade := h.make n.kind n.lead path.head?
  rw [hmade.resolve_eq, placeWith_congr (hmade.resolve path.head?).above_eq]
  rfl

/-! ### A pass that has stopped -/

theorem visit_of_isStopped {parent : Option Nat} (h : f.isStopped parent = true) :
    visit style stop f parent carry n = .ok ⟨n, carry, f, []⟩ := by
  rw [visit, if_pos h]
  rfl

/-- A pass that has stopped hands back the nodes that it comes to. -/
theorem visitAll_of_isStopped {parent : Nat} (h : f.isStopped (some parent) = true)
    (ns : List (Node Origin)) : visitAll style stop f parent carry ns = .ok ⟨ns, f, []⟩ := by
  induction ns with
  | nil =>
    rw [visitAll]
    rfl
  | cons n ns ih =>
    rw [visitAll, visit_of_isStopped h, ok_bind, ih]
    rfl

/-! ### Ends of the two passes -/

/-- The pass over cursors ends like the pass below a trail: with the same fault, or with the same
node, indent and log, and cursors that show the trail and whether the pass has stopped. -/
inductive Agrees (path : List Nat) (trail : List (Frame Int)) :
    Except TreeError Visited → Except TreeError YamlIndent.Visited → Prop
  | error (e : TreeError) : Agrees path trail (.error e) (.error e)
  | ok {v : YamlIndent.Visited} {g : Forest} (h : g.Shows path trail v.stopped) :
    Agrees path trail (.ok ⟨v.node, v.carry, g, v.log⟩) (.ok v)

/-- The passes over some nodes end alike. -/
inductive AgreesAll (path : List Nat) (trail : List (Frame Int)) :
    Except TreeError VisitedAll → Except TreeError YamlIndent.VisitedAll → Prop
  | error (e : TreeError) : AgreesAll path trail (.error e) (.error e)
  | ok {v : YamlIndent.VisitedAll} {g : Forest} (h : g.Shows path trail v.stopped) :
    AgreesAll path trail (.ok ⟨v.nodes, g, v.log⟩) (.ok v)

section Equations

variable {parent : Option Nat} (hs : f.isStopped parent = false)

include hs

/-- A node that finds no place is refused. -/
theorem visit_of_error {e : TreeError}
    (hp : placeWith style (((f.make n.kind n.lead parent).1.resolve parent).1.above parent)
      ((f.make n.kind n.lead parent).1.resolve parent).2.toInt carry n = .error e) :
    visit style stop f parent carry n = .error e := by
  rw [visit, hs, if_neg Bool.false_ne_true]
  dsimp only
  split <;> rename_i he <;> cases hp.symm.trans he
  rfl

/-- A node in place is visited by visiting its children. -/
theorem visit_of_ok {placed : Placed}
    (hp : placeWith style (((f.make n.kind n.lead parent).1.resolve parent).1.above parent)
      ((f.make n.kind n.lead parent).1.resolve parent).2.toInt carry n = .ok placed) :
    visit style stop f parent carry n = do
      let inner ← visitAll style stop
        (((f.make n.kind n.lead parent).1.resolve parent).1.settle (f.make n.kind n.lead parent).2
          placed) (f.make n.kind n.lead parent).2 none placed.node.children
      let node ← placed.node.withChildren inner.nodes
      let stopsHere := stop.isSome && n.tag == stop
      return {
        node
        carry := placed.carry
        forest :=
          if stopsHere then inner.forest.halt (f.make n.kind n.lead parent).2 else inner.forest
        log :=
          (if placed.node.lead = n.lead then [] else [.moved n.kind n.lead placed.node.lead]) ++
            inner.log ++ (if stopsHere then [.stopped n.kind] else []) } := by
  rw [visit, hs, if_neg Bool.false_ne_true]
  dsimp only
  split <;> rename_i he <;> cases hp.symm.trans he
  rfl

end Equations

/-- The passes over a node end alike if those over its children do. -/
theorem agrees_of_children (h : f.Shows path trail false)
    (hbelow : ∀ placed frame p g, placeNode style trail carry n = .ok placed →
      g.Shows (p :: path) (frame :: trail) false →
      AgreesAll (p :: path) (frame :: trail) (visitAll style stop g p none placed.node.children)
        (YamlIndent.visitAll style stop (frame :: trail) none placed.node.children)) :
    Agrees path trail (visit style stop f path.head? carry n)
      (YamlIndent.visit style stop trail carry n) := by
  have hplace := placeWith_eq h style carry n
  have hgoes : f.isStopped path.head? = false := by rw [h.isStopped_eq, Bool.and_false]
  cases hp : placeNode style trail carry n with
  | error e =>
    rw [visit_of_error hgoes (hplace.trans hp), YamlIndent.visit_of_error hp]
    exact .error e
  | ok placed =>
    have hinner := hbelow _ _ _ _ hp (h.enter n (parts_of_placeNode hp).1)
    rw [visit_of_ok hgoes (hplace.trans hp), YamlIndent.visit_of_ok hp]
    generalize visitAll style stop _ _ none placed.node.children = x,
      hy : YamlIndent.visitAll style stop _ none placed.node.children = y at hinner ⊢
    cases hinner with
    | error e => exact .error e
    | @ok w g hg =>
      have hlength := (copiesOf_visitAll hy).length_eq
      rw [ok_bind, withChildren_eq_rebuild hlength, ok_bind]
      refine Agrees.ok (v := placed.visited stop n w) ?_
      rw [Placed.visited]
      cases stop.isSome && n.tag == stop with
      | true =>
        rw [if_pos rfl, Bool.or_true]
        exact hg.halt.1.tail
      | false =>
        rw [if_neg Bool.false_ne_true, Bool.or_false]
        exact hg.tail

/-- The passes over siblings end alike. -/
theorem agreesAll_visitAll {p : Nat} (h : f.Shows (p :: path) trail false)
    (ns : List (Node Origin)) (carry : Option Int) :
    AgreesAll (p :: path) trail (visitAll style stop f p carry ns)
      (YamlIndent.visitAll style stop trail carry ns) := by
  induction ns using siblings_induction generalizing f p path trail carry with
  | nil =>
    rw [visitAll, YamlIndent.visitAll]
    exact .ok (v := ⟨[], false, []⟩) h
  | cons n ns ihchildren ih =>
    have hfirst : Agrees (p :: path) trail (visit style stop f (some p) carry n)
        (YamlIndent.visit style stop trail carry n) :=
      agrees_of_children h fun _ _ _ _ hp hg => ihchildren _ _ _ _ hp hg none
    rw [visitAll, YamlIndent.visitAll]
    generalize visit style stop f (some p) carry n = x,
      YamlIndent.visit style stop trail carry n = y at hfirst ⊢
    cases hfirst with
    | error e => exact .error e
    | @ok v g hg =>
      rw [ok_bind, ok_bind]
      cases hs : v.stopped with
      | true =>
        rw [hs] at hg
        rw [visitAll_of_isStopped hg.isStopped_eq, ok_bind, List.append_nil]
        exact .ok (v := ⟨v.node :: ns, true, v.log⟩) hg
      | false =>
        rw [hs] at hg
        have hrest := ih hg v.carry
        rw [if_neg Bool.false_ne_true]
        generalize visitAll style stop g p v.carry ns = x,
          YamlIndent.visitAll style stop trail v.carry ns = y at hrest ⊢
        cases hrest with
        | error e => exact .error e
        | @ok w g hg => exact .ok (v := ⟨v.node :: w.nodes, w.stopped, v.log ++ w.log⟩) hg

/-- The passes over a node end alike. -/
theorem agrees_visit (h : f.Shows path trail false) (n : Node Origin) :
    Agrees path trail (visit style stop f path.head? carry n)
      (YamlIndent.visit style stop trail carry n) :=
  agrees_of_children h fun placed _ _ _ _ hg => agreesAll_visitAll hg placed.node.children none

/-! ### Whole passes -/

/-- The passes over a tree, or over a part of one, end alike. -/
theorem exists_agrees_reindent (style : Style) (n : Node Origin) (stop : Option Nat)
    (ancestors : List (Node Origin)) :
    ∃ path, Agrees path (ancestors.reverse.map fun a => ⟨a.kind, a.lead, none⟩)
      (reindent style n stop ancestors) (YamlIndent.reindent style n stop ancestors) := by
  obtain ⟨path, hhead, h⟩ := (Forest.Shows.nil (f := {}) false).exists_makePath ancestors
  rw [List.append_nil] at h
  refine ⟨path, ?_⟩
  have hresolved := h.resolve path.head?
  rw [List.head?_nil] at hhead
  rw [reindent, hhead]
  exact agrees_visit hresolved n

/-- The pass over cursors gives the node, the indent and the log that the pass gives, or fails as it
does, for all trees, stops and nodes above. -/
theorem reindent_eq (style : Style) (n : Node Origin) (stop : Option Nat)
    (ancestors : List (Node Origin)) :
    (reindent style n stop ancestors).map (fun v => (v.node, v.carry, v.log)) =
      (YamlIndent.reindent style n stop ancestors).map fun v => (v.node, v.carry, v.log) := by
  obtain ⟨path, h⟩ := exists_agrees_reindent style n stop ancestors
  generalize reindent style n stop ancestors = x,
    YamlIndent.reindent style n stop ancestors = y at h
  cases h <;> rfl

/-- Where the pass gives a node, the pass over cursors gives the same one with the same log. -/
theorem exists_reindent {ancestors : List (Node Origin)} {v : YamlIndent.Visited}
    (h : YamlIndent.reindent style n stop ancestors = .ok v) :
    ∃ w, reindent style n stop ancestors = .ok w ∧ w.node = v.node ∧ w.log = v.log := by
  have heq := reindent_eq style n stop ancestors
  rw [h] at heq
  obtain ⟨w, hw, hparts⟩ := exists_of_map_eq_ok heq
  rw [Prod.mk.injEq, Prod.mk.injEq] at hparts
  exact ⟨w, hw, hparts.1, hparts.2.2⟩

end ByCursor

end YamlIndent
