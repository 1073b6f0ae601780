import YamlIndent.Proofs.Pass.Simulation

/-!
# The course of a pass

A pass comes to the root, from a node in place to its children, and from a node to its next sibling
unless it stops. Over a tree of ranked nodes it is orderly wherever it comes to. Whatever a pass
reports happens somewhere in its course, and a pass over cursors makes them there.

## Main definitions

* `ComesTo`: the trails, indents and nodes that the pass comes to.
* `Orderly`: what holds wherever the pass comes to.
* `MovesIn`, `LeavesFrame`: what happens in the course of a pass.

## Main results

* `Orderly.inside`, `Orderly.next`, `ComesTo.orderly`: what a step keeps holds throughout.
* `exists_reindent`: the pass over a tree of ranked nodes refuses nothing.
* `movesIn_of_reindent`: what the pass reports happens where the pass comes to.
* `standsFor_of_reindent`: a cursor of the pass over cursors stands for a node that was put in place
  where the pass comes to.
-/

namespace YamlIndent

open Node

variable {style : Style} {stop : Option Nat} {root n : Node Origin} {ns : List (Node Origin)}
  {trail : List (Frame Int)} {carry : Option Int} {placed : Placed}

/-! ### What a pass comes to -/

/-- The pass over `root` comes to some siblings, with a trail above them and an indent that was
handed to the first. -/
inductive ComesTo (style : Style) (stop : Option Nat) (root : Node Origin) :
    List (Frame Int) → Option Int → List (Node Origin) → Prop
  | start : ComesTo style stop root [] none [root]
  /-- From a node in place to its children. -/
  | inside {trail : List (Frame Int)} {carry : Option Int} {n : Node Origin}
      {ns : List (Node Origin)} {placed : Placed}
      (h : ComesTo style stop root trail carry (n :: ns))
      (hp : placeNode style trail carry n = .ok placed) :
      ComesTo style stop root (⟨n.kind, placed.node.lead, placed.indent⟩ :: trail) none
        placed.node.children
  /-- From a node to its next sibling, if the pass does not stop. -/
  | next {trail : List (Frame Int)} {carry : Option Int} {n : Node Origin}
      {ns : List (Node Origin)} {v : Visited}
      (h : ComesTo style stop root trail carry (n :: ns))
      (hv : visit style stop trail carry n = .ok v) (hs : v.stopped = false) :
      ComesTo style stop root trail v.carry ns

/-! ### A whole pass -/

/-- What holds wherever the pass comes to: trail and carry are in bounds, and the siblings are some
that may stand there, the first of them spaced ahead or not. -/
structure Orderly (style : Style) (trail : List (Frame Int)) (carry : Option Int)
    (ns : List (Node Origin)) : Prop where
  sound : Sound style trail
  carried : InBounds style carry
  siblings : ∃ b ms, ns = spacedFirstIf b ms ∧
    ∀ m ∈ ms, (∀ f ∈ trail.head?, m.kind ∈ f.kind.below) ∧ ∀ x ∈ m.preorder, x.Ranked

namespace Orderly

/-- The first sibling is a node that may stand there, spaced ahead or not. -/
theorem exists_first (h : Orderly style trail carry (n :: ns)) :
    (∃ (b : Bool) (m : Node Origin), n = m.spacedIf b ∧
      (∀ f ∈ trail.head?, m.kind ∈ f.kind.below) ∧ ∀ x ∈ m.preorder, x.Ranked) ∧
      ∀ m ∈ ns, (∀ f ∈ trail.head?, m.kind ∈ f.kind.below) ∧ ∀ x ∈ m.preorder, x.Ranked := by
  obtain ⟨b, _ | ⟨m, ms⟩, he, hms⟩ := h.siblings
  · cases b <;> simp [spacedFirstIf, singleGapFirst] at he
  · rw [spacedFirstIf_cons, List.cons.injEq] at he
    obtain ⟨rfl, rfl⟩ := he
    obtain ⟨hm, hms⟩ := List.forall_mem_cons.1 hms
    exact ⟨⟨b, m, rfl, hm⟩, hms⟩

theorem kind_mem (h : Orderly style trail carry (n :: ns)) :
    ∀ f ∈ trail.head?, n.kind ∈ f.kind.below := by
  obtain ⟨⟨b, m, rfl, hm, -⟩, -⟩ := h.exists_first
  rw [kind_spacedIf]
  exact hm

/-- Every node that the pass comes to finds its place. -/
theorem exists_placed (h : Orderly style trail carry (n :: ns)) :
    ∃ placed, placeNode style trail carry n = .ok placed := by
  obtain ⟨⟨b, m, rfl, -, hranked⟩, -⟩ := h.exists_first
  have hslim : m.Slim style := fun _ => (hranked m (mem_preorder_self m)).2
  exact exists_placeNode style trail carry (hslim.spacedIf b)

theorem inside (h : Orderly style trail carry (n :: ns))
    (hp : placeNode style trail carry n = .ok placed) :
    Orderly style (⟨n.kind, placed.node.lead, placed.indent⟩ :: trail) none
      placed.node.children := by
  refine ⟨h.sound.below h.carried h.kind_mem hp, .of_none, ?_⟩
  obtain ⟨⟨b, m, rfl, -, hranked⟩, -⟩ := h.exists_first
  have hm := hranked m (mem_preorder_self m)
  refine ⟨_, m.children, children_of_placeNode (fun hk _ => hm.2 hk) hp, fun x hx => ⟨?_, ?_⟩⟩
  · intro f hf
    obtain rfl := Option.some.inj hf
    rw [kind_spacedIf]
    exact hm.1 x hx
  · exact fun y hy => hranked y ((preorder_sublist_of_mem_children hx).subset hy)

theorem next {v : Visited} (h : Orderly style trail carry (n :: ns))
    (hv : visit style stop trail carry n = .ok v) : Orderly style trail v.carry ns := by
  obtain ⟨placed, inner, hp, -, hparts⟩ := placed_of_visit hv
  refine ⟨h.sound, ?_, false, ns, rfl, h.exists_first.2⟩
  rw [hparts.carry_eq]
  exact (h.sound.placeNode_bounds h.carried hp).2.2

end Orderly

/-- Wherever the pass over a tree of ranked nodes comes to, it is orderly. -/
theorem ComesTo.orderly (h : ∀ m ∈ root.preorder, m.Ranked)
    (hc : ComesTo style stop root trail carry ns) : Orderly style trail carry ns := by
  induction hc with
  | start => exact ⟨.nil, .of_none, false, [root], rfl, List.forall_mem_singleton.2 ⟨nofun, h⟩⟩
  | inside _ hp ih => exact ih.inside hp
  | next _ hv _ ih => exact ih.next hv

/-- Nothing is refused in an orderly course. -/
theorem Orderly.exists_visit (stop : Option Nat) (h : Orderly style trail carry (n :: ns))
    (hbelow : ∀ placed, placeNode style trail carry n = .ok placed →
      ∃ inner, visitAll style stop (⟨n.kind, placed.node.lead, placed.indent⟩ :: trail) none
        placed.node.children = .ok inner) :
    ∃ v, visit style stop trail carry n = .ok v := by
  obtain ⟨placed, hp⟩ := h.exists_placed
  obtain ⟨inner, hinner⟩ := hbelow placed hp
  refine ⟨placed.visited stop n inner, ?_⟩
  rw [visit_of_ok hp, hinner]
  rfl

theorem Orderly.exists_visitAll (stop : Option Nat) (h : Orderly style trail carry ns) :
    ∃ w, visitAll style stop trail carry ns = .ok w := by
  induction ns using siblings_induction generalizing trail carry with
  | nil =>
    rw [visitAll]
    exact ⟨_, rfl⟩
  | cons n ns ihchildren ih =>
    obtain ⟨first, hfirst⟩ := h.exists_visit stop fun placed hp =>
      ihchildren _ _ _ placed hp (h.inside hp)
    cases hs : first.stopped with
    | true => exact ⟨_, visitAll_of_stopped hfirst hs⟩
    | false =>
      obtain ⟨others, hothers⟩ := ih (h.next hfirst)
      refine ⟨⟨first.node :: others.nodes, others.stopped, first.log ++ others.log⟩, ?_⟩
      rw [visitAll_of_not_stopped hfirst hs, hothers]
      rfl

/-- The pass over a tree of ranked nodes refuses nothing. -/
theorem exists_reindent (style : Style) (stop : Option Nat)
    (h : ∀ m ∈ root.preorder, m.Ranked) : ∃ v, reindent style root stop = .ok v :=
  have hstart : ComesTo style stop root [] none [root] := .start
  have horderly := hstart.orderly h
  horderly.exists_visit stop fun _ hp => (horderly.inside hp).exists_visitAll stop

/-! ### What is reported -/

/-- Somewhere that the pass comes to, a node of a kind gets another lead. -/
def MovesIn (style : Style) (stop : Option Nat) (root : Node Origin) (kind : Kind)
    (old new : Text) : Prop :=
  ∃ trail carry n ns placed, ComesTo style stop root trail carry (n :: ns) ∧
    placeNode style trail carry n = .ok placed ∧ n.kind = kind ∧ n.lead = old ∧
    placed.node.lead = new

/-- What is reported at a node happens there, or is reported below it. -/
theorem movesIn_of_visit {kind : Kind} {old new : Text} {v : Visited}
    (hc : ComesTo style stop root trail carry (n :: ns))
    (hv : visit style stop trail carry n = .ok v) (he : Event.moved kind old new ∈ v.log)
    (hbelow : ∀ placed inner, placeNode style trail carry n = .ok placed →
      visitAll style stop (⟨n.kind, placed.node.lead, placed.indent⟩ :: trail) none
        placed.node.children = .ok inner → Event.moved kind old new ∈ inner.log →
      MovesIn style stop root kind old new) : MovesIn style stop root kind old new := by
  obtain ⟨placed, inner, hp, hinner, rfl⟩ := exists_of_visit hv
  rw [Placed.visited, List.mem_append, List.mem_append] at he
  rcases he with (he | he) | he
  · split at he
    · exact absurd he List.not_mem_nil
    · obtain ⟨rfl, rfl, rfl⟩ := Event.moved.inj (List.mem_singleton.1 he)
      exact ⟨trail, carry, n, ns, placed, hc, hp, rfl, rfl, rfl⟩
  · exact hbelow placed inner hp hinner he
  · split at he
    · cases List.mem_singleton.1 he
    · exact absurd he List.not_mem_nil

theorem movesIn_of_visitAll {kind : Kind} {old new : Text} {w : VisitedAll}
    (hc : ComesTo style stop root trail carry ns)
    (hw : visitAll style stop trail carry ns = .ok w) (he : Event.moved kind old new ∈ w.log) :
    MovesIn style stop root kind old new := by
  induction ns using siblings_induction generalizing trail carry w with
  | nil =>
    rw [visitAll] at hw
    obtain rfl := Except.ok.inj hw
    exact absurd he List.not_mem_nil
  | cons n ns ihchildren ih =>
    rw [visitAll] at hw
    obtain ⟨first, hfirst, hw⟩ := exists_of_bind_eq_ok hw
    have hself (hmoved : Event.moved kind old new ∈ first.log) :
        MovesIn style stop root kind old new :=
      movesIn_of_visit hc hfirst hmoved fun _ _ hp hinner hmoved =>
        ihchildren _ _ _ _ hp (hc.inside hp) hinner hmoved
    split at hw
    · obtain rfl := Except.ok.inj hw
      exact hself he
    · rename_i hstopped
      obtain ⟨others, hothers, hw⟩ := exists_of_bind_eq_ok hw
      obtain rfl := Except.ok.inj hw
      rcases List.mem_append.1 he with he | he
      · exact hself he
      · exact ih (hc.next hfirst (eq_false_of_ne_true hstopped)) hothers he

/-- What a pass reports happens where it comes to. -/
theorem movesIn_of_reindent {kind : Kind} {old new : Text} {v : Visited}
    (hv : reindent style root stop = .ok v) (he : Event.moved kind old new ∈ v.log) :
    MovesIn style stop root kind old new :=
  movesIn_of_visit .start hv he fun _ _ hp hinner hmoved =>
    movesIn_of_visitAll (.inside .start hp) hinner hmoved

/-! ### What is noted -/

/-- Somewhere that the pass comes to, a node in place leaves a frame for what is below it. -/
def LeavesFrame (style : Style) (stop : Option Nat) (root : Node Origin) (frame : Frame Int) :
    Prop :=
  ∃ trail carry n ns placed, ComesTo style stop root trail carry (n :: ns) ∧
    placeNode style trail carry n = .ok placed ∧
    frame = ⟨n.kind, placed.node.lead, placed.indent⟩

variable {f : Forest} {path : List Nat}

/-- The cursors of the pass over a node stand for what is left there, or below it. -/
theorem allStandFor_of_visit {w : ByCursor.Visited}
    (hc : ComesTo style stop root trail carry (n :: ns)) (h : f.Shows path trail false)
    (hall : f.AllStandFor (LeavesFrame style stop root))
    (hw : ByCursor.visit style stop f path.head? carry n = .ok w)
    (hbelow : ∀ placed p g inner, placeNode style trail carry n = .ok placed →
      g.Shows (p :: path) (⟨n.kind, placed.node.lead, placed.indent⟩ :: trail) false →
      g.AllStandFor (LeavesFrame style stop root) →
      ByCursor.visitAll style stop g p none placed.node.children = .ok inner →
      inner.forest.AllStandFor (LeavesFrame style stop root)) :
    w.forest.AllStandFor (LeavesFrame style stop root) := by
  have hplace := ByCursor.placeWith_eq h style carry n
  have hgoes : f.isStopped path.head? = false := by rw [h.isStopped_eq, Bool.and_false]
  cases hp : placeNode style trail carry n with
  | error e =>
    rw [ByCursor.visit_of_error hgoes (hplace.trans hp)] at hw
    cases hw
  | ok placed =>
    rw [ByCursor.visit_of_ok hgoes (hplace.trans hp)] at hw
    obtain ⟨inner, hinner, hw⟩ := exists_of_bind_eq_ok hw
    obtain ⟨node, -, hw⟩ := exists_of_bind_eq_ok hw
    obtain rfl := Except.ok.inj hw
    have hkind := (parts_of_placeNode hp).1
    have hframe : LeavesFrame style stop root ⟨n.kind, placed.node.lead, placed.indent⟩ :=
      ⟨trail, carry, n, ns, placed, hc, hp, rfl⟩
    have hforest := hbelow _ _ _ _ hp (h.enter n hkind) (hall.enter h n hkind hframe) hinner
    dsimp only
    split
    · exact hforest.halt _
    · exact hforest

theorem allStandFor_of_visitAll {p : Nat} {w : ByCursor.VisitedAll}
    (hc : ComesTo style stop root trail carry ns) (h : f.Shows (p :: path) trail false)
    (hall : f.AllStandFor (LeavesFrame style stop root))
    (hw : ByCursor.visitAll style stop f p carry ns = .ok w) :
    w.forest.AllStandFor (LeavesFrame style stop root) := by
  induction ns using siblings_induction generalizing f p path trail carry w with
  | nil =>
    rw [ByCursor.visitAll] at hw
    obtain rfl := Except.ok.inj hw
    exact hall
  | cons n ns ihchildren ih =>
    rw [ByCursor.visitAll] at hw
    obtain ⟨first, hfirst, hw⟩ := exists_of_bind_eq_ok hw
    obtain ⟨others, hothers, hw⟩ := exists_of_bind_eq_ok hw
    obtain rfl := Except.ok.inj hw
    have hforest : first.forest.AllStandFor (LeavesFrame style stop root) :=
      allStandFor_of_visit hc h hall hfirst fun _ _ _ _ hp hg hall hinner =>
        ihchildren _ _ _ _ hp (hc.inside hp) hg hall hinner
    have hagrees : ByCursor.Agrees (p :: path) trail
        (ByCursor.visit style stop f (some p) carry n) (visit style stop trail carry n) :=
      ByCursor.agrees_visit h n
    rw [hfirst] at hagrees
    generalize hv : visit style stop trail carry n = y at hagrees
    cases hagrees with
    | @ok v g hg =>
      cases hs : v.stopped with
      | true =>
        -- The pass has stopped, and hands back the other siblings.
        rw [hs] at hg
        rw [ByCursor.visitAll_of_isStopped hg.isStopped_eq] at hothers
        obtain rfl := Except.ok.inj hothers
        exact hforest
      | false =>
        rw [hs] at hg
        exact ih (w := others) (hc.next hv hs) hg hforest hothers

/-- A cursor of the pass over cursors stands for a node that was put in place where the pass comes
to. -/
theorem standsFor_of_reindent {w : ByCursor.Visited}
    (hw : ByCursor.reindent style root stop = .ok w) :
    w.forest.AllStandFor (LeavesFrame style stop root) :=
  allStandFor_of_visit .start (.nil false) .empty hw fun _ _ _ _ hp hg hall hinner =>
    allStandFor_of_visitAll (.inside .start hp) hg hall hinner

end YamlIndent
