import YamlIndent.Tree.Origin

/-!
# Nodes and their copies

A pass hands on a node or a copy of it, and knows a node again by its tag. Since copies have no tag,
a node that is taken for another is that other; so tags decide what is copied, but never what a tree
says.

## Main definitions

* `Node.untagged`: a tree without its tags.
* `CopyOf`, `CopiesOf`: a node itself or a copy, and nodes of which each is one.

## Main results

* `untagged_rebuild`: a node that is rebuilt has the children it is given.
* `Node.print_untagged`: tags do not print.
* `Node.untagged_tagged`: a pass is given the tree it is asked to change.
-/

namespace YamlIndent

namespace Node

/-- A tree without its tags. -/
def untagged (n : Node Origin) : Tree :=
  n.mapTag fun _ => ()

/-- Trees without their tags. -/
def untaggedAll (ns : List (Node Origin)) : List Tree :=
  mapTagAll (fun _ => ()) ns

theorem untagged_eq (n : Node Origin) :
    n.untagged = ⟨(), n.kind, n.lead, n.text, untaggedAll n.children⟩ := by
  cases n
  rw [untagged, mapTag]
  rfl

theorem untaggedAll_cons (n : Node Origin) (ns : List (Node Origin)) :
    untaggedAll (n :: ns) = n.untagged :: untaggedAll ns := by
  rw [untaggedAll, mapTagAll]
  rfl

theorem length_untaggedAll : (ns : List (Node Origin)) → (untaggedAll ns).length = ns.length
  | [] => rfl
  | n :: ns => by rw [untaggedAll_cons, List.length_cons, List.length_cons, length_untaggedAll ns]

theorem eq_nil_of_untaggedAll : {ns : List (Node Origin)} → untaggedAll ns = [] → ns = []
  | [], _ => rfl
  | n :: ns, h => by
    rw [untaggedAll_cons] at h
    cases h

theorem exists_of_untaggedAll_cons {t : Tree} {ts : List Tree} : {ns : List (Node Origin)} →
    untaggedAll ns = t :: ts → ∃ m ms, ns = m :: ms ∧ m.untagged = t ∧ untaggedAll ms = ts
  | [], h => by cases h
  | m :: ms, h => by
    rw [untaggedAll_cons, List.cons.injEq] at h
    exact ⟨m, ms, rfl, h.1, h.2⟩

mutual

theorem mapTag_mapTag {α β γ : Type} (f : α → β) (g : β → γ) :
    (n : Node α) → (n.mapTag f).mapTag g = n.mapTag (g ∘ f)
  | ⟨_, _, _, _, children⟩ => by
    rw [mapTag, mapTag, mapTag, mapTagAll_mapTagAll f g children]
    rfl

theorem mapTagAll_mapTagAll {α β γ : Type} (f : α → β) (g : β → γ) :
    (ns : List (Node α)) → mapTagAll g (mapTagAll f ns) = mapTagAll (g ∘ f) ns
  | [] => rfl
  | n :: ns => by
    rw [mapTagAll, mapTagAll, mapTagAll, mapTag_mapTag f g n, mapTagAll_mapTagAll f g ns]

end

mutual

/-- A tree prints the same whatever its tags are. -/
theorem print_mapTag {α β : Type} (f : α → β) : (n : Node α) → (n.mapTag f).print = n.print
  | ⟨tag, kind, lead, text, children⟩ => by
    have hchildren := printAll_mapTagAll f children
    cases kind with
    | mappingEntry =>
      match children with
      | [] => rfl
      | [_] => rfl
      | [key, value] =>
        simp only [mapTag, mapTagAll, print, print_mapTag f key, print_mapTag f value]
      | _ :: _ :: _ :: _ => rfl
    | _ => simp only [mapTag, print, hchildren]

theorem printAll_mapTagAll {α β : Type} (f : α → β) :
    (ns : List (Node α)) → printAll (mapTagAll f ns) = printAll ns
  | [] => rfl
  | n :: ns => by rw [mapTagAll, printAll, printAll, print_mapTag f n, printAll_mapTagAll f ns]

end

mutual

theorem mapTag_numberFrom {α β : Type} {start : Nat} (b : β) :
    (n : Node α) → (n.numberFrom start).mapTag (fun _ => b) = n.mapTag fun _ => b
  | ⟨_, _, _, _, children⟩ => by rw [numberFrom, mapTag, mapTag, mapTagAll_numberAll b children]

theorem mapTagAll_numberAll {α β : Type} {start : Nat} (b : β) :
    (ns : List (Node α)) → mapTagAll (fun _ => b) (numberAll start ns) = mapTagAll (fun _ => b) ns
  | [] => rfl
  | n :: ns => by
    rw [numberAll, mapTagAll, mapTagAll, mapTag_numberFrom b n, mapTagAll_numberAll b ns]

end

mutual

theorem mapTag_unit : (t : Tree) → t.mapTag (fun _ => ()) = t
  | ⟨_, _, _, _, children⟩ => by rw [mapTag, mapTagAll_unit children]

theorem mapTagAll_unit : (ts : List Tree) → mapTagAll (fun _ => ()) ts = ts
  | [] => rfl
  | t :: ts => by rw [mapTagAll, mapTag_unit t, mapTagAll_unit ts]

end

/-- Tags do not print. -/
theorem print_untagged (n : Node Origin) : n.untagged.print = n.print :=
  print_mapTag _ n

theorem untagged_retag {α : Type} (n : Node α) : n.tagged.untagged = n.mapTag fun _ => () := by
  rw [untagged, tagged, mapTag_mapTag]
  exact mapTag_numberFrom () n

/-- A pass is given the tree it is asked to change. -/
theorem untagged_tagged (t : Tree) : t.tagged.untagged = t := by
  rw [untagged_retag, mapTag_unit]

end Node

open Node

/-- A node itself, or a copy, which has no tag. -/
def CopyOf (m n : Node Origin) : Prop :=
  m.tag.isSome → m = n

/-- Each of some nodes is that of some others, or a copy. -/
def CopiesOf : List (Node Origin) → List (Node Origin) → Prop
  | [], [] => True
  | m :: ms, n :: ns => CopyOf m n ∧ CopiesOf ms ns
  | _, _ => False

variable {m n : Node Origin} {ms ns : List (Node Origin)}

theorem CopyOf.refl (n : Node Origin) : CopyOf n n := fun _ => Eq.refl n

theorem CopyOf.trans {l m n : Node Origin} (h : CopyOf l m) (h' : CopyOf m n) : CopyOf l n := by
  intro ht
  obtain rfl := h ht
  exact h' ht

theorem CopiesOf.length_eq : {ms ns : List (Node Origin)} → CopiesOf ms ns → ms.length = ns.length
  | [], [], _ => rfl
  | _ :: _, _ :: _, h => congrArg (· + 1) h.2.length_eq

/-- Nodes that are taken for those of a list are those of the list. -/
theorem CopiesOf.eq_of_sameItems : {ms ns : List (Node Origin)} → CopiesOf ms ns →
    sameItems Node.same ms ns = .ok true → ms = ns
  | [], [], _, _ => rfl
  | m :: ms, n :: ns, h, hs => by
    rw [sameItems] at hs
    split at hs
    · rename_i hsame
      rw [Node.same, Bool.and_eq_true] at hsame
      rw [h.1 hsame.1, eq_of_sameItems h.2 hs]
    · cases hs

/-- A node that is rebuilt has the children it is given. -/
theorem children_rebuild (h : CopiesOf ms n.children) : (n.rebuild ms).children = ms := by
  rw [rebuild]
  split
  · rename_i hs
    exact (h.eq_of_sameItems hs).symm
  · rfl

theorem copyOf_rebuild (ms : List (Node Origin)) (n : Node Origin) : CopyOf (n.rebuild ms) n := by
  rw [rebuild]
  split
  · exact .refl n
  · intro h
    cases h

theorem rebuild_parts (ms : List (Node Origin)) (n : Node Origin) :
    (n.rebuild ms).kind = n.kind ∧ (n.rebuild ms).lead = n.lead ∧
      (n.rebuild ms).text = n.text := by
  rw [rebuild]
  split <;> exact ⟨rfl, rfl, rfl⟩

theorem untagged_rebuild (h : CopiesOf ms n.children) :
    (n.rebuild ms).untagged = ⟨(), n.kind, n.lead, n.text, untaggedAll ms⟩ := by
  obtain ⟨hk, hl, ht⟩ := rebuild_parts ms n
  rw [untagged_eq, children_rebuild h, hk, hl, ht]

theorem copyOf_withLead (lead : Text) (n : Node Origin) : CopyOf (n.withLead lead) n := by
  rw [withLead]
  split
  · exact .refl n
  · intro h
    cases h

theorem withLead_self (n : Node Origin) : n.withLead n.lead = n := by
  rw [withLead, if_pos rfl]

theorem withLead_parts (lead : Text) (n : Node Origin) :
    (n.withLead lead).kind = n.kind ∧ (n.withLead lead).lead = lead ∧
      (n.withLead lead).text = n.text ∧ (n.withLead lead).children = n.children := by
  rw [withLead]
  split
  · rename_i h
    exact ⟨rfl, h.symm, rfl, rfl⟩
  · exact ⟨rfl, rfl, rfl, rfl⟩

theorem untagged_withLead (lead : Text) (n : Node Origin) :
    (n.withLead lead).untagged = { n.untagged with lead := lead } := by
  obtain ⟨hk, hl, ht, hc⟩ := withLead_parts lead n
  rw [untagged_eq, untagged_eq, hk, hl, ht, hc]

theorem CopiesOf.refl : (ns : List (Node Origin)) → CopiesOf ns ns
  | [] => trivial
  | n :: ns => ⟨.refl n, refl ns⟩

end YamlIndent
