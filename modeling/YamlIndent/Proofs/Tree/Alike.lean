import Mathlib.Data.List.Forall2
import YamlIndent.Proofs.Layout.Bare

/-!
# Trees that differ in their leads

Two trees are alike if they are one tree without leads, and each lead of the one is related to the
lead at the same place of the other.

## Main definitions

* `Node.Alike`, `Node.AlikeAll`: trees that differ in their leads only, and in these by a relation.
* `Node.mapLead`: a tree with other leads.

## Main results

* `Node.Alike.node`, `Head.alike_entry`: alike trees are built of alike trees.
* `Node.Alike.eq_mapLead`: trees whose leads are related by a function.
-/

namespace YamlIndent

namespace Node

variable {G : Text → Text → Prop} {t u : Tree} {ts us ts' us' : List Tree}

/-- Trees that differ in their leads only, and in each lead as `G` has it. -/
structure Alike (G : Text → Text → Prop) (t u : Tree) : Prop where
  bare_eq : t.bare = u.bare
  leads : List.Forall₂ G (t.preorder.map (·.lead)) (u.preorder.map (·.lead))

/-- Lists of trees that differ in their leads only, and in each lead as `G` has it. -/
structure AlikeAll (G : Text → Text → Prop) (ts us : List Tree) : Prop where
  bareAll_eq : bareAll ts = bareAll us
  leads : List.Forall₂ G ((preorderAll ts).map (·.lead)) ((preorderAll us).map (·.lead))

theorem AlikeAll.nil : AlikeAll G [] [] := ⟨rfl, .nil⟩

theorem AlikeAll.cons (h : Alike G t u) (hs : AlikeAll G ts us) :
    AlikeAll G (t :: ts) (u :: us) where
  bareAll_eq := by rw [bareAll, bareAll, h.bare_eq, hs.bareAll_eq]
  leads := by
    rw [preorderAll, preorderAll, List.map_append, List.map_append]
    exact List.rel_append h.leads hs.leads

theorem AlikeAll.singleton (h : Alike G t u) : AlikeAll G [t] [u] := .cons h .nil

theorem AlikeAll.append (h : AlikeAll G ts us) (h' : AlikeAll G ts' us') :
    AlikeAll G (ts ++ ts') (us ++ us') where
  bareAll_eq := by rw [bareAll_append, bareAll_append, h.bareAll_eq, h'.bareAll_eq]
  leads := by
    rw [preorderAll_append, preorderAll_append, List.map_append, List.map_append]
    exact List.rel_append h.leads h'.leads

/-- Nodes with alike children are alike if their leads are related. -/
theorem Alike.node (kind : Kind) (text : Text) {lead lead' : Text} (hl : G lead lead')
    (h : AlikeAll G ts us) : Alike G ⟨(), kind, lead, text, ts⟩ ⟨(), kind, lead', text, us⟩ where
  bare_eq := by rw [bare, bare, h.bareAll_eq]
  leads := by
    rw [preorder, preorder]
    exact .cons hl h.leads

theorem Alike.scalarNode (text : Text) {lead lead' : Text} (hl : G lead lead') :
    Alike G (Head.scalarNode lead text) (Head.scalarNode lead' text) :=
  .node .scalar text hl .nil

/-! ### Leads by a function -/

variable {α : Type}

mutual

/-- The tree with each lead changed by `f`. -/
def mapLead (f : Text → Text) : Node α → Node α
  | ⟨tag, kind, lead, text, children⟩ => ⟨tag, kind, f lead, text, mapLeadAll f children⟩

/-- Trees with each lead changed by `f`. -/
def mapLeadAll (f : Text → Text) : List (Node α) → List (Node α)
  | [] => []
  | n :: ns => n.mapLead f :: mapLeadAll f ns

end

variable {f : Text → Text}

theorem mapLeadAll_append (ns ms : List (Node α)) :
    mapLeadAll f (ns ++ ms) = mapLeadAll f ns ++ mapLeadAll f ms := by
  induction ns with
  | nil => rfl
  | cons n ns ih => rw [List.cons_append, mapLeadAll, mapLeadAll, ih, List.cons_append]

mutual

theorem bare_mapLead : (n : Node α) → (n.mapLead f).bare = n.bare
  | ⟨_, _, _, _, children⟩ => by rw [mapLead, bare, bare, bareAll_mapLeadAll children]

theorem bareAll_mapLeadAll : (ns : List (Node α)) → bareAll (mapLeadAll f ns) = bareAll ns
  | [] => rfl
  | n :: ns => by rw [mapLeadAll, bareAll, bareAll, bare_mapLead n, bareAll_mapLeadAll ns]

end

mutual

theorem leads_mapLead : (n : Node α) →
    (n.mapLead f).preorder.map (·.lead) = (n.preorder.map (·.lead)).map f
  | ⟨_, _, _, _, children⟩ => by
    rw [mapLead, preorder, preorder, List.map_cons, List.map_cons, List.map_cons,
      leads_mapLeadAll children]

theorem leads_mapLeadAll : (ns : List (Node α)) →
    (preorderAll (mapLeadAll f ns)).map (·.lead) = ((preorderAll ns).map (·.lead)).map f
  | [] => rfl
  | n :: ns => by
    rw [mapLeadAll, preorderAll, preorderAll, List.map_append, leads_mapLead n,
      leads_mapLeadAll ns, List.map_append, List.map_append]

end

/-- A tree whose leads are those of another changed by `f` is that tree with its leads changed. -/
theorem Alike.eq_mapLead (h : Alike (fun a b => f a = b) t u) : u = t.mapLead f := by
  have hl := List.forall₂_map_left_iff.2 h.leads
  rw [List.forall₂_eq_eq_eq] at hl
  refine eq_of_leads_eq u _ (h.bare_eq.symm.trans (bare_mapLead t).symm) ?_
  rw [leads_mapLead, hl]

end Node

/-- Entries with alike values are alike if their leads are related. -/
theorem Head.alike_entry {G : Text → Text → Prop} (h0 : G [] []) {lead lead' : Text}
    (hl : G lead lead') {value value' : Tree} (hv : value.Alike G value') (head : Head) :
    (head.entry lead value).Alike G (head.entry lead' value') := by
  cases head with
  | item => exact .node _ _ hl (.singleton hv)
  | key text indicator => exact .node _ _ hl (.cons (.scalarNode text h0) (.singleton hv))

end YamlIndent
