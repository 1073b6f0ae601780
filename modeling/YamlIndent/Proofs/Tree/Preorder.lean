import YamlIndent.Proofs.Tree.Copy
import YamlIndent.Reindent

/-!
# Nodes in order

The nodes of a tree in preorder are the node itself and those of its children in turn, so that a
subtree is a stretch of that list which is as long as the subtree is large. A tree that a pass is
given has its nodes tagged by their places in the list; so no two of them share a tag.

## Main results

* `Node.add_size_le_of_preorder`: a subtree ends within the tree.
* `Node.nodup_tags_tagged`: the nodes of a tree that a pass is given have tags of their own.
-/

namespace YamlIndent

namespace Node

variable {α β : Type} {m n : Node α} {ns : List (Node α)} {i : Nat}

theorem preorder_eq (n : Node α) : n.preorder = n :: preorderAll n.children := by
  cases n
  rw [preorder]

theorem mem_preorder_self (n : Node α) : n ∈ n.preorder := by
  rw [preorder_eq]
  exact List.mem_cons_self

/-- A node with the nodes above it comes before what is below it. -/
theorem paths_eq (above : List (Node α)) (n : Node α) :
    n.paths above = (above, n) :: pathsAll (above ++ [n]) n.children := by
  cases n
  rw [paths]

/-! ### Sizes and places -/

mutual

/-- A subtree ends within the tree. -/
theorem add_size_le_of_preorder {m : Node α} :
    (n : Node α) → {i : Nat} → n.preorder[i]? = some m → i + m.size ≤ n.size
  | ⟨_, _, _, _, children⟩, i, h => by
    rw [preorder] at h
    cases i with
    | zero =>
      simp only [List.getElem?_cons_zero, Option.some.injEq] at h
      simp [h]
    | succ i =>
      have := add_size_le_of_preorderAll children h
      rw [size]
      omega

theorem add_size_le_of_preorderAll {m : Node α} :
    (ns : List (Node α)) → {i : Nat} → (preorderAll ns)[i]? = some m → i + m.size ≤ sizeAll ns
  | [], _, h => by simp [preorderAll] at h
  | n :: ns, i, h => by
    rw [preorderAll, List.getElem?_append] at h
    rw [sizeAll]
    split at h
    · have := add_size_le_of_preorder n h
      omega
    · have := add_size_le_of_preorderAll ns h
      rw [length_preorder] at *
      omega

end

/-- The nodes of a child follow one another among those of all children. -/
theorem preorder_sublist_preorderAll (h : n ∈ ns) : n.preorder.Sublist (preorderAll ns) := by
  induction ns with
  | nil => simp at h
  | cons m ns ih =>
    rw [preorderAll]
    rcases List.mem_cons.1 h with rfl | h
    · exact List.sublist_append_left _ _
    · exact (ih h).trans (List.sublist_append_right _ _)

theorem preorder_sublist_of_mem_children (h : m ∈ n.children) : m.preorder.Sublist n.preorder := by
  rw [preorder_eq n]
  exact (preorder_sublist_preorderAll h).trans (List.sublist_cons_self _ _)

/-! ### Tags -/

mutual

theorem preorder_mapTag (f : α → β) :
    (n : Node α) → (n.mapTag f).preorder = n.preorder.map (mapTag f)
  | ⟨_, _, _, _, children⟩ => by
    rw [mapTag, preorder, preorder, List.map_cons, preorderAll_mapTagAll f children, mapTag]

theorem preorderAll_mapTagAll (f : α → β) :
    (ns : List (Node α)) → preorderAll (mapTagAll f ns) = (preorderAll ns).map (mapTag f)
  | [] => rfl
  | n :: ns => by
    rw [mapTagAll, preorderAll, preorderAll, List.map_append, preorder_mapTag f n,
      preorderAll_mapTagAll f ns]

end

mutual

/-- Nodes that are numbered have their places as tags. -/
theorem tags_numberFrom (start : Nat) :
    (n : Node α) → (n.numberFrom start).preorder.map (·.tag) = List.range' start n.size
  | ⟨_, _, _, _, children⟩ => by
    rw [numberFrom, preorder, List.map_cons, tags_numberAll (start + 1) children, size,
      Nat.add_comm 1, List.range'_succ]

theorem tags_numberAll (start : Nat) :
    (ns : List (Node α)) → (preorderAll (numberAll start ns)).map (·.tag) =
      List.range' start (sizeAll ns)
  | [] => rfl
  | n :: ns => by
    rw [numberAll, preorderAll, List.map_append, tags_numberFrom start n,
      tags_numberAll (start + n.size) ns, sizeAll, List.range'_append_1]

end

theorem tag_mapTag (f : α → β) (n : Node α) : (n.mapTag f).tag = f n.tag := by
  cases n
  rw [mapTag]

theorem lead_mapTag (f : α → β) (n : Node α) : (n.mapTag f).lead = n.lead := by
  cases n
  rw [mapTag]

/-- A tree has the same leads whatever its tags are. -/
theorem leads_mapTag (f : α → β) (n : Node α) :
    (n.mapTag f).preorder.map (·.lead) = n.preorder.map (·.lead) := by
  rw [preorder_mapTag, List.map_map]
  exact List.map_congr_left fun m _ => lead_mapTag f m

/-- The nodes of a tree that a pass is given have tags of their own. -/
theorem nodup_tags_tagged (n : Node α) : (n.tagged.preorder.map (·.tag)).Nodup := by
  have htags : n.tagged.preorder.map (·.tag) = (List.range' 0 n.size).map some := by
    rw [tagged, preorder_mapTag, List.map_map, ← tags_numberFrom, List.map_map]
    exact List.map_congr_left fun m _ => tag_mapTag some m
  rw [htags]
  exact List.Pairwise.map some (fun a b hab => by simpa using hab) List.nodup_range'

theorem nodup_preorder_tagged (n : Node α) : n.tagged.preorder.Nodup :=
  List.Pairwise.of_map _ (fun _ _ h he => h (he ▸ rfl)) n.nodup_tags_tagged

/-- The nodes below a child of such a tree are different as well. -/
theorem nodup_preorder_of_mem_tagged {m : Node Origin} (h : m ∈ n.tagged.children) :
    m.preorder.Nodup :=
  n.nodup_preorder_tagged.sublist (preorder_sublist_of_mem_children h)

end Node

end YamlIndent
