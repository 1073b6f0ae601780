import YamlIndent.Proofs.RoundTrip
import YamlIndent.Proofs.Tree.Copy

/-!
# Offsets of tokens

A tree that is printed puts the token of each node at an offset in the text: behind what is printed
in front of the node, and behind its lead. The token of a mapping entry is its key. These offsets
are sums of lengths, and the text of a node is found at its own.

## Main definitions

* `Node.width`: the number of characters that a tree prints as.
* `Node.located`: a tree with its nodes tagged by the offsets of their tokens.

## Main results

* `Node.width_of_print`: a tree prints as as many characters as its width says.
* `Node.mapTag_located`: nodes that are located are those of the tree.
* `Node.stands_located`: what a node prints as behind its lead stands at its offset.
-/

namespace YamlIndent

namespace Node

variable {α : Type}

mutual

/-- The number of characters that a tree prints as. -/
def width : Node α → Nat
  | ⟨_, _, lead, text, children⟩ => lead.length + text.length + widthAll children

/-- The number of characters that some trees print as. -/
def widthAll : List (Node α) → Nat
  | [] => 0
  | n :: ns => n.width + widthAll ns

end

mutual

/-- A tree whose text begins at the offset `start`, with its nodes tagged by the offsets of their
tokens. -/
def located (start : Nat) : Node α → Node Nat
  | ⟨_, .mappingEntry, lead, text, key :: others⟩ =>
    let own := start + lead.length
    ⟨own, .mappingEntry, lead, text,
      key.located own :: locatedAll (own + key.width + text.length) others⟩
  | ⟨_, kind, lead, text, children⟩ =>
    let own := start + lead.length
    ⟨own, kind, lead, text, locatedAll (own + text.length) children⟩

/-- Trees whose text begins at the offset `start`, with their nodes tagged by the offsets of their
tokens. -/
def locatedAll (start : Nat) : List (Node α) → List (Node Nat)
  | [] => []
  | n :: ns => n.located start :: locatedAll (start + n.width) ns

end

theorem located_of_ne_mappingEntry {tag : α} {kind : Kind} (hk : kind ≠ .mappingEntry) (start : Nat)
    (lead text : Text) (children : List (Node α)) :
    (⟨tag, kind, lead, text, children⟩ : Node α).located start =
      ⟨start + lead.length, kind, lead, text,
        locatedAll (start + lead.length + text.length) children⟩ := by
  cases kind with
  | mappingEntry => exact absurd rfl hk
  | _ =>
    rw [located]
    simp

theorem tag_located (start : Nat) (n : Node α) : (n.located start).tag = start + n.lead.length := by
  obtain ⟨tag, kind, lead, text, children⟩ := n
  rw [located.eq_def]
  split
  · rename_i h
    cases h
    rfl
  · rename_i h
    cases h
    rfl

mutual

/-- Nodes that are located are those of the tree. -/
theorem mapTag_located {β : Type} (b : β) (start : Nat) :
    (n : Node α) → (n.located start).mapTag (fun _ => b) = n.mapTag fun _ => b
  | ⟨_, .mappingEntry, _, _, key :: others⟩ => by
    rw [located, mapTag, mapTag, mapTagAll, mapTagAll, mapTag_located b _ key,
      mapTagAll_locatedAll b _ others]
  | ⟨_, .mappingEntry, _, _, []⟩ => rfl
  | ⟨_, .stream, _, _, children⟩ | ⟨_, .document, _, _, children⟩
  | ⟨_, .documentEnd, _, _, children⟩ | ⟨_, .mapping, _, _, children⟩
  | ⟨_, .sequence, _, _, children⟩ | ⟨_, .sequenceEntry, _, _, children⟩
  | ⟨_, .scalar, _, _, children⟩ => by
    rw [located_of_ne_mappingEntry Kind.noConfusion, mapTag, mapTag,
      mapTagAll_locatedAll b _ children]

theorem mapTagAll_locatedAll {β : Type} (b : β) (start : Nat) : (ns : List (Node α)) →
    mapTagAll (fun _ => b) (locatedAll start ns) = mapTagAll (fun _ => b) ns
  | [] => rfl
  | n :: ns => by
    rw [locatedAll, mapTagAll, mapTagAll, mapTag_located b start n,
      mapTagAll_locatedAll b _ ns]

end

theorem print_located (start : Nat) (n : Node α) : (n.located start).print = n.print := by
  rw [← print_mapTag (fun _ => ()) (n.located start), mapTag_located, print_mapTag]

/-! ### Lengths and offsets -/

theorem locatedAll_append (start : Nat) (ns ms : List (Node α)) :
    locatedAll start (ns ++ ms) = locatedAll start ns ++ locatedAll (start + widthAll ns) ms := by
  induction ns generalizing start with
  | nil => rfl
  | cons n ns ih =>
    rw [List.cons_append, locatedAll, locatedAll, ih, widthAll, Nat.add_assoc, List.cons_append]

/-- What a node that is no mapping entry prints as. -/
theorem exists_of_print {n : Node α} (hk : n.kind ≠ .mappingEntry) {t : Text}
    (h : n.print = .ok t) :
    ∃ inner, printAll n.children = .ok inner ∧ t = n.lead ++ n.text ++ inner := by
  obtain ⟨tag, kind, lead, text, children⟩ := n
  rw [print] at h
  · obtain ⟨inner, hinner, h⟩ := exists_of_bind_eq_ok h
    cases h
    exact ⟨inner, hinner, rfl⟩
  · exact hk

/-- What a mapping entry prints as. -/
theorem exists_of_print_mappingEntry {n : Node α} (hk : n.kind = .mappingEntry) {t : Text}
    (h : n.print = .ok t) : ∃ key value s s', n.children = [key, value] ∧ key.print = .ok s ∧
      value.print = .ok s' ∧ t = n.lead ++ s ++ n.text ++ s' := by
  obtain ⟨tag, kind, lead, text, children⟩ := n
  cases hk
  rw [print.eq_def] at h
  simp only at h
  split at h
  · rename_i key value
    obtain ⟨s, hs, h⟩ := exists_of_bind_eq_ok h
    obtain ⟨s', hs', h⟩ := exists_of_bind_eq_ok h
    cases h
    exact ⟨key, value, s, s', rfl, hs, hs', rfl⟩
  · cases h

theorem exists_of_printAll_cons {n : Node α} {ns : List (Node α)} {t : Text}
    (h : printAll (n :: ns) = .ok t) :
    ∃ s s', n.print = .ok s ∧ printAll ns = .ok s' ∧ t = s ++ s' := by
  rw [printAll] at h
  obtain ⟨s, hs, h⟩ := exists_of_bind_eq_ok h
  obtain ⟨s', hs', h⟩ := exists_of_bind_eq_ok h
  cases h
  exact ⟨s, s', hs, hs', rfl⟩

mutual

/-- A tree prints as as many characters as its width says. -/
theorem width_of_print {t : Text} : (n : Node α) → n.print = .ok t → n.width = t.length
  | ⟨tag, kind, lead, text, children⟩, h => by
    by_cases hk : kind = .mappingEntry
    · obtain ⟨key, value, s, s', rfl, hs, hs', rfl⟩ := exists_of_print_mappingEntry hk h
      rw [width, widthAll, widthAll, widthAll, width_of_print key hs, width_of_print value hs']
      simp only [List.length_append]
      omega
    · obtain ⟨inner, hinner, rfl⟩ := exists_of_print hk h
      rw [width, widthAll_of_printAll children hinner, List.length_append, List.length_append]

theorem widthAll_of_printAll {t : Text} :
    (ns : List (Node α)) → printAll ns = .ok t → widthAll ns = t.length
  | [], h => by
    cases h
    rfl
  | n :: ns, h => by
    obtain ⟨s, s', hs, hs', rfl⟩ := exists_of_printAll_cons h
    rw [widthAll, width_of_print n hs, widthAll_of_printAll ns hs', List.length_append]

end

end Node

/-! ### Texts at offsets -/

variable {source s t : Text} {start : Nat}

theorem prefix_drop_left (h : s ++ t <+: source.drop start) : s <+: source.drop start :=
  (List.prefix_append s t).trans h

theorem prefix_drop_right (h : s ++ t <+: source.drop start) :
    t <+: source.drop (start + s.length) := by
  obtain ⟨rest, hr⟩ := h
  rw [← List.drop_drop, ← hr, List.append_assoc, List.drop_left]
  exact List.prefix_append t rest

namespace Node

variable {α : Type}

mutual

/-- What a node prints as behind its lead stands at its offset in the source. -/
theorem stands_located {source t : Text} {start : Nat} : (n : Node α) → n.print = .ok t →
    t <+: source.drop start → ∀ m ∈ (n.located start).preorder,
      ∃ body, m.print = .ok (m.lead ++ body) ∧ body <+: source.drop m.tag
  | ⟨tag, kind, lead, text, children⟩, h, ht => by
    have hprint := print_located start ⟨tag, kind, lead, text, children⟩
    by_cases hk : kind = .mappingEntry
    · obtain ⟨key, value, s, s', rfl, hs, hs', rfl⟩ := exists_of_print_mappingEntry hk h
      cases hk
      rw [List.append_assoc, List.append_assoc] at h ht
      have hown := prefix_drop_right ht
      have hvalue := prefix_drop_right (prefix_drop_right hown)
      rw [← width_of_print key hs] at hvalue
      rw [h] at hprint
      rw [located] at hprint ⊢
      rw [locatedAll, locatedAll] at hprint ⊢
      rw [preorder, preorderAll, preorderAll, preorderAll, List.append_nil]
      refine List.forall_mem_cons.2 ⟨⟨_, hprint, hown⟩, List.forall_mem_append.2 ⟨?_, ?_⟩⟩
      · exact stands_located key hs (prefix_drop_left hown)
      · exact stands_located value hs' hvalue
    · obtain ⟨inner, hinner, rfl⟩ := exists_of_print hk h
      rw [List.append_assoc] at h ht
      have hown := prefix_drop_right ht
      rw [h, located_of_ne_mappingEntry hk] at hprint
      rw [located_of_ne_mappingEntry hk, preorder]
      exact List.forall_mem_cons.2 ⟨⟨_, hprint, hown⟩,
        stands_locatedAll children hinner (prefix_drop_right hown)⟩

theorem stands_locatedAll {source t : Text} {start : Nat} : (ns : List (Node α)) →
    printAll ns = .ok t → t <+: source.drop start → ∀ m ∈ preorderAll (locatedAll start ns),
      ∃ body, m.print = .ok (m.lead ++ body) ∧ body <+: source.drop m.tag
  | [], _, _ => fun _ hm => absurd hm List.not_mem_nil
  | n :: ns, h, ht => by
    obtain ⟨s, s', hs, hs', rfl⟩ := exists_of_printAll_cons h
    rw [locatedAll, preorderAll, width_of_print n hs]
    exact List.forall_mem_append.2 ⟨stands_located n hs (prefix_drop_left ht),
      stands_locatedAll ns hs' (prefix_drop_right ht)⟩

end

end Node

end YamlIndent
