import YamlIndent.Source.Scalar
import YamlIndent.Tree.Basic

/-!
# Blocks

A block is a scalar, or the entries of a mapping or a sequence that stand at one column. An entry is
a head (the `-` of a sequence, or a key with its colon) and a value; the value of an entry is found
by looking past the gap behind the head, and is empty if nothing there belongs to the entry.

## Main definitions

* `Head`, `Place.head?`: what an entry begins with, if an entry begins at a place.
* `Opening`, `Place.opening`, `Head.value`: a block as far as it is read without recursion.
* `Place.sibling`: the head of the next entry of a block, if there is one.
* `entries`, `Opening.read`: the entries of a block, and a whole block.

## Main results

* `entries_eq`: an entry is its head and its value, and is followed by the entries at its column.
* `Opening.leads_read`: reading a block leads on in the source.
-/

namespace YamlIndent

/-- What an entry begins with. -/
inductive Head where
  /-- The `-` of a sequence. -/
  | item
  /-- A key of a mapping; the indicator is the colon and the blanks in front of it. -/
  | key (text indicator : Text)
  deriving DecidableEq, Repr

namespace Head

/-- The kind of block that an entry with this head belongs to. -/
def blockKind : Head → Kind
  | item => .sequence
  | key .. => .mapping

/-- The text that a head takes in the source. -/
def source : Head → Text
  | item => ['-']
  | key text indicator => text ++ indicator

/-- A scalar. -/
def scalarNode (lead text : Text) : Tree :=
  ⟨(), .scalar, lead, text, []⟩

/-- The entry with this head and a value. -/
def entry (lead : Text) (value : Tree) : Head → Tree
  | item => ⟨(), .sequenceEntry, lead, ['-'], [value]⟩
  | key text indicator => ⟨(), .mappingEntry, lead, indicator, [scalarNode [] text, value]⟩

end Head

namespace Place

/-- A `-` that ends a token stands here. -/
def atItem (p : Place) : Bool :=
  match p.rest with
  | '-' :: cs => endsToken cs
  | _ => false

/-- The head of the entry that begins here, if one does, and the place after it. -/
def head? (p : Place) : Option (Head × Place) :=
  if p.atItem then some (.item, p.past ['-'] (p.rest.drop 1))
  else if p.atDocumentMark then none
  else
    (splitKey p.rest).map fun (key, rest) =>
      let split := splitTrailing key
      (.key split.1 (split.2 ++ [':']), p.past (key ++ [':']) rest)

/-- A key stands here. -/
def atKey (p : Place) : Bool :=
  match p.head? with
  | some (.key .., _) => true
  | _ => false

end Place

/-- A block as far as it is read without recursion. -/
inductive Opening where
  /-- A scalar, and the place after it. -/
  | leaf (lead text : Text) (after : Place)
  /-- A mapping or sequence: the lead of its first entry, the column of its entries, the head of the
  first, and the place after that head. -/
  | block (lead : Text) (column : Nat) (head : Head) (after : Place)
  deriving DecidableEq, Repr

/-- The place that an opening stops at. -/
def Opening.after : Opening → Place
  | leaf _ _ p => p
  | block _ _ _ p => p

namespace Place

/-- The scalar that stands here as a block. -/
def leaf (lead : Text) (p : Place) : Except Rejection Opening := do
  let (text, after) ← p.scalar
  return .leaf lead text after

/-- The block that stands here. -/
def opening (lead : Text) (p : Place) : Except Rejection Opening :=
  match p.head? with
  | some (head, after) => do
    let column ← p.checkedColumn
    return .block lead column head after
  | none => p.leaf lead

/-- The head of the next entry of a block whose entries stand at `column` and have heads like
`head`, with the lead of that entry and the place after its head. -/
def sibling (head : Head) (column : Nat) (p : Place) :
    Except Rejection (Option (Text × Head × Place)) :=
  let (lead, q) := p.gap
  if q.atEnd || !hasBreak lead then return none
  else do
    let c ← q.checkedColumn
    if c == column then
      match q.head? with
      | some (next, after) =>
        return if next.blockKind = head.blockKind then some (lead, next, after) else none
      | none => return none
    else return none

end Place

/-- The value of an entry whose head stands at `column` and ends at `p`. A value on the line of its
key is a scalar, and on the line of its `-` any block. On a later line it stands further in than the
entry; the value of a key may stand at the key's own column, unless it is a key there. -/
def Head.value (head : Head) (column : Nat) (p : Place) : Except Rejection Opening :=
  let (lead, q) := p.gap
  if q.atEnd || q.atDocumentMark then return .leaf [] [] p
  else if !hasBreak lead then
    match head with
    | .item => q.opening lead
    | .key .. => q.leaf lead
  else do
    let c ← q.checkedColumn
    if column < c || (c == column && head.blockKind = .mapping && !q.atKey) then q.opening lead
    else return .leaf [] [] p

/-! ### How far the parts of an entry lead -/

namespace Place

theorem reaches_head? {p q : Place} {h : Head} (hh : p.head? = some (h, q)) :
    p.Reaches h.source q := by
  unfold head? at hh
  split at hh
  · cases hh
    rename_i hi
    refine reaches_past ?_
    unfold atItem at hi
    split at hi
    · rename_i hr
      simp [hr, Head.source]
    · cases hi
  · split at hh
    · cases hh
    · obtain ⟨⟨key, rest⟩, hk, he⟩ := Option.map_eq_some_iff.1 hh
      cases he
      have hs : (splitTrailing key).1 ++ ((splitTrailing key).2 ++ [':']) = key ++ [':'] := by
        rw [← List.append_assoc, splitTrailing_append]
      rw [Head.source, hs]
      exact reaches_past (by simp [splitKey_append hk])

theorem length_head? {p q : Place} {h : Head} (hh : p.head? = some (h, q)) :
    q.rest.length < p.rest.length := by
  have hr := (reaches_head? hh).rest_eq
  have hne : h.source ≠ [] := by
    unfold head? at hh
    split at hh
    · cases hh
      simp [Head.source]
    · split at hh
      · cases hh
      · obtain ⟨⟨key, rest⟩, -, he⟩ := Option.map_eq_some_iff.1 hh
        cases he
        simp [Head.source]
  have := List.length_pos_iff.2 hne
  rw [← hr, List.length_append]
  omega

/-- A scalar that is read as a block, by its text and the place after it. -/
theorem exists_scalar_of_leaf {p : Place} {lead : Text} {o : Opening} (h : p.leaf lead = .ok o) :
    ∃ text q, p.scalar = .ok (text, q) ∧ o = .leaf lead text q := by
  obtain ⟨⟨text, q⟩, hs, ho⟩ := exists_of_bind_eq_ok h
  cases ho
  exact ⟨text, q, hs, rfl⟩

/-- What opens at a place is the first entry there, or else a scalar. -/
theorem head?_or_leaf_of_opening {p : Place} {lead : Text} {o : Opening}
    (h : p.opening lead = .ok o) :
    (∃ column head q, p.head? = some (head, q) ∧ o = .block lead column head q) ∨
      p.leaf lead = .ok o := by
  unfold opening at h
  split at h
  · rename_i head q hh
    obtain ⟨column, -, ho⟩ := exists_of_bind_eq_ok h
    cases ho
    exact .inl ⟨column, head, q, hh, rfl⟩
  · exact .inr h

theorem leads_leaf {p : Place} {lead : Text} {o : Opening} (h : p.leaf lead = .ok o) :
    p.Leads o.after := by
  obtain ⟨text, q, hs, rfl⟩ := exists_scalar_of_leaf h
  exact (reaches_scalar hs).leads

theorem leads_opening {p : Place} {lead : Text} {o : Opening} (h : p.opening lead = .ok o) :
    p.Leads o.after := by
  rcases head?_or_leaf_of_opening h with ⟨column, head, q, hh, rfl⟩ | hleaf
  · exact (reaches_head? hh).leads
  · exact leads_leaf hleaf

theorem leaf_ne_block {p q : Place} {lead lead' : Text} {column : Nat} {head : Head} :
    p.leaf lead ≠ .ok (.block lead' column head q) := by
  intro h
  obtain ⟨text, r, -, ho⟩ := exists_scalar_of_leaf h
  cases ho

theorem length_opening {p q : Place} {lead lead' : Text} {column : Nat} {head : Head}
    (h : p.opening lead = .ok (.block lead' column head q)) : q.rest.length < p.rest.length := by
  rcases head?_or_leaf_of_opening h with ⟨column', head', q', hh, ho⟩ | hleaf
  · cases ho
    exact length_head? hh
  · exact absurd hleaf leaf_ne_block

/-- The next entry of a block begins behind the gap. -/
theorem head?_of_sibling {p q : Place} {head next : Head} {column : Nat} {lead : Text}
    (h : p.sibling head column = .ok (some (lead, next, q))) : p.gap.2.head? = some (next, q) := by
  unfold sibling at h
  dsimp only at h
  split at h
  · cases h
  · obtain ⟨c, -, h⟩ := exists_of_bind_eq_ok h
    split at h
    · split at h
      · rename_i hh
        split at h <;> cases h
        exact hh
      · cases h
    · cases h

theorem sibling_some {p q : Place} {head next : Head} {column : Nat} {lead : Text}
    (h : p.sibling head column = .ok (some (lead, next, q))) :
    p.Leads q ∧ q.rest.length < p.rest.length := by
  have hh := head?_of_sibling h
  have hg := p.reaches_gap.leads
  exact ⟨hg.trans (reaches_head? hh).leads, Nat.lt_of_lt_of_le (length_head? hh) hg.length_le⟩

end Place

/-- A value is empty, or it is a scalar or a block behind the gap. -/
theorem Head.value_cases_of_gap {head : Head} {column : Nat} {p : Place} {o : Opening}
    (h : head.value column p = .ok o) :
    o = .leaf [] [] p ∨ p.gap.2.leaf p.gap.1 = .ok o ∨ p.gap.2.opening p.gap.1 = .ok o := by
  unfold Head.value at h
  dsimp only at h
  split at h
  · cases h
    exact .inl rfl
  · split at h
    · cases head with
      | item => exact .inr (.inr h)
      | key => exact .inr (.inl h)
    · obtain ⟨c, -, h⟩ := exists_of_bind_eq_ok h
      split at h
      · exact .inr (.inr h)
      · cases h
        exact .inl rfl

theorem Head.leads_value {head : Head} {column : Nat} {p : Place} {o : Opening}
    (h : head.value column p = .ok o) : p.Leads o.after := by
  rcases Head.value_cases_of_gap h with rfl | hleaf | hopening
  · exact .refl p
  · exact p.reaches_gap.leads.trans (Place.leads_leaf hleaf)
  · exact p.reaches_gap.leads.trans (Place.leads_opening hopening)

theorem Head.length_value {head head' : Head} {column c : Nat} {p q : Place} {lead : Text}
    (h : head.value column p = .ok (.block lead c head' q)) : q.rest.length < p.rest.length := by
  rcases Head.value_cases_of_gap h with ho | hleaf | hopening
  · cases ho
  · exact absurd hleaf Place.leaf_ne_block
  · exact Nat.lt_of_lt_of_le (Place.length_opening hopening) p.reaches_gap.leads.length_le

/-! ### Entries -/

/-- `entries`, with the fact that its recursion rests on. -/
def entriesFrom (column : Nat) (lead : Text) (head : Head) (p : Place) :
    Except Rejection { r : List Tree × Place // p.Leads r.2 } := do
  let ⟨(value, q), hq⟩ ← (show Except Rejection { r : Tree × Place // p.Leads r.2 } from
    match ho : head.value column p with
    | .error e => .error e
    | .ok (.leaf l text q) => .ok ⟨(Head.scalarNode l text, q), Head.leads_value ho⟩
    | .ok (.block l c h q) => do
      let ⟨(es, r), hr⟩ ← entriesFrom c l h q
      return ⟨(⟨(), h.blockKind, [], [], es⟩, r), (Head.leads_value ho).trans hr⟩)
  match hs : q.sibling head column with
  | .error e => .error e
  | .ok none => return ⟨([head.entry lead value], q), hq⟩
  | .ok (some (l, h, q')) => do
    let ⟨(es, r), hr⟩ ← entriesFrom column l h q'
    return ⟨(head.entry lead value :: es, r), (hq.trans (Place.sibling_some hs).1).trans hr⟩
termination_by p.rest.length
decreasing_by
  · exact Head.length_value ho
  · exact Nat.lt_of_lt_of_le (Place.sibling_some hs).2 hq.length_le

/-- The entries of a block at `column`, the first with a given lead and with a head that ends at
`p`; and the place after them. -/
def entries (column : Nat) (lead : Text) (head : Head) (p : Place) :
    Except Rejection (List Tree × Place) :=
  (entriesFrom column lead head p).map (·.1)

/-- A block, and the place after it. -/
def Opening.read : Opening → Except Rejection (Tree × Place)
  | leaf lead text after => return (Head.scalarNode lead text, after)
  | block lead column head after => do
    let (es, q) ← entries column lead head after
    return (⟨(), head.blockKind, [], [], es⟩, q)

/-- An entry is its head and its value, and is followed by the entries at its column. -/
theorem entries_eq (column : Nat) (lead : Text) (head : Head) (p : Place) :
    entries column lead head p = (do
      let opening ← head.value column p
      let (value, q) ← opening.read
      match ← q.sibling head column with
      | none => return ([head.entry lead value], q)
      | some (l, h, q') => do
        let (es, r) ← entries column l h q'
        return (head.entry lead value :: es, r)) := by
  rw [entries, entriesFrom, ← bind_assoc]
  refine map_val_bind ?_ fun ⟨(value, q), hq⟩ => ?_
  · split
    · rename_i ho
      conv => rhs; rw [ho]
      rfl
    · rename_i ho
      conv => rhs; rw [ho]
      rfl
    · rename_i ho
      conv => rhs; rw [ho]
      exact map_val_bind rfl fun _ => rfl
  · dsimp only
    split
    · rename_i hs
      conv => rhs; rw [hs]
      rfl
    · rename_i hs
      conv => rhs; rw [hs]
      rfl
    · rename_i hs
      conv => rhs; rw [hs]
      exact map_val_bind rfl fun _ => rfl

theorem leads_entries {column : Nat} {lead : Text} {head : Head} {p q : Place} {es : List Tree}
    (h : entries column lead head p = .ok (es, q)) : p.Leads q := by
  obtain ⟨⟨v, hv⟩, -, rfl⟩ := exists_of_map_eq_ok h
  exact hv

theorem Opening.leads_read {o : Opening} {q : Place} {t : Tree} (h : o.read = .ok (t, q)) :
    o.after.Leads q := by
  cases o with
  | leaf lead text after =>
    cases h
    exact .refl _
  | block lead column head after =>
    obtain ⟨⟨es, r⟩, he, h⟩ := exists_of_bind_eq_ok h
    cases h
    exact leads_entries he

end YamlIndent
