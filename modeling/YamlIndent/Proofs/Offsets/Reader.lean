import YamlIndent.Proofs.Offsets.Place
import YamlIndent.Proofs.Source.Progress

/-!
# Blocks by offsets

Blocks and their entries, read by offsets. An entry of a mapping is read again from its key, which
has to be there; the value of an entry is looked for behind a gap, and the reader goes back if none
is found; and no round begins unless it leaves less of the source than the one before. None of this
ever stops the reader: what is read so is what is read at places.

## Main definitions

* `ByOffset.headAt`, `ByOffset.goesOn`, `ByOffset.reading`: the head of an entry, whether another
  entry follows, and as what a value is read.
* `ByOffset.block`, `ByOffset.entries`, `ByOffset.valueAfter`: a block, the entries of a block, and
  the value behind a head.

## Main results

* `ByOffset.block_eq`, `ByOffset.entries_eq`, `ByOffset.valueAfter_eq`: blocks, entries and values
  are read at offsets as at places.
-/

namespace YamlIndent

/-- Whether a head is a key. -/
def Head.keyed : Head → Bool
  | item => false
  | key .. => true

namespace ByOffset

/-! ### Blocks -/

/-- The scalar at an offset. -/
def leaf (s lead : Text) (i : Nat) : Except Failure (Tree × Nat) := do
  let j ← scalarEnd s i
  return (Head.scalarNode lead (slice s i j), j)

/-- The head of the entry at an offset. An entry of a mapping has to have its key there. -/
def headAt (s : Text) (keyed : Bool) (i : Nat) : Except Failure (Head × Nat) :=
  if keyed then do
    match ← keyEnd s i with
    | none => throw (.missingKey i)
    | some colon =>
      let j ← trimEnd s i colon
      return (.key (slice s i j) (slice s j (colon + 1)), colon + 1)
  else return (.item, i + 1)

/-- An entry of a mapping, or one of a sequence, begins at an offset. -/
def isEntryAt (s : Text) (keyed : Bool) (i : Nat) : Except Failure Bool :=
  if keyed then do return (← keyEnd s i).isSome else isItemAt s i

/-- The next entry of a block at `column` begins at an offset behind a gap. -/
def goesOn (s : Text) (keyed : Bool) (column : Nat) (gap : Text) (i : Nat) :
    Except Failure Bool :=
  if i < s.length && hasBreak gap then do
    let c ← ByOffset.column s i
    if c == column then isEntryAt s keyed i else return false
  else return false

/-- As what the value of an entry is read. -/
inductive Reading where
  /-- The entry has no value. -/
  | nothing
  | scalar
  | block
  deriving DecidableEq, Repr

/-- As what the value of an entry at `column` is read at an offset behind a gap. -/
def reading (s : Text) (keyed : Bool) (column : Nat) (gap : Text) (i : Nat) :
    Except Failure Reading :=
  if i < s.length then do
    if ← isDocumentMarkAt s i then return .nothing
    else if !hasBreak gap then return if keyed then .scalar else .block
    else
      let c ← ByOffset.column s i
      if column < c then return .block
      else if c == column && keyed then
        if ← isItemAt s i then return .block
        else if (← keyEnd s i).isNone then return .scalar
        else return .nothing
      else return .nothing
  else return .nothing

mutual

/-- The block at an offset. -/
def block (s lead : Text) (i : Nat) : Except Failure (Tree × Nat) := do
  if ← isItemAt s i then
    let c ← column s i
    let (es, j) ← entries s false c lead i
    return (⟨(), .sequence, [], [], es⟩, j)
  else if (← keyEnd s i).isSome then
    let c ← column s i
    let (es, j) ← entries s true c lead i
    return (⟨(), .mapping, [], [], es⟩, j)
  else leaf s lead i
termination_by 3 * (s.length - i) + 1

/-- The entries of a block at a column, from the one at an offset on. -/
def entries (s : Text) (keyed : Bool) (column : Nat) (lead : Text) (i : Nat) :
    Except Failure (List Tree × Nat) := do
  let (head, j) ← headAt s keyed i
  if s.length - j < s.length - i then
    let (value, k) ← valueAfter s keyed column j
    let next ← skip s k
    let gap := slice s k next
    if ← goesOn s keyed column gap next then
      if s.length - next < s.length - i then
        let (es, last) ← entries s keyed column gap next
        return (head.entry lead value :: es, last)
      else throw (.stuck next)
    else return ([head.entry lead value], k)
  else throw (.stuck j)
termination_by 3 * (s.length - i)

/-- The value of an entry at a column whose head ends at an offset, and the end of that value. -/
def valueAfter (s : Text) (keyed : Bool) (column : Nat) (i : Nat) :
    Except Failure (Tree × Nat) := do
  let j ← skip s i
  let lead := slice s i j
  match ← reading s keyed column lead j with
  | .nothing => return (Head.scalarNode [] [], i)
  | .scalar => leaf s lead j
  | .block => if s.length - j ≤ s.length - i then block s lead j else throw (.stuck j)
termination_by 3 * (s.length - i) + 2

end

end ByOffset

open ByOffset

variable {s t : Text} {i : Nat} {p q : Place}

/-- As what the value of an entry with a head at `column` is read at a place. -/
def Head.reading (head : Head) (column : Nat) (p : Place) :
    Except Rejection Reading :=
  let (lead, q) := p.gap
  if q.atEnd || q.atDocumentMark then return .nothing
  else if !hasBreak lead then return if head.keyed then .scalar else .block
  else do
    let c ← q.checkedColumn
    if column < c then return .block
    else if c == column && head.keyed then
      return if q.atItem then .block else if q.head?.isNone then .scalar else .nothing
    else return .nothing

/-! ### Heads and values at offsets -/

namespace Place

theorem atItem_eq (p : Place) : p.atItem = p.head?.any (!·.1.keyed) := by
  rw [head?]
  cases p.atItem with
  | true => rfl
  | false =>
    cases p.atDocumentMark with
    | true => rfl
    | false => cases splitKey p.rest <;> rfl

theorem atKey_eq (p : Place) : p.atKey = p.head?.any (·.1.keyed) := by
  rw [atKey]
  rcases p.head? with _ | ⟨_ | _, _⟩ <;> rfl

/-- A head that is a key is the part of the key in front of its last blanks, and those blanks with
the colon. -/
theorem key_of_head? {text indicator : Text} (h : p.head? = some (.key text indicator, q)) :
    p.atItem = false ∧ p.atDocumentMark = false ∧ ∃ key rest, splitKey p.rest = some (key, rest) ∧
      (splitTrailing key).1 = text ∧ (splitTrailing key).2 ++ [':'] = indicator := by
  have hitem := p.atItem_eq
  rw [h, Option.any_some] at hitem
  rw [head?, hitem] at h
  cases hm : p.atDocumentMark with
  | true => simp [hm, Head.keyed] at h
  | false =>
    simp only [hm, Head.keyed, Bool.not_true, Bool.false_eq_true, if_false] at h
    obtain ⟨⟨key, rest⟩, hk, he⟩ := Option.map_eq_some_iff.1 h
    simp only [Prod.mk.injEq, Head.key.injEq] at he
    exact ⟨hitem, rfl, key, rest, hk, he.1⟩

theorem blockKind_eq_iff (a b : Head) : a.blockKind = b.blockKind ↔ a.keyed = b.keyed := by
  cases a <;> cases b <;> simp [Head.blockKind, Head.keyed]

/-- The head of a next entry stands behind the gap, and has the shape of the entry before. -/
theorem of_sibling {lead : Text} {head next : Head} {column : Nat}
    (h : p.sibling head column = .ok (some (lead, next, q))) :
    lead = p.gap.1 ∧ p.gap.2.head? = some (next, q) ∧ next.keyed = head.keyed := by
  rw [sibling] at h
  dsimp only at h
  split at h
  · cases h
  · obtain ⟨c, -, h⟩ := exists_of_bind_eq_ok h
    split at h
    · split at h
      · rename_i hh
        split at h
        · rename_i hk
          cases h
          exact ⟨rfl, hh, (blockKind_eq_iff _ _).1 hk⟩
        · cases h
      · cases h
    · cases h

namespace AtOffset

/-- A scalar is read at an offset as at the place there. -/
theorem leaf_eq (h : p.AtOffset s i) (he : p.atEnd = false) (lead : Text) :
    ByOffset.leaf s lead i = atOffsets s (p.leaf lead >>= Opening.read) := by
  rw [ByOffset.leaf, h.scalarEnd_eq he, Place.leaf]
  cases hs : p.scalar with
  | error e => rfl
  | ok v =>
    obtain ⟨text, q⟩ := v
    obtain ⟨hq, hslice⟩ := h.of_reaches (reaches_scalar hs)
    change Except.ok (Head.scalarNode lead (slice s i (i + text.length)), i + text.length) = _
    rw [hslice, ← hq.sub_eq]
    rfl

/-- The head of an entry is read at an offset as at the place there. -/
theorem headAt_eq {head : Head} (h : p.AtOffset s i) (hh : p.head? = some (head, q)) :
    headAt s head.keyed i = .ok (head, i + head.source.length) := by
  cases head with
  | item => rfl
  | key text indicator =>
    obtain ⟨hitem, hm, key, rest, hk, htext, hindicator⟩ := key_of_head? hh
    have hsource := (reaches_head? hh).rest_eq
    rw [Head.source, List.append_assoc] at hsource
    have hrest := splitKey_append hk
    have hend : p.atEnd = false := by
      rw [atEnd, ← hrest]
      simp
    have hcolon : keyEnd s i = .ok (some (i + key.length)) := by
      rw [h.keyEnd_eq hend, hitem, hm, hk]
      rfl
    have htrim := h.trimEnd_eq hrest
    rw [htext] at htrim
    have hslice : slice s i (i + text.length) = text := h.slice_eq (b := []) hsource
    have hstop : i + key.length + 1 = i + text.length + indicator.length := by
      rw [← htext, ← hindicator, ← congrArg List.length (splitTrailing_append key)]
      simp only [List.length_append, List.length_singleton]
      omega
    rw [headAt, Head.keyed, if_pos rfl, hcolon, ok_bind]
    simp only [htrim, ok_bind, hstop, h.slice_eq hsource, hslice]
    rw [Head.source, List.length_append, ← Nat.add_assoc]
    rfl

/-- A key ends behind an offset if one stands at the place there. -/
theorem exists_keyEnd_eq (h : p.AtOffset s i) (he : p.atEnd = false) :
    ∃ k, keyEnd s i = .ok k ∧ k.isSome = p.head?.any (·.1.keyed) := by
  refine ⟨_, h.keyEnd_eq he, ?_⟩
  rw [head?]
  cases p.atItem with
  | true => rfl
  | false =>
    cases p.atDocumentMark with
    | true => rfl
    | false => cases splitKey p.rest <;> rfl

/-- An entry like another begins at an offset if a head of the same shape is at the place there. -/
theorem isEntryAt_eq (h : p.AtOffset s i) (he : p.atEnd = false) (keyed : Bool) :
    isEntryAt s keyed i = .ok (p.head?.any fun v => v.1.keyed == keyed) := by
  obtain ⟨k, hk, hsome⟩ := h.exists_keyEnd_eq he
  rw [isEntryAt, h.isItemAt_eq, atItem_eq, hk, ok_bind, hsome]
  cases keyed <;> simp [pure, Except.pure]

/-- Whether a block goes on is decided at an offset as at the place there. -/
theorem goesOn_eq (h : p.AtOffset s i) (head : Head) (column : Nat) :
    goesOn s head.keyed column p.gap.1 (i + p.gap.1.length) =
      ((p.sibling head column).map Option.isSome).mapError (Rejection.failure s) := by
  have hg := h.gap.1
  have hlt := hg.lt_iff
  rw [goesOn, sibling]
  dsimp only
  cases he : p.gap.2.atEnd with
  | true =>
    rw [he] at hlt
    simp [hlt]
    rfl
  | false =>
    rw [hg.column_eq, hg.isEntryAt_eq he]
    simp only [hlt.2 he, decide_true, Bool.true_and, Bool.false_or]
    cases hb : hasBreak p.gap.1 with
    | false => rfl
    | true =>
      cases p.gap.2.checkedColumn with
      | error e => rfl
      | ok c =>
        simp only [Except.mapError, bind, Except.bind, pure, Except.pure]
        by_cases hc : (c == column) = true
        · cases hh : p.gap.2.head? with
          | none => simp [Except.map]
          | some v =>
            by_cases hk : v.1.keyed = head.keyed
            · have hkind := (blockKind_eq_iff _ _).2 hk
              simp [Except.map, hc, hk, hkind]
            · have hkind := mt (blockKind_eq_iff _ _).1 hk
              simp [Except.map, hc, hk, hkind]
        · simp [Except.map, hc]

/-- As what a value is read is decided at an offset as at the place there. -/
theorem reading_eq (h : p.AtOffset s i) (head : Head) (column : Nat) :
    reading s head.keyed column p.gap.1 (i + p.gap.1.length) =
      (head.reading column p).mapError (Rejection.failure s) := by
  have hg := h.gap.1
  have hlt := hg.lt_iff
  rw [reading, Head.reading]
  dsimp only
  cases he : p.gap.2.atEnd with
  | true =>
    rw [he] at hlt
    simp [hlt]
    rfl
  | false =>
    rw [hg.isDocumentMarkAt_eq, if_pos (hlt.2 he), ok_bind, Bool.false_or]
    cases hm : p.gap.2.atDocumentMark with
    | true => rfl
    | false =>
      cases hasBreak p.gap.1 with
      | false => rfl
      | true =>
        rw [hg.column_eq, hg.isItemAt_eq, hg.keyEnd_eq he, head?, hm]
        cases p.gap.2.checkedColumn with
        | error e => rfl
        | ok c =>
          simp only [Except.mapError, bind, Except.bind, pure, Except.pure]
          by_cases hlt : column < c
          · simp [hlt]
          · by_cases hc : (c == column && head.keyed) = true
            · cases p.gap.2.atItem <;> cases splitKey p.gap.2.rest <;> simp [hlt, hc]
            · simp [hlt, hc]

end AtOffset

end Place

theorem Head.atEnd_of_reading (head : Head) {column : Nat} {p : Place} {r : Reading}
    (h : head.reading column p = .ok r) (hr : r ≠ .nothing) : p.gap.2.atEnd = false := by
  rw [← Bool.not_eq_true]
  intro he
  rw [reading] at h
  simp only [he, Bool.true_or, if_true] at h
  cases h
  exact hr rfl

theorem Head.value_eq (head : Head) (column : Nat) (p : Place) :
    head.value column p = (head.reading column p >>= fun
      | .nothing => return .leaf [] [] p
      | .scalar => p.gap.2.leaf p.gap.1
      | .block => p.gap.2.opening p.gap.1) := by
  rw [value, reading]
  dsimp only
  split
  · rfl
  · split
    · cases head <;> rfl
    · cases p.gap.2.checkedColumn with
      | error e => rfl
      | ok c =>
        simp only [bind, Except.bind, pure, Except.pure]
        by_cases hlt : column < c
        · simp [hlt]
        · rw [p.gap.2.atItem_eq, p.gap.2.atKey_eq]
          cases head with
          | item => simp [hlt, keyed, blockKind]
          | key text indicator =>
            by_cases hc : (c == column) = true
            · match hh : p.gap.2.head? with
              | none => simp [hlt, hc, keyed, blockKind, Place.opening, hh]
              | some (.item, _) => simp [hlt, hc, keyed, blockKind]
              | some (.key .., _) => simp [hlt, hc, keyed, blockKind]
            · simp [hlt, hc, keyed, blockKind]

/-! ### Blocks at offsets -/

namespace ByOffset

mutual

/-- A block is read at an offset as at the place there. -/
theorem block_eq {i : Nat} {p : Place} (h : p.AtOffset s i) (he : p.atEnd = false) (lead : Text) :
    block s lead i = atOffsets s (p.opening lead >>= Opening.read) := by
  obtain ⟨k, hk, hsome⟩ := h.exists_keyEnd_eq he
  rw [block, h.isItemAt_eq, ok_bind, p.atItem_eq, hk, ok_bind, hsome]
  cases hh : p.head? with
  | none =>
    rw [Place.opening, hh]
    exact h.leaf_eq he lead
  | some v =>
    obtain ⟨head, q⟩ := v
    rw [Place.opening, hh, h.column_eq]
    have hentries := fun column => entries_eq h hh column lead
    cases head with
    | item =>
      simp only [Option.any_some, Head.keyed, Bool.not_false, if_true] at hentries ⊢
      rw [bind_assoc]
      refine mapError_bind fun c hc => ?_
      rw [hentries]
      exact atOffsets_bind fun v hv => rfl
    | key text indicator =>
      simp only [Option.any_some, Head.keyed, Bool.not_true, Bool.false_eq_true, if_false,
        if_true] at hentries ⊢
      rw [bind_assoc]
      refine mapError_bind fun c hc => ?_
      rw [hentries]
      exact atOffsets_bind fun v hv => rfl
termination_by 3 * p.rest.length + 1

/-- Entries are read from the offset of the first as from the place behind its head. Every round
leaves less of the source, as the place of the next entry lies further on. -/
theorem entries_eq {i : Nat} {p q : Place} {head : Head} (h : p.AtOffset s i)
    (hh : p.head? = some (head, q)) (column : Nat) (lead : Text) :
    ByOffset.entries s head.keyed column lead i =
      atOffsets s (YamlIndent.entries column lead head q) := by
  have hq := (h.of_reaches (Place.reaches_head? hh)).1
  have hlt := Place.length_head? hh
  have hi := h.length_eq
  have hj := hq.length_eq
  rw [ByOffset.entries, h.headAt_eq hh, ok_bind, entries_eq_bind, ← bind_assoc]
  dsimp only
  rw [if_pos (by omega), valueAfter_eq hq head column]
  refine atOffsets_bind fun v hv => ?_
  obtain ⟨value, r⟩ := v
  obtain ⟨o, ho, hread⟩ := exists_of_bind_eq_ok hv
  have hl := (Head.leads_value ho).trans (Opening.leads_read hread)
  have hr := hq.leads hl
  have hg := hr.gap
  have hle := (hl.trans r.reaches_gap.leads).length_le
  have hk := hg.1.length_eq
  dsimp only
  rw [hr.skip_eq, ok_bind, hg.2, hr.goesOn_eq, entriesAfter]
  cases hs : r.sibling head column with
  | error e => rfl
  | ok next =>
    match next with
    | none => rfl
    | some (l, next, q') =>
      obtain ⟨rfl, hnext, hkeyed⟩ := Place.of_sibling hs
      have hentries := entries_eq hg.1 hnext column r.gap.1
      rw [hkeyed] at hentries
      have hpos : s.length - (s.length - r.rest.length + r.gap.1.length) < s.length - i := by omega
      simp only [Except.map, Except.mapError, Option.isSome_some, ok_bind, if_true, hpos, hentries]
      exact atOffsets_bind fun v hv => rfl
termination_by 3 * p.rest.length

/-- The value behind a head is read at an offset as at the place there. -/
theorem valueAfter_eq {i : Nat} {p : Place} (h : p.AtOffset s i) (head : Head) (column : Nat) :
    valueAfter s head.keyed column i = atOffsets s (head.value column p >>= Opening.read) := by
  have hg := h.gap
  have hi := h.length_eq
  have hj := hg.1.length_eq
  rw [valueAfter, h.skip_eq, ok_bind, hg.2]
  dsimp only
  rw [h.reading_eq, head.value_eq, bind_assoc]
  refine mapError_bind fun r hr => ?_
  cases r with
  | nothing =>
    have hi := h.sub_eq
    simp only [pure_bind, Opening.read, atOffsets]
    rw [← hi]
    rfl
  | scalar => exact hg.1.leaf_eq (head.atEnd_of_reading hr (by simp)) p.gap.1
  | block =>
    dsimp only
    rw [if_pos (by omega)]
    exact block_eq hg.1 (head.atEnd_of_reading hr (by simp)) p.gap.1
termination_by 3 * p.rest.length + 2

end

end ByOffset

end YamlIndent
