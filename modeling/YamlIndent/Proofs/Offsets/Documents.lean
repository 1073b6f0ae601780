import YamlIndent.Proofs.Formatting
import YamlIndent.Proofs.Offsets.Reader

/-!
# Reading and formatting never fail otherwise

The documents of a source, read by offsets. Reading by offsets gives the tree that reading at places
gives, or rejects the source for the same fault; so no character is looked up behind the end, no
entry has lost its key, and every round leads on. What has a tree is printed and formatted.

## Main definitions

* `ByOffset.documents`, `ByOffset.parse`: the documents from an offset, and the tree of a source.

## Main results

* `ByOffset.documents_eq`: documents are read at offsets as at places.
* `parse_by_offsets`: a source is rejected, or has a tree that is printed and formatted.
-/

namespace YamlIndent

theorem Place.fst_takeMark (mark : Text) (p : Place) :
    (p.takeMark mark).1 = if p.atMark mark then mark else [] := by
  rw [takeMark, apply_ite Prod.fst]

namespace ByOffset

/-- The block of a document from an offset on, and its end. -/
def documentBlock (s : Text) (i : Nat) : Except Failure (List Tree × Nat) := do
  let j ← skip s i
  if j < s.length then
    if ← isDocumentMarkAt s j then return ([], i)
    else
      let (tree, k) ← block s (slice s i j) j
      return ([tree], k)
  else return ([], i)

/-- The end of a document from an offset on. -/
def documentEnd (s : Text) (i : Nat) : Except Failure (Tree × Nat) := do
  let j ← skip s i
  let lead := slice s i j
  if ← isMarkAt Place.endMark s j then return (⟨(), .documentEnd, lead, Place.endMark, []⟩, j + 3)
  else if s.length ≤ j then return (⟨(), .documentEnd, lead, [], []⟩, j)
  else if ← isMarkAt Place.startMark s j then return (⟨(), .documentEnd, lead, [], []⟩, j)
  else throw (.rejected .strayContent j)

/-- The document at an offset, and its end. -/
def document (s : Text) (i : Nat) : Except Failure (Tree × Nat) := do
  let j ← skip s i
  let lead := slice s i j
  let marked ← isMarkAt Place.startMark s j
  let (blocks, k) ← documentBlock s (if marked then j + 3 else j)
  let (last, next) ← documentEnd s k
  return (⟨(), .document, lead, if marked then Place.startMark else [], blocks ++ [last]⟩, next)

/-- The documents from an offset on. -/
def documents (s : Text) (i : Nat) : Except Failure (List Tree) := do
  let (tree, j) ← document s i
  if s.length ≤ j then return [tree]
  else if s.length - j < s.length - i then
    let trees ← documents s j
    return tree :: trees
  else throw (.stuck j)
termination_by s.length - i

/-- The tree of a source. -/
def parse (s : Text) : Except Failure Tree := do
  let trees ← documents s 0
  return ⟨(), .stream, [], [], trees⟩

/-! ### Documents at offsets -/

variable {s : Text} {i : Nat} {p : Place}

theorem documentBlock_eq (h : p.AtOffset s i) :
    documentBlock s i = atOffsets s (YamlIndent.documentBlock p) := by
  have hg := h.gap
  have hlt := hg.1.lt_iff
  rw [documentBlock, h.skip_eq, ok_bind, hg.2, YamlIndent.documentBlock]
  dsimp only
  cases he : p.gap.2.atEnd with
  | true =>
    have hle : ¬ i + p.gap.1.length < s.length := by simp [hlt, he]
    rw [if_neg hle, Bool.true_or, if_pos rfl, ← h.sub_eq]
    rfl
  | false =>
    rw [if_pos (hlt.2 he), hg.1.isDocumentMarkAt_eq, ok_bind, Bool.false_or]
    split
    · rw [← h.sub_eq]
      rfl
    · rw [block_eq hg.1 he, ← bind_assoc]
      exact atOffsets_bind fun v hv => rfl

theorem documentEnd_eq (h : p.AtOffset s i) :
    documentEnd s i = atOffsets s (YamlIndent.documentEnd p) := by
  have hg := h.gap
  have hlt := hg.1.lt_iff
  rw [documentEnd, h.skip_eq, ok_bind, hg.2, hg.1.isMarkAt_eq, ok_bind, hg.1.isMarkAt_eq,
    YamlIndent.documentEnd]
  dsimp only
  split
  · rename_i hm
    have hmark := p.gap.2.fst_takeMark Place.endMark
    have hafter := (hg.1.of_reaches (p.gap.2.reaches_takeMark Place.endMark)).1.sub_eq
    rw [if_pos hm] at hmark
    simp only [atOffsets, pure, Except.pure, Except.map, Except.mapError, hafter, hmark]
    rfl
  · have hend := hg.1.sub_eq
    cases he : p.gap.2.atEnd with
    | true =>
      rw [if_pos (by rw [← Nat.not_lt, hlt, he]; simp), Bool.true_or, if_pos rfl, ← hend]
      rfl
    | false =>
      rw [if_neg (by rw [Nat.not_le, hlt, he]), Bool.false_or, ok_bind, ← hend]
      split <;> rfl

theorem document_eq (h : p.AtOffset s i) :
    document s i = atOffsets s (YamlIndent.document p) := by
  have hg := h.gap
  have htake := hg.1.of_reaches (p.gap.2.reaches_takeMark Place.startMark)
  have hmark := p.gap.2.fst_takeMark Place.startMark
  have hcontent : i + p.gap.1.length + (p.gap.2.takeMark Place.startMark).1.length =
      if p.gap.2.atMark Place.startMark then i + p.gap.1.length + 3 else i + p.gap.1.length := by
    rw [hmark]
    split <;> rfl
  rw [document, h.skip_eq, ok_bind, hg.2, hg.1.isMarkAt_eq, ok_bind, YamlIndent.document]
  dsimp only
  rw [← hmark, ← hcontent, documentBlock_eq htake.1]
  refine atOffsets_bind fun v hv => ?_
  rw [documentEnd_eq (htake.1.leads (leads_documentBlock hv))]
  exact atOffsets_bind fun w hw => rfl

theorem documents_eq {i : Nat} {p : Place} (h : p.AtOffset s i) :
    documents s i = (YamlIndent.documents p).mapError (Rejection.failure s) := by
  have hi := h.length_eq
  rw [documents, document_eq h, YamlIndent.documents_eq]
  cases hd : YamlIndent.document p with
  | error e => rfl
  | ok v =>
    obtain ⟨tree, q⟩ := v
    have hq : q.AtOffset s (s.length - q.rest.length) := h.leads (leads_document hd)
    have hj := hq.length_eq
    have hlt := hq.lt_iff
    have hok : atOffsets s (.ok (tree, q)) = .ok (tree, s.length - q.rest.length) := rfl
    rw [hok, ok_bind]
    change _ = Except.mapError _ (if q.atEnd then _ else _)
    dsimp only
    cases he : q.atEnd with
    | true =>
      rw [if_pos (by rw [← Nat.not_lt, hlt, he]; simp)]
      rfl
    | false =>
      have hpos := document_length_lt hd he
      rw [if_neg (by rw [Nat.not_le, hlt, he]), if_pos (by omega), documents_eq hq]
      cases YamlIndent.documents q <;> rfl
termination_by p.rest.length

end ByOffset

/-- A source is rejected for a fault, or has a tree; reading it by offsets never fails otherwise.
A tree that was read prints as its source, and the pass over it gives a tree that prints, in any
style. -/
theorem parse_by_offsets (style : Style) (s : Text) :
    ByOffset.parse s = (parse s).mapError (Rejection.failure s) ∧
      ((∃ t, ByOffset.parse s = .ok t) ∨
        ∃ fault offset, ByOffset.parse s = .error (.rejected fault offset)) ∧
      ∀ t, ByOffset.parse s = .ok t → t.print = .ok s ∧
        ∃ v out, reindent style t.tagged = .ok v ∧ v.node.print = .ok out := by
  have heq : ByOffset.parse s = (parse s).mapError (Rejection.failure s) := by
    rw [ByOffset.parse, ByOffset.documents_eq (Place.atOffset_start s), parse]
    cases documents (Place.start s) <;> rfl
  cases hp : parse s with
  | error r =>
    rw [hp] at heq
    refine ⟨heq, .inr ⟨_, _, heq⟩, fun t ht => ?_⟩
    rw [heq] at ht
    cases ht
  | ok t =>
    rw [hp] at heq
    refine ⟨heq, .inl ⟨t, heq⟩, fun t' ht => ?_⟩
    rw [heq] at ht
    cases ht
    obtain ⟨ds, hds, rfl⟩ := parse_eq_ok_iff.1 hp
    obtain ⟨v, hv, -, hprint⟩ := exists_print_reindent style hds.laid.lined
    refine ⟨?_, v, _, hv, hprint⟩
    rw [← hds.written_eq]
    exact print_streamTree ds

/-- A source with two documents, an escape, a flow collection and an empty value. -/
theorem parse_by_offsets_documents :
    ∃ t v out, ByOffset.parse "a: \"\\\"b\"\n---\n- [d, e] # f\n- g:\n...\n".toList = .ok t ∧
      t.print = .ok "a: \"\\\"b\"\n---\n- [d, e] # f\n- g:\n...\n".toList ∧
      reindent .standard t.tagged = .ok v ∧ v.node.print = .ok out := by
  have h : (parse "a: \"\\\"b\"\n---\n- [d, e] # f\n- g:\n...\n".toList).isOk := by
    decide +kernel
  obtain ⟨t, ht⟩ := exists_eq_ok_of_isOk h
  obtain ⟨heq, -, hall⟩ := parse_by_offsets .standard
    "a: \"\\\"b\"\n---\n- [d, e] # f\n- g:\n...\n".toList
  rw [ht] at heq
  obtain ⟨hprint, v, out, hv, hout⟩ := hall t heq
  exact ⟨t, v, out, heq, hprint, hv, hout⟩

end YamlIndent
