import YamlIndent.Source.Block

/-!
# Streams of documents

A stream is one document after another. A document begins with what stands in front of its content,
a `---` mark or none; then comes its block, if it has one; and it is closed by a `...` mark, by the
start of the next document, or by the end of the source.

## Main definitions

* `document`: the document at a place.
* `documents`: the documents from a place on.
* `parse`: the tree of a source text.

## Main results

* `leads_document`: reading a document leads on in the source.
* `document_length_lt`: a document takes some of the source, unless nothing is left after it.
-/

namespace YamlIndent

/-- The block of a document at a place, if one stands behind the gap there. -/
def documentBlock (p : Place) : Except Rejection (List Tree × Place) :=
  let (lead, q) := p.gap
  if q.atEnd || q.atDocumentMark then return ([], p)
  else do
    let opening ← q.opening lead
    let (block, after) ← opening.read
    return ([block], after)

/-- The end of a document at a place. -/
def documentEnd (p : Place) : Except Rejection (Tree × Place) :=
  let (lead, q) := p.gap
  if q.atMark Place.endMark then
    let (mark, after) := q.takeMark Place.endMark
    return (⟨(), .documentEnd, lead, mark, []⟩, after)
  else if q.atEnd || q.atMark Place.startMark then return (⟨(), .documentEnd, lead, [], []⟩, q)
  else throw ⟨.strayContent, q⟩

/-- The document at a place, and the place after it. -/
def document (p : Place) : Except Rejection (Tree × Place) := do
  let (lead, q) := p.gap
  let (mark, content) := q.takeMark Place.startMark
  let (block, close) ← documentBlock content
  let (last, after) ← documentEnd close
  return (⟨(), .document, lead, mark, block ++ [last]⟩, after)

theorem leads_documentBlock {p q : Place} {block : List Tree}
    (h : documentBlock p = .ok (block, q)) : p.Leads q := by
  have hg := p.reaches_gap.leads
  unfold documentBlock at h
  simp only at h
  split at h
  · cases h
    exact .refl p
  · obtain ⟨o, ho, h⟩ := exists_of_bind_eq_ok h
    obtain ⟨⟨t, r⟩, hr, h⟩ := exists_of_bind_eq_ok h
    cases h
    exact (hg.trans (Place.leads_opening ho)).trans (Opening.leads_read hr)

theorem leads_documentEnd {p q : Place} {t : Tree} (h : documentEnd p = .ok (t, q)) :
    p.Leads q := by
  have hg := p.reaches_gap.leads
  unfold documentEnd at h
  simp only at h
  split at h
  · cases h
    exact hg.trans (Place.reaches_takeMark _ _).leads
  · split at h
    · cases h
      exact hg
    · cases h

/-- A document ends at the end of the source, at the start of the next document, or after a mark. -/
theorem documentEnd_rest {p q : Place} {t : Tree} (h : documentEnd p = .ok (t, q)) :
    q.rest = [] ∨ (q.atMark Place.startMark ∧ q = p.gap.2) ∨ q.rest.length < p.rest.length := by
  unfold documentEnd at h
  simp only at h
  split at h
  · rename_i hm
    cases h
    refine .inr (.inr ?_)
    have hl := Place.length_takeMark hm
    have hg := p.reaches_gap.leads.length_le
    have hpos : Place.endMark.length = 3 := rfl
    omega
  · split at h
    · rename_i he
      cases h
      simp only [Bool.or_eq_true] at he
      rcases he with he | he
      · exact .inl (List.isEmpty_iff.1 he)
      · exact .inr (.inl ⟨he, rfl⟩)
    · cases h

/-- The parts that a document was read from. -/
theorem document_parts {p r : Place} {t : Tree} (h : document p = .ok (t, r)) :
    ∃ block last q, documentBlock (p.gap.2.takeMark Place.startMark).2 = .ok (block, q) ∧
      documentEnd q = .ok (last, r) ∧
      t = ⟨(), .document, p.gap.1, (p.gap.2.takeMark Place.startMark).1, block ++ [last]⟩ := by
  obtain ⟨⟨block, q⟩, hb, h⟩ := exists_of_bind_eq_ok h
  obtain ⟨⟨last, after⟩, he, h⟩ := exists_of_bind_eq_ok h
  cases h
  exact ⟨block, last, q, hb, he, rfl⟩

theorem leads_document {p r : Place} {t : Tree} (h : document p = .ok (t, r)) : p.Leads r := by
  obtain ⟨_, _, q, hb, he, -⟩ := document_parts h
  exact ((p.reaches_gap.leads.trans (Place.reaches_takeMark _ _).leads).trans
    (leads_documentBlock hb)).trans (leads_documentEnd he)

/-- A document takes some of the source, unless nothing is left after it. -/
theorem document_length_lt {p r : Place} {t : Tree} (h : document p = .ok (t, r))
    (hr : r.atEnd = false) : r.rest.length < p.rest.length := by
  obtain ⟨_, _, q, hb, he, -⟩ := document_parts h
  have hpg := p.reaches_gap.leads
  have hgm := (Place.reaches_takeMark Place.startMark p.gap.2).leads
  have hmq := leads_documentBlock hb
  have hqr := leads_documentEnd he
  have h1 := hpg.length_le
  have h2 := hgm.length_le
  have h3 := hmq.length_le
  rcases documentEnd_rest he with h0 | ⟨hm, rfl⟩ | hlt
  · simp [Place.atEnd, h0] at hr
  · refine Nat.lt_of_not_le fun hle => ?_
    have h4 := hqr.length_le
    have e1 := hgm.eq_of_length_le (by omega)
    have e2 := hmq.eq_of_length_le (by omega)
    rw [← e1.trans e2, Place.gap_gap] at hm
    have hlen := Place.length_takeMark (p := p.gap.2) hm
    have hpos : Place.startMark.length = 3 := rfl
    omega
  · omega

/-- The documents from a place on. -/
def documents (p : Place) : Except Rejection (List Tree) :=
  match _h : document p with
  | .error e => .error e
  | .ok (d, q) =>
    if _hq : q.atEnd then .ok [d]
    else (documents q).map (d :: ·)
termination_by p.rest.length
decreasing_by exact document_length_lt _h (by simpa using _hq)

/-- A stream is a document, and the documents after it unless the source ends there. -/
theorem documents_eq (p : Place) :
    documents p = document p >>= fun v =>
      if v.2.atEnd then .ok [v.1] else (documents v.2).map (v.1 :: ·) := by
  rw [documents]
  split
  · rename_i hd
    rw [hd]
    rfl
  · rename_i hd
    rw [hd]
    rfl

/-- The tree of a source text. -/
def parse (source : Text) : Except Rejection Tree :=
  (documents (.start source)).map fun ds => ⟨(), .stream, [], [], ds⟩

end YamlIndent
