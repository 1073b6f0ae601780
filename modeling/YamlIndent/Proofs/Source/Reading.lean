import YamlIndent.Results
import YamlIndent.Proofs.Source.Syntax

/-!
# Reading blocks

To read entries is to find syntax in the source: entries that are spelled and nested, and that end
where reading stops. Both directions hold. What is spelled and nested is read as it is written, and
whatever is read has been written so.

## Main results

* `Entries.entries_eq_ok`: entries that are spelled, nested and end are read.
* `exists_entries_of_eq_ok`: what is read are such entries.
-/

namespace YamlIndent

variable {line lead rest after : Text} {head : Head} {k : Nat}

/-! ### Places behind a lead -/

theorem StandsAt.lineAfter_eq (h : StandsAt lead k) (line : Text) :
    lineAfter line lead = List.replicate k ' ' := by
  rw [lineAfter_of_hasBreak h.1, h.2, List.reverse_replicate]

theorem lineAfter_ne_nil (h : line ≠ []) (hl : hasBreak lead = false) :
    lineAfter line lead ≠ [] := by
  rw [lineAfter_of_not_hasBreak hl]
  exact fun he => h (List.append_eq_nil_iff.1 he).2

theorem length_lineAfter (hl : hasBreak lead = false) (line : Text) :
    (lineAfter line lead).length = line.length + lead.length := by
  rw [lineAfter_of_not_hasBreak hl, List.length_append, List.length_reverse, Nat.add_comm]

namespace Place

theorem gap_eq (h : GapBefore lead rest) (line : Text) :
    gap ⟨line, lead ++ rest⟩ = (lead, ⟨lineAfter line lead, rest⟩) := by
  simp only [gap, splitGap_append_iff.2 h, past]

theorem checkedColumn_of_standsAt (h : StandsAt lead k) (line rest : Text) :
    checkedColumn ⟨lineAfter line lead, rest⟩ = .ok k := by
  have ht : ('\t' ∈ List.replicate k ' ') = False := by
    rw [eq_iff_iff, iff_false]
    exact fun hm => absurd (List.eq_of_mem_replicate hm) (by decide)
  rw [checkedColumn, tabbed, h.lineAfter_eq, List.contains_eq_mem, decide_eq_false (by simp [ht]),
    Bool.false_and, if_neg Bool.false_ne_true, column, List.length_replicate]

/-- A lead with an untabbed end puts a token at the column where it stands. -/
theorem standsAt_of_checkedColumn (hb : hasBreak lead) (hl : (lastLine lead).all isBlank)
    (h : checkedColumn ⟨lineAfter line lead, rest⟩ = .ok k) : StandsAt lead k := by
  rw [checkedColumn, lineAfter_of_hasBreak hb, tabbed, List.all_reverse, hl, Bool.and_true] at h
  split at h
  · cases h
  · rename_i ht
    cases h
    refine ⟨hb, List.eq_replicate_iff.2 ⟨(List.length_reverse).symm, fun c hc => ?_⟩⟩
    have hblank := List.all_eq_true.1 hl c hc
    simp only [isBlank, Bool.or_eq_true, beq_iff_eq] at hblank
    rcases hblank with rfl | rfl
    · rfl
    · refine absurd ?_ ht
      rw [List.contains_eq_mem, decide_eq_true_eq, List.mem_reverse]
      exact hc

theorem atDocumentMark_of_ne_nil (h : line ≠ []) (rest : Text) :
    atDocumentMark ⟨line, rest⟩ = false := by
  cases line with
  | nil => exact absurd rfl h
  | cons c line => rw [atDocumentMark_eq, List.isEmpty_cons, Bool.false_and]

/-- No mark of a document stands where a token is introduced, on a line that was begun or broken. -/
theorem atDocumentMark_of_introduces (h : Introduces lead rest)
    (hl : line ≠ [] ∨ hasBreak lead) :
    atDocumentMark ⟨lineAfter line lead, rest⟩ = false := by
  by_cases hb : hasBreak lead
  · rw [atDocumentMark_eq, lineAfter_of_hasBreak hb]
    cases hlast : lastLine lead with
    | cons c t => rw [List.isEmpty_reverse, List.isEmpty_cons, Bool.false_and]
    | nil => rw [h.2 ⟨hb, hlast⟩, Bool.and_false]
  · have hb' : hasBreak lead = false := by simpa using hb
    exact atDocumentMark_of_ne_nil (lineAfter_ne_nil (hl.resolve_right hb) hb') rest

theorem head?_of_headOf? (hm : atDocumentMark ⟨line, head.source ++ rest⟩ = false)
    (h : headOf? (head.source ++ rest) = some (head, rest)) :
    head? ⟨line, head.source ++ rest⟩ = some (head, ⟨lineAfter line head.source, rest⟩) := by
  rw [head?_eq, hm, if_neg Bool.false_ne_true, h]
  rfl

theorem head?_eq_none (h : headOf? rest = none) (line : Text) : head? ⟨line, rest⟩ = none := by
  rw [head?_eq, h]
  split <;> rfl

theorem leaf_of_scalarOf? {text : Text} (h : scalarOf? (text ++ after) = some (text, after))
    (line lead : Text) :
    Place.leaf lead ⟨line, text ++ after⟩ = .ok (.leaf lead text ⟨lineAfter line text, after⟩) := by
  have hs : scalar ⟨line, text ++ after⟩ = .ok (text, ⟨lineAfter line text, after⟩) :=
    scalar_eq_ok_iff.2 ⟨h, rfl⟩
  rw [Place.leaf, hs]
  rfl

/-- Where a token is introduced, an entry is as far in as it is on its line. -/
theorem opening_of_headOf? (hm : atDocumentMark ⟨line, head.source ++ rest⟩ = false)
    (h : headOf? (head.source ++ rest) = some (head, rest))
    (hc : checkedColumn ⟨line, head.source ++ rest⟩ = .ok k) (lead : Text) :
    opening lead ⟨line, head.source ++ rest⟩ =
      .ok (.block lead k head ⟨lineAfter line head.source, rest⟩) := by
  rw [opening, head?_of_headOf? hm h, hc]
  rfl

theorem opening_of_scalarOf? {text : Text} (hn : headOf? (text ++ after) = none)
    (h : scalarOf? (text ++ after) = some (text, after)) (line lead : Text) :
    opening lead ⟨line, text ++ after⟩ = .ok (.leaf lead text ⟨lineAfter line text, after⟩) := by
  rw [opening, head?_eq_none hn]
  exact leaf_of_scalarOf? h line lead

theorem atKey_eq_false (h : ∀ text indicator r, headOf? rest ≠ some (.key text indicator, r))
    (line : Text) : atKey ⟨line, rest⟩ = false := by
  rw [atKey, head?_eq]
  by_cases hm : atDocumentMark ⟨line, rest⟩ = true
  · rw [if_pos hm]
  · rw [if_neg hm]
    cases hh : headOf? rest with
    | none => rfl
    | some hr =>
      obtain ⟨head, r⟩ := hr
      cases head with
      | item => rfl
      | key text indicator => exact absurd hh (h text indicator r)

theorem atKey_of_beginsWith (hm : atDocumentMark ⟨line, rest⟩ = false)
    (h : beginsWith .mapping rest) : atKey ⟨line, rest⟩ = true := by
  obtain ⟨head, r, hh, hk⟩ := h
  rw [atKey, head?_eq, hm, if_neg Bool.false_ne_true, hh]
  cases head with
  | item => cases hk
  | key text indicator => rfl

end Place

/-! ### Values in the source -/

namespace Head

/-- Nothing is read of a value that has ended where it would begin. -/
theorem value_of_ends {column : Nat} (h : EndsValue head.blockKind column after) (line : Text) :
    head.value column ⟨line, after⟩ = .ok (.leaf [] [] ⟨line, after⟩) := by
  obtain ⟨gap, rest, rfl, hg, hr⟩ := h
  rw [value, Place.gap_eq hg]
  rcases hr with rfl | ⟨hs, hm⟩ | ⟨k, hs, hr⟩
  · rfl
  · have hmark : Place.atDocumentMark ⟨lineAfter line gap, rest⟩ = true := by
      rw [Place.atDocumentMark_eq, hs.lineAfter_eq, hm]
      rfl
    simp only [hmark, Bool.or_true, if_true]
    rfl
  · have hnot : ¬(column < k ∨ (k = column ∧ head.blockKind = .mapping) ∧
        Place.atKey ⟨lineAfter line gap, rest⟩ = false) := by
      rintro (hlt | ⟨⟨rfl, hkind⟩, hkey⟩)
      · rcases hr with h | ⟨h, -⟩ <;> omega
      · rcases hr with h | ⟨-, hmark, hs' | hb⟩
        · omega
        · rw [hkind] at hs'
          cases hs'
        · have hm : Place.atDocumentMark ⟨lineAfter line gap, rest⟩ = false := by
            rw [Place.atDocumentMark_eq, hs.lineAfter_eq]
            cases k with
            | zero => rw [hmark rfl, Bool.and_false]
            | succ k => rfl
          rw [Place.atKey_of_beginsWith hm hb] at hkey
          cases hkey
    simp only [Place.checkedColumn_of_standsAt hs, hs.1]
    split
    · rfl
    · simp only [Bool.not_true, Bool.false_eq_true, if_false, bind, Except.bind, Bool.or_eq_true,
        Bool.and_eq_true, decide_eq_true_eq, beq_iff_eq, Bool.not_eq_true']
      rw [if_neg hnot]
      rfl

/-- A value on the line of its head is any block for an item, and a scalar for a key. -/
theorem value_of_inline {column : Nat} (hl : line ≠ []) (hi : Introduces lead rest)
    (hr : rest ≠ []) (hb : hasBreak lead = false) :
    head.value column ⟨line, lead ++ rest⟩ =
      match head with
      | .item => Place.opening lead ⟨lineAfter line lead, rest⟩
      | .key .. => Place.leaf lead ⟨lineAfter line lead, rest⟩ := by
  have hend : Place.atEnd ⟨lineAfter line lead, rest⟩ = false := by
    cases rest with
    | nil => exact absurd rfl hr
    | cons c rest => rfl
  have hmark := Place.atDocumentMark_of_introduces hi (.inl hl)
  rw [value, Place.gap_eq hi.1]
  dsimp only
  rw [hend, hmark, hb]
  rfl

/-- A value on a later line is what opens there, if the entry owns it. -/
theorem value_of_later {column : Nat} {kind : Kind} (hi : Introduces lead rest) (hr : rest ≠ [])
    (hs : StandsAt lead k) (ho : head.Owns column k kind)
    (hkey : kind ≠ .mapping → ∀ text indicator r, headOf? rest ≠ some (.key text indicator, r))
    (line : Text) :
    head.value column ⟨line, lead ++ rest⟩ =
      Place.opening lead ⟨lineAfter line lead, rest⟩ := by
  have hend : Place.atEnd ⟨lineAfter line lead, rest⟩ = false := by
    cases rest with
    | nil => exact absurd rfl hr
    | cons c rest => rfl
  have hown : column < k ∨ (k = column ∧ head.blockKind = .mapping) ∧
      Place.atKey ⟨lineAfter line lead, rest⟩ = false := by
    rcases ho with hlt | ⟨he, hm, hk⟩
    · exact .inl hlt
    · exact .inr ⟨⟨he, hm⟩, Place.atKey_eq_false (hkey hk) _⟩
  simp only [value, Place.gap_eq hi.1, Place.atDocumentMark_of_introduces hi (.inr hs.1), hend,
    hs.1, Place.checkedColumn_of_standsAt hs, Bool.or_self, Bool.false_eq_true, if_false,
    Bool.not_true, bind, Except.bind, Bool.or_eq_true, Bool.and_eq_true, decide_eq_true_eq,
    beq_iff_eq, Bool.not_eq_true']
  rw [if_pos hown]

end Head

/-! ### The next entry -/

namespace Place

theorem sibling_of_entry {column : Nat} {next : Head} (hs : next.SpelledAt lead rest)
    (hn : next.source ≠ []) (ha : StandsAt lead column) (hk : next.blockKind = head.blockKind)
    (line : Text) :
    sibling head column ⟨line, lead ++ (next.source ++ rest)⟩ =
      .ok (some (lead, next, ⟨lineAfter (lineAfter line lead) next.source, rest⟩)) := by
  have hend : atEnd ⟨lineAfter line lead, next.source ++ rest⟩ = false := by
    cases hsrc : next.source with
    | nil => exact absurd hsrc hn
    | cons c t => rfl
  have hm : atDocumentMark ⟨lineAfter line lead, next.source ++ rest⟩ = false :=
    atDocumentMark_of_introduces hs.1 (.inr ha.1)
  simp only [sibling, gap_eq hs.1.1, hend, ha.1, checkedColumn_of_standsAt ha,
    head?_of_headOf? hm hs.2, Bool.or_self, Bool.not_true, Bool.false_eq_true, if_false, bind,
    Except.bind, beq_self_eq_true, if_true, hk]
  rfl

/-- There is no next entry where a block ends. -/
theorem sibling_of_ends {column : Nat} (h : EndsBlock head.blockKind column after) (line : Text) :
    sibling head column ⟨line, after⟩ = .ok none := by
  obtain ⟨gap, rest, rfl, hg, hr⟩ := h
  have hstands {k : Nat} (hs : StandsAt gap k)
      (hn : k = column → ∀ next p, head? ⟨lineAfter line gap, rest⟩ = some (next, p) →
        next.blockKind ≠ head.blockKind) :
      sibling head column ⟨line, gap ++ rest⟩ = .ok none := by
    simp only [sibling, gap_eq hg, checkedColumn_of_standsAt hs, hs.1, Bool.not_true, Bool.or_false,
      bind, Except.bind, beq_iff_eq]
    split
    · rfl
    · split
      · rename_i hk
        split
        · rename_i next p hh
          rw [if_neg (hn hk next p hh)]
          rfl
        · rfl
      · rfl
  rcases hr with rfl | ⟨hs, hm⟩ | ⟨k, hs, hr⟩
  · rw [sibling, gap_eq hg]
    rfl
  · refine hstands hs fun _ next p hh => ?_
    have hmark : atDocumentMark ⟨lineAfter line gap, rest⟩ = true := by
      rw [atDocumentMark_eq, hs.lineAfter_eq, hm]
      rfl
    rw [head?_eq, hmark, if_pos rfl] at hh
    cases hh
  · refine hstands hs fun hk next p hh => ?_
    rcases hr with hlt | ⟨-, -, hkind, key, r, hkey, hmap⟩
    · omega
    · rw [head?_eq, hkey] at hh
      split at hh
      · cases hh
      · cases hh
        exact fun he => hkind (he ▸ hmap)

end Place

/-! ### What is written is read -/

theorem Entries.spelledAt : {es : Entries} → es.Spelled after →
    es.head.SpelledAt es.lead (es.tail ++ after)
  | .last .., h => h.1
  | .more .., h => by
    rw [tail, List.append_assoc]
    exact h.1

theorem lineAfter_source_ne_nil {t r : Text} (h : headOf? t = some (head, r)) (line : Text) :
    lineAfter line head.source ≠ [] := by
  rw [lineAfter_of_not_hasBreak (hasBreak_source h)]
  intro he
  exact source_ne_nil h (List.reverse_eq_nil_iff.1 (List.append_eq_nil_iff.1 he).1)

theorem checkedColumn_of_not_blank (h : line.all isBlank = false) (rest : Text) :
    Place.checkedColumn ⟨line, rest⟩ = .ok line.length := by
  rw [Place.checkedColumn, Place.tabbed, h, Bool.and_false, if_neg Bool.false_ne_true, Place.column]

/-- The opening of a scalar that is the value of an entry. -/
theorem Head.value_of_scalar {text t r : Text} (hh : headOf? t = some (head, r))
    (hs : (Block.scalar lead text).Spelled after) (ha : head.Admits (.scalar lead text) after)
    (hin : (Block.scalar lead text).Inside head line.length) :
    head.value line.length ⟨lineAfter line head.source, lead ++ (text ++ after)⟩ =
      .ok (.leaf lead text
        ⟨lineAfter (lineAfter (lineAfter line head.source) lead) text, after⟩) := by
  rw [Block.Spelled] at hs
  rw [Block.Inside] at hin
  obtain ⟨hne, hi, hsc⟩ := hs
  have hrest : text ++ after ≠ [] := fun h => hne (List.append_eq_nil_iff.1 h).1
  by_cases hb : hasBreak lead
  · have hn : headOf? (text ++ after) = none := ha (.inr hb)
    rw [Head.Holds, if_pos hb] at hin
    rw [value_of_later hi hrest hin.1 hin.2 fun _ _ _ _ h => by rw [hn] at h; cases h]
    exact Place.opening_of_scalarOf? hn hsc _ lead
  · rw [value_of_inline (lineAfter_source_ne_nil hh line) hi hrest (by simpa using hb)]
    cases head with
    | item => exact Place.opening_of_scalarOf? (ha (.inl rfl)) hsc _ lead
    | key => exact Place.leaf_of_scalarOf? hsc _ lead

/-- The column of a value, as the line in front of it has it. -/
theorem length_lineAfter_eq_innerColumn {kind : Kind} (hk : kind ≠ .scalar)
    (h : head.Holds kind line.length lead) :
    (lineAfter (lineAfter line head.source) lead).length = innerColumn line.length lead := by
  rw [Head.Holds] at h
  rw [innerColumn]
  by_cases hb : hasBreak lead
  · rw [if_pos hb] at h ⊢
    rw [h.1.lineAfter_eq, List.length_replicate]
  · rw [if_neg hb] at h ⊢
    obtain rfl := h.resolve_left hk
    rw [length_lineAfter (by simpa using hb), length_lineAfter (by rfl)]
    rfl

/-- The opening of entries that are the value of an entry, on the line on which they open. -/
theorem Head.value_of_entries {es : Entries} {t r : Text} (hh : headOf? t = some (head, r))
    (hs : es.Spelled after) (hin : head.Holds es.head.blockKind line.length es.lead) :
    let inner := lineAfter (lineAfter line head.source) es.lead
    head.value line.length ⟨lineAfter line head.source, es.written ++ after⟩ =
      .ok (.block es.lead inner.length es.head
        ⟨lineAfter inner es.head.source, es.tail ++ after⟩) := by
  intro inner
  have hat := Entries.spelledAt hs
  have hrest : es.head.source ++ (es.tail ++ after) ≠ [] :=
    fun h => source_ne_nil hat.2 (List.append_eq_nil_iff.1 h).1
  have hline := lineAfter_source_ne_nil hh line
  rw [es.written_eq, List.append_assoc, List.append_assoc]
  rw [Holds] at hin
  by_cases hb : hasBreak es.lead
  · rw [if_pos hb] at hin
    obtain ⟨hstands, hown⟩ := hin
    have hlen : inner.length = indentOf es.lead :=
      (congrArg List.length (hstands.lineAfter_eq _)).trans List.length_replicate
    have hkey (hk : es.head.blockKind ≠ .mapping) (text indicator r : Text) :
        headOf? (es.head.source ++ (es.tail ++ after)) ≠ some (.key text indicator, r) := by
      rw [hat.2]
      intro h
      rw [Option.some.injEq, Prod.mk.injEq] at h
      rw [h.1] at hk
      exact hk rfl
    rw [hlen, value_of_later hat.1 hrest hstands hown hkey]
    exact Place.opening_of_headOf? (Place.atDocumentMark_of_introduces hat.1 (.inr hb)) hat.2
      (Place.checkedColumn_of_standsAt hstands _ _) _
  · rw [if_neg hb] at hin
    obtain rfl := hin.resolve_left (blockKind_ne_scalar _)
    have hb' : hasBreak es.lead = false := by simpa using hb
    have hblank : inner.all isBlank = false := by
      change (lineAfter (lineAfter line item.source) es.lead).all isBlank = false
      rw [lineAfter_of_not_hasBreak hb', lineAfter_of_not_hasBreak (hasBreak_source hh),
        List.all_append, List.all_append]
      change (_ && (false && _)) = false
      rw [Bool.false_and, Bool.and_false]
    rw [value_of_inline hline hat.1 hrest hb']
    exact Place.opening_of_headOf? (Place.atDocumentMark_of_introduces hat.1 (.inl hline)) hat.2
      (checkedColumn_of_not_blank hblank _) _

mutual

/-- The value of an entry is read if it is spelled, stands inside the entry, and ends. -/
theorem Block.value_eq_ok {after line : Text} {head : Head} : (b : Block) → b.Spelled after →
    head.Admits b after → b.Inside head line.length →
    headOf? (head.source ++ (b.written ++ after)) = some (head, b.written ++ after) →
    EndsValue head.blockKind line.length after →
    ∃ o, head.value line.length ⟨lineAfter line head.source, b.written ++ after⟩ = .ok o ∧
      o.read = .ok (b.tree, ⟨lineAfter line (head.source ++ b.written), after⟩)
  | .empty, _, _, _, _, he => by
    rw [Block.written, Block.tree, List.nil_append, List.append_nil, Head.value_of_ends he]
    exact ⟨_, rfl, rfl⟩
  | .scalar lead text, hs, ha, hin, hh, _ => by
    have ho := Head.value_of_scalar hh hs ha hin
    refine ⟨_, by rw [Block.written, List.append_assoc, ho], ?_⟩
    rw [Block.written, Block.tree, lineAfter_append, lineAfter_append]
    rfl
  | .entries es, hs, _, hin, hh, he => by
    rw [Block.Spelled] at hs
    rw [Block.Inside] at hin
    have hlen := length_lineAfter_eq_innerColumn (blockKind_ne_scalar _) hin.1
    have hn := hlen ▸ hin.2
    have hends := hlen ▸ he.endsBlock hin.1
    refine ⟨_, Head.value_of_entries hh hs hin.1, ?_⟩
    have hplace : lineAfter line (head.source ++ es.written) =
        lineAfter (lineAfter (lineAfter line head.source) es.lead)
          (es.head.source ++ es.tail) := by
      rw [es.written_eq, ← lineAfter_append, ← lineAfter_append]
    rw [Opening.read, Entries.entries_eq_ok es hs hn hends, Block.written, Block.tree, hplace]
    rfl

/-- Entries are read if they are spelled, nested, and end. -/
theorem Entries.entries_eq_ok {after line : Text} : (es : Entries) → es.Spelled after →
    es.Nested line.length → EndsBlock es.head.blockKind line.length after →
    entries line.length es.lead es.head ⟨lineAfter line es.head.source, es.tail ++ after⟩ =
      .ok (es.trees, ⟨lineAfter line (es.head.source ++ es.tail), after⟩)
  | .last lead head value, hs, hn, he => by
    rw [Entries.Spelled] at hs
    rw [Entries.Nested] at hn
    obtain ⟨o, ho, hr⟩ := Block.value_eq_ok value hs.2.2 hs.2.1 hn hs.1.2 he.endsValue
    have hsib := Place.sibling_of_ends he (lineAfter line (head.source ++ value.written))
    rw [entries_eq]
    simp only [Entries.head, Entries.lead, Entries.tail, Entries.trees] at hsib ⊢
    simp only [ho, hr, hsib, bind, Except.bind]
    rfl
  | .more lead head value others, hs, hn, he => by
    rw [Entries.Spelled] at hs
    rw [Entries.Nested] at hn
    obtain ⟨hat, hadm, hval, hoth⟩ := hs
    obtain ⟨hin, hstands, hkind, hnested⟩ := hn
    obtain ⟨o, ho, hr⟩ := Block.value_eq_ok value hval hadm hin hat.2
      (Entries.endsValue hoth hstands hkind)
    have hnext := Entries.spelledAt hoth
    have hsib := Place.sibling_of_entry hnext (source_ne_nil hnext.2) hstands hkind
      (lineAfter line (head.source ++ value.written))
    have hlen : (lineAfter (lineAfter line (head.source ++ value.written)) others.lead).length =
        line.length := by
      rw [hstands.lineAfter_eq, List.length_replicate]
    rw [← hlen] at hnested
    have hends : EndsBlock others.head.blockKind
        (lineAfter (lineAfter line (head.source ++ value.written)) others.lead).length after := by
      rw [hlen, hkind]
      exact he
    have hrest := Entries.entries_eq_ok others hoth hnested hends
    have hw : others.written ++ after =
        others.lead ++ (others.head.source ++ (others.tail ++ after)) := by
      rw [others.written_eq, List.append_assoc, List.append_assoc]
    have hplace : lineAfter line (head.source ++ (value.written ++ others.written)) =
        lineAfter (lineAfter (lineAfter line (head.source ++ value.written)) others.lead)
          (others.head.source ++ others.tail) := by
      rw [others.written_eq, ← lineAfter_append, ← lineAfter_append, List.append_assoc]
    rw [hlen] at hrest
    rw [← hw] at hsib
    rw [entries_eq]
    simp only [Entries.head, Entries.lead, Entries.tail, Entries.trees, List.append_assoc]
    simp only [ho, hr, hsib, hrest, hplace, bind, Except.bind]
    rfl

end

/-! ### What is read was written -/

namespace Place

theorem exists_gap_eq (line t : Text) : ∃ lead rest, t = lead ++ rest ∧ GapBefore lead rest ∧
    gap ⟨line, t⟩ = (lead, ⟨lineAfter line lead, rest⟩) := by
  have ht := splitGap_append false t
  have hg : GapBefore (splitGap false t).1 (splitGap false t).2 := gapBefore_of_splitGap rfl
  exact ⟨_, _, ht.symm, hg, by rw [← gap_eq hg, ht]⟩

theorem introduces_of_atDocumentMark (hg : GapBefore lead rest)
    (hm : atDocumentMark ⟨lineAfter line lead, rest⟩ = false) : Introduces lead rest := by
  refine ⟨hg, fun hs => ?_⟩
  rw [atDocumentMark_eq, hs.lineAfter_eq] at hm
  exact hm

theorem eq_length_of_checkedColumn (h : checkedColumn ⟨line, rest⟩ = .ok k) :
    k = line.length := by
  rw [checkedColumn] at h
  split at h
  · cases h
  · cases h
    rfl

theorem leaf_cases {o : Opening} (h : Place.leaf lead ⟨line, rest⟩ = .ok o) :
    ∃ text after, rest = text ++ after ∧ scalarOf? rest = some (text, after) ∧
      o = .leaf lead text ⟨lineAfter line text, after⟩ := by
  obtain ⟨text, q, hs, rfl⟩ := exists_scalar_of_leaf h
  obtain ⟨hsc, hq⟩ := scalar_eq_ok_iff.1 hs
  exact ⟨text, q.rest, (scalarOf?_append hsc).symm, hsc, by rw [hq]; rfl⟩

theorem opening_cases {o : Opening} (hm : atDocumentMark ⟨line, rest⟩ = false)
    (h : opening lead ⟨line, rest⟩ = .ok o) :
    (∃ head r, rest = head.source ++ r ∧ headOf? rest = some (head, r) ∧
      checkedColumn ⟨line, rest⟩ = .ok line.length ∧
      o = .block lead line.length head ⟨lineAfter line head.source, r⟩) ∨
    (headOf? rest = none ∧ ∃ text after, rest = text ++ after ∧
      scalarOf? rest = some (text, after) ∧ o = .leaf lead text ⟨lineAfter line text, after⟩) := by
  rw [opening, head?_eq, hm, if_neg Bool.false_ne_true] at h
  cases hh : headOf? rest with
  | none =>
    rw [hh] at h
    exact .inr ⟨rfl, leaf_cases h⟩
  | some hr =>
    obtain ⟨head, r⟩ := hr
    rw [hh] at h
    obtain ⟨c, hc, h⟩ := exists_of_bind_eq_ok h
    cases h
    obtain rfl := eq_length_of_checkedColumn hc
    exact .inl ⟨head, r, (headOf?_append hh).symm, rfl, hc, rfl⟩

end Place

/-- What opens behind a line as the value of an entry at a column was written as a scalar, or as the
head of entries, that stands inside the entry. -/
def Head.Opens (head : Head) (column : Nat) (line t : Text) (o : Opening) : Prop :=
  (∃ lead text after p, t = lead ++ (text ++ after) ∧ o = .leaf lead text p ∧ p.rest = after ∧
    (Block.scalar lead text).Spelled after ∧ head.Admits (.scalar lead text) after ∧
    (Block.scalar lead text).Inside head column) ∨
  ∃ lead next rest, t = lead ++ (next.source ++ rest) ∧ next.SpelledAt lead rest ∧
    head.Holds next.blockKind column lead ∧
    o = .block lead (lineAfter line lead).length next
      ⟨lineAfter (lineAfter line lead) next.source, rest⟩

theorem Block.spelled_of_scalarOf? {lead rest text after : Text} (hi : Introduces lead rest)
    (hr : rest ≠ []) (hsc : scalarOf? rest = some (text, after)) :
    (Block.scalar lead text).Spelled after := by
  have he := scalarOf?_append hsc
  rw [Block.Spelled, he]
  exact ⟨scalarOf?_ne_nil (hi.1.startsToken hr) hsc, hi, hsc⟩

theorem Head.opens_of_opening {column : Nat} {line lead rest : Text} {o : Opening}
    (hi : Introduces lead rest) (hr : rest ≠ [])
    (hm : Place.atDocumentMark ⟨lineAfter line lead, rest⟩ = false)
    (h : Place.opening lead ⟨lineAfter line lead, rest⟩ = .ok o)
    (hs : head.Holds .scalar column lead)
    (he : ∀ next r, headOf? rest = some (next, r) → head.Holds next.blockKind column lead) :
    head.Opens column line (lead ++ rest) o := by
  rcases Place.opening_cases hm h with ⟨next, r, rfl, hn, -, rfl⟩ | ⟨hn, text, after, rfl, hsc, rfl⟩
  · exact .inr ⟨lead, next, r, rfl, ⟨hi, hn⟩, he next r hn, rfl⟩
  · exact .inl ⟨lead, text, after, _, rfl, rfl, rfl, Block.spelled_of_scalarOf? hi hr hsc,
      fun _ => hn, hs⟩

/-- What opens on a later line stands inside the entry that owns its column. -/
theorem Head.opens_later {column c : Nat} {line lead rest : Text} {o : Opening}
    (hi : Introduces lead rest) (hr : rest ≠ [])
    (hm : Place.atDocumentMark ⟨lineAfter line lead, rest⟩ = false) (hs : StandsAt lead c)
    (hown : column < c ∨ (c = column ∧ head.blockKind = .mapping ∧
      Place.atKey ⟨lineAfter line lead, rest⟩ = false))
    (h : Place.opening lead ⟨lineAfter line lead, rest⟩ = .ok o) :
    head.Opens column line (lead ++ rest) o := by
  obtain rfl := hs.indentOf_eq
  have hholds {kind : Kind} (hk : kind = .mapping →
      Place.atKey ⟨lineAfter line lead, rest⟩ = true) : head.Holds kind column lead := by
    rw [Holds, if_pos hs.1]
    rcases hown with hlt | ⟨heq, hmap, hkey⟩
    · exact ⟨hs, .inl hlt⟩
    · refine ⟨hs, .inr ⟨heq, hmap, fun hkind => ?_⟩⟩
      rw [hk hkind] at hkey
      cases hkey
  refine Head.opens_of_opening hi hr hm h (hholds Kind.noConfusion) fun next r hn => hholds ?_
  exact fun hk => Place.atKey_of_beginsWith hm ⟨next, r, hn, hk⟩

/-- What opens on the line of its entry is anything behind a `-`, and a scalar behind a key. -/
theorem Head.opens_inline {column : Nat} {line lead rest : Text} {o : Opening}
    (hi : Introduces lead rest) (hr : rest ≠ [])
    (hm : Place.atDocumentMark ⟨lineAfter line lead, rest⟩ = false) (hb : hasBreak lead = false)
    (h : (match head with
      | .item => Place.opening lead ⟨lineAfter line lead, rest⟩
      | .key .. => Place.leaf lead ⟨lineAfter line lead, rest⟩) = .ok o) :
    head.Opens column line (lead ++ rest) o := by
  have hb' : ¬hasBreak lead = true := Bool.eq_false_iff.1 hb
  cases head with
  | item =>
    refine Head.opens_of_opening hi hr hm h ?_ fun next r _ => ?_ <;> rw [Holds, if_neg hb']
    · exact .inl rfl
    · exact .inr rfl
  | key k indicator =>
    obtain ⟨text, after, rfl, hsc, rfl⟩ := Place.leaf_cases h
    refine .inl ⟨lead, text, after, _, rfl, rfl, rfl, Block.spelled_of_scalarOf? hi hr hsc, ?_, ?_⟩
    · rintro (hk | hk)
      · cases hk
      · exact absurd hk hb'
    · rw [Block.Inside, Holds, if_neg hb']
      exact .inl rfl

/-- What opens as the value of an entry is nothing, a scalar or entries that stand inside it. -/
theorem Head.value_cases {column : Nat} {line t : Text} {o : Opening}
    (h : head.value column ⟨line, t⟩ = .ok o) :
    o = .leaf [] [] ⟨line, t⟩ ∨ head.Opens column line t o := by
  obtain ⟨lead, rest, rfl, hg, hgap⟩ := Place.exists_gap_eq line t
  rw [value, hgap] at h
  simp only at h
  split at h
  · cases h
    exact .inl rfl
  · rename_i hend
    rw [Bool.or_eq_true, not_or, Bool.not_eq_true, Bool.not_eq_true] at hend
    obtain ⟨hend, hm⟩ := hend
    have hi := Place.introduces_of_atDocumentMark hg hm
    have hr : rest ≠ [] := by
      rintro rfl
      cases hend
    by_cases hb : hasBreak lead
    · simp only [hb, Bool.not_true, Bool.false_eq_true, if_false] at h
      obtain ⟨c, hc, h⟩ := exists_of_bind_eq_ok h
      have hs := Place.standsAt_of_checkedColumn hb (hg.all_isBlank_lastLine hr) hc
      split at h
      · rename_i hown
        simp only [Bool.or_eq_true, Bool.and_eq_true, decide_eq_true_eq, beq_iff_eq,
          Bool.not_eq_true', and_assoc] at hown
        exact .inr (Head.opens_later hi hr hm hs hown h)
      · cases h
        exact .inl rfl
    · rw [eq_false_of_ne_true hb, Bool.not_false, if_pos rfl] at h
      exact .inr (Head.opens_inline hi hr hm (eq_false_of_ne_true hb) h)

theorem Place.sibling_cases {next : Head} {column : Nat} {t line : Text} {q : Place}
    (h : sibling head column ⟨line, t⟩ = .ok (some (lead, next, q))) :
    ∃ rest, t = lead ++ (next.source ++ rest) ∧ next.SpelledAt lead rest ∧
      StandsAt lead column ∧ next.blockKind = head.blockKind ∧
      q = ⟨lineAfter (lineAfter line lead) next.source, rest⟩ := by
  obtain ⟨gap, rest, rfl, hg, hgap⟩ := exists_gap_eq line t
  simp only [sibling, hgap] at h
  split at h
  · cases h
  · rename_i hend
    rw [Bool.or_eq_true, not_or, Bool.not_eq_true, Bool.not_eq_true', Bool.not_eq_false] at hend
    obtain ⟨hend, hb⟩ := hend
    have hr : rest ≠ [] := by
      rintro rfl
      cases hend
    obtain ⟨c, hc, hn⟩ := exists_of_bind_eq_ok h
    have hs := standsAt_of_checkedColumn hb (hg.all_isBlank_lastLine hr) hc
    split at hn
    · rename_i hcol
      obtain rfl := beq_iff_eq.1 hcol
      split at hn
      · rename_i hh
        split at hn
        · rename_i hk
          cases hn
          by_cases hm : atDocumentMark ⟨lineAfter line lead, rest⟩ = true
          · rw [head?_eq, hm, if_pos rfl] at hh
            cases hh
          · rw [head?_eq, if_neg hm, Option.map_eq_some_iff] at hh
            obtain ⟨⟨next', r⟩, hr', he⟩ := hh
            cases he
            have hsrc := headOf?_append hr'
            refine ⟨r, by rw [hsrc], ⟨?_, by rw [hsrc, hr']⟩, hs, hk, rfl⟩
            rw [hsrc]
            exact introduces_of_atDocumentMark hg (eq_false_of_ne_true hm)
        · cases hn
      · cases hn
    · cases hn

/-- The text between two places of which one leads to the other. -/
theorem Place.Leads.eq_past {p q : Place} {t : Text} (h : p.Leads q) (ht : p.rest = t ++ q.rest) :
    q = p.past t q.rest := by
  obtain ⟨u, hrest, hline⟩ := h
  rw [← hrest] at ht
  obtain rfl := List.append_cancel_right ht
  cases q
  rw [past, ← hline]

mutual

/-- What is read as the value of an entry was written as a block that is spelled and stands inside
the entry. -/
theorem exists_block_of_value {head : Head} {t line : Text} {o : Opening} {tree : Tree} {q : Place}
    (ho : head.value line.length ⟨lineAfter line head.source, t⟩ = .ok o)
    (hr : o.read = .ok (tree, q)) :
    ∃ b : Block, b.tree = tree ∧ t = b.written ++ q.rest ∧ b.Spelled q.rest ∧
      head.Admits b q.rest ∧ b.Inside head line.length := by
  rcases Head.value_cases ho with rfl | ⟨lead, text, after, p, rfl, rfl, rfl, hs, ha, hin⟩ |
    ⟨lead, next, rest, ht, hat, hholds, rfl⟩
  · cases hr
    exact ⟨.empty, rfl, rfl, trivial, fun _ => trivial, trivial⟩
  · cases hr
    exact ⟨.scalar lead text, rfl, (List.append_assoc _ _ _).symm, hs, ha, hin⟩
  · obtain ⟨⟨trees, p⟩, hes, hr⟩ := exists_of_bind_eq_ok hr
    cases hr
    have hpos := List.length_pos_iff.2 (source_ne_nil hat.2)
    have hlt : rest.length < t.length := by
      rw [ht, List.length_append, List.length_append]
      omega
    obtain ⟨es, rfl, rfl, rfl, rfl, hs, hn⟩ := exists_entries_of_eq_ok hes hat
    refine ⟨.entries es, ?_, ?_, hs, fun _ => trivial, ?_⟩
    · rw [Block.tree]
    · rw [ht, Block.written, es.written_eq, List.append_assoc, List.append_assoc]
    · rw [Block.Inside, ← length_lineAfter_eq_innerColumn (blockKind_ne_scalar _) hholds]
      exact ⟨hholds, hn⟩
termination_by 2 * t.length
decreasing_by omega

/-- What is read as entries was written as entries that are spelled and nested. -/
theorem exists_entries_of_eq_ok {lead : Text} {head : Head} {t line : Text} {trees : List Tree}
    {q : Place} (h : entries line.length lead head ⟨lineAfter line head.source, t⟩ = .ok (trees, q))
    (hat : head.SpelledAt lead t) :
    ∃ es : Entries, es.trees = trees ∧ es.lead = lead ∧ es.head = head ∧
      t = es.tail ++ q.rest ∧ es.Spelled q.rest ∧ es.Nested line.length := by
  rw [entries_eq] at h
  obtain ⟨o, ho, h⟩ := exists_of_bind_eq_ok h
  obtain ⟨⟨value, p⟩, hr, h⟩ := exists_of_bind_eq_ok h
  obtain ⟨next?, hsib, h⟩ := exists_of_bind_eq_ok h
  cases next? with
  | none =>
    cases h
    obtain ⟨b, rfl, rfl, hs, ha, hin⟩ := exists_block_of_value ho hr
    exact ⟨.last lead head b, rfl, rfl, rfl, rfl, ⟨hat, ha, hs⟩, hin⟩
  | some next =>
    obtain ⟨l, next, p'⟩ := next
    obtain ⟨⟨others, p''⟩, hothers, h⟩ := exists_of_bind_eq_ok h
    cases h
    obtain ⟨rest, hrest, hat', hstands, hkind, rfl⟩ := Place.sibling_cases hsib
    have hlen : (lineAfter p.line l).length = line.length := by
      rw [hstands.lineAfter_eq, List.length_replicate]
    have hpos := List.length_pos_iff.2 (source_ne_nil hat'.2)
    have hle : p.rest.length ≤ t.length :=
      ((Head.leads_value ho).trans (Opening.leads_read hr)).length_le
    have hlt : rest.length < t.length := by
      rw [hrest, List.length_append, List.length_append] at hle
      omega
    rw [← hlen] at hothers
    obtain ⟨es, rfl, rfl, rfl, rfl, hs', hn'⟩ := exists_entries_of_eq_ok hothers hat'
    rw [hlen] at hn'
    have hp : p.rest = es.written ++ q.rest := by
      rw [hrest, es.written_eq, List.append_assoc, List.append_assoc]
    obtain ⟨b, rfl, rfl, hs, ha, hin⟩ := exists_block_of_value ho hr
    rw [hp] at hs ha hat ⊢
    exact ⟨.more lead head b es, rfl, rfl, rfl, (List.append_assoc _ _ _).symm,
      ⟨hat, ha, hs, hs'⟩, hin, hstands, hkind, hn'⟩
termination_by 2 * t.length + 1
decreasing_by all_goals omega

end

end YamlIndent
