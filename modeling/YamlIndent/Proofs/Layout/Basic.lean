import YamlIndent.Proofs.Source.Documents
import YamlIndent.Style

/-!
# Blocks laid out in a style

To lay out a block is to give each of its leads the column that the style asks for. The values of an
entry at some column go one step further in, or, on the line of a `-`, to where they begin there;
the entries of a block go to one column. What stands at the top of a document keeps its column. Only
leads change, and of a lead only its columns; so the tokens are spelled as before.

## Main definitions

* `Style.valueLead`: the lead of a value of an entry.
* `Block.layout`, `Entries.layout`: a block below an entry, and entries at a column.
* `Block.layoutTop`: the block of a document.
* `VariantOf`: a lead that differs from another in its columns only.

## Main results

* `variantOf_moveTo`, `variantOf_settle`: leads that are moved differ in their columns only.
* `Block.spelled_layout`, `Entries.spelled_layoutTop`: what is laid out is spelled as before.
-/

namespace YamlIndent

/-! ### Layout -/

/-- The lead of a value of an entry at a column: one step further in if it starts a line, and one
space behind a `-` if the style asks for it. -/
def Style.valueLead (style : Style) (head : Head) (column : Nat) (lead : Text) : Text :=
  if hasBreak lead then moveTo (column + style.step : Nat) lead
  else if head = .item ∧ style.singleGap ∧ lead ≠ [] then [' ']
  else lead

mutual

/-- The value of an entry at a column, laid out. -/
def Block.layout (style : Style) (head : Head) (column : Nat) : Block → Block
  | .empty => .empty
  | .scalar lead text => .scalar (style.valueLead head column lead) text
  | .entries es =>
    let lead := style.valueLead head column es.lead
    .entries (es.layout style (innerColumn column lead) lead)

/-- Entries at a column, laid out; the first of them has its lead already. -/
def Entries.layout (style : Style) (column : Nat) (lead : Text) : Entries → Entries
  | .last _ head value => .last lead head (value.layout style head column)
  | .more _ head value others =>
    .more lead head (value.layout style head column)
      (others.layout style column (moveTo column others.lead))

end

/-- The entries at the top of a document, the first of which is taken to be at a column. -/
def Entries.layoutTop (style : Style) (column : Nat) : Entries → Entries
  | .last lead head value => .last (settle lead) head (value.layout style head column)
  | .more lead head value others =>
    .more (settle lead) head (value.layout style head column)
      (others.layout style (indentOf others.lead) (moveTo (indentOf others.lead) others.lead))

/-- The block at the top of a document, which is taken to open at a column. -/
def Block.layoutTop (style : Style) (column : Nat) : Block → Block
  | .empty => .empty
  | .scalar lead text => .scalar (settle lead) text
  | .entries es => .entries (es.layoutTop style column)

variable {style : Style} {column : Nat} {head : Head} {lead lead' after after' : Text}

@[simp] theorem Entries.lead_layout : (es : Entries) → (es.layout style column lead).lead = lead
  | .last .. | .more .. => rfl

@[simp] theorem Entries.head_layout :
    (es : Entries) → (es.layout style column lead).head = es.head
  | .last .. | .more .. => rfl

@[simp] theorem Entries.lead_layoutTop :
    (es : Entries) → (es.layoutTop style column).lead = settle es.lead
  | .last .. | .more .. => rfl

@[simp] theorem Entries.head_layoutTop :
    (es : Entries) → (es.layoutTop style column).head = es.head
  | .last .. | .more .. => rfl

/-! ### Leads that differ in their columns -/

/-- A lead that differs from another in its columns only. It may come to stand at the margin only if
the other does. -/
structure VariantOf (lead lead' : Text) : Prop where
  gap {rest : Text} : rest ≠ [] → GapBefore lead' rest → GapBefore lead rest
  hasBreak_eq : hasBreak lead = hasBreak lead'
  margin : StandsAt lead 0 → StandsAt lead' 0
  sameLine : hasBreak lead' → SameLine lead lead'

theorem VariantOf.refl (lead : Text) : VariantOf lead lead :=
  ⟨fun _ h => h, rfl, id, fun _ => .refl lead⟩

theorem variantOf_moveTo {k : Nat} (h : StandsAt lead k) (hm : column = 0 → k = 0) :
    VariantOf (moveTo column lead) lead where
  gap _ hg := gapBefore_moveTo h hg column
  hasBreak_eq := by rw [(h.moveTo column).1, h.1]
  margin h0 := hm ((h.moveTo column).unique h0) ▸ h
  sameLine _ := h.sameLine_moveTo column

theorem variantOf_settle {rest : Text} (hr : rest ≠ []) (h : GapBefore lead rest) :
    VariantOf (settle lead) lead where
  gap _ hg := gapBefore_realign _ hg
  hasBreak_eq := hasBreak_realign _ lead
  margin h0 := by
    refine ⟨(hasBreak_realign _ lead).symm.trans h0.1, ?_⟩
    rw [← lastLine_realign (indentOf lead) (h.all_isBlank_lastLine hr)]
    exact h0.2
  sameLine _ := sameLine_realign _ lead

theorem variantOf_valueLead {kind : Kind} {k : Nat} (h : head.Holds kind k lead) :
    VariantOf (style.valueLead head column lead) lead := by
  rw [Head.Holds] at h
  rw [Style.valueLead]
  by_cases hb : hasBreak lead
  · rw [if_pos hb] at h ⊢
    have := style.step_pos
    exact variantOf_moveTo h.1 fun h0 => by omega
  · rw [if_neg hb]
    split
    · rename_i hs
      refine ⟨fun hr hg => ⟨rfl, .inr ⟨rfl, hg.startsToken hr⟩⟩, ?_, fun h0 => ?_, ?_⟩
      · exact (eq_false_of_ne_true hb).symm
      · cases h0.1
      · exact fun h => absurd h hb
    · exact ⟨fun _ hg => hg, rfl, fun h => h, fun _ => .refl lead⟩

/-- A value on a later line comes to stand one step further in than its entry. -/
theorem valueLead_of_hasBreak {kind : Kind} {k : Nat} (style : Style) (column : Nat)
    (hb : hasBreak lead) (h : head.Holds kind k lead) :
    StandsAt (style.valueLead head column lead) (column + style.step) := by
  rw [Head.Holds, if_pos hb] at h
  rw [Style.valueLead, if_pos hb]
  exact h.1.moveTo _

theorem valueLead_of_not_hasBreak (style : Style) (head : Head) (c d : Nat)
    (h : hasBreak lead = false) : style.valueLead head c lead = style.valueLead head d lead := by
  simp [Style.valueLead, h]

theorem innerColumn_of_standsAt {k : Nat} (h : StandsAt lead k) : innerColumn column lead = k := by
  rw [innerColumn, if_pos h.1, h.indentOf_eq]

theorem innerColumn_valueLead_ne_zero {kind : Kind} {k : Nat} (h : head.Holds kind k lead) :
    innerColumn column (style.valueLead head column lead) ≠ 0 := by
  by_cases hb : hasBreak lead
  · have := style.step_pos
    rw [innerColumn_of_standsAt (valueLead_of_hasBreak style column hb h)]
    omega
  · have hv : VariantOf (style.valueLead head column lead) lead := variantOf_valueLead h
    rw [innerColumn, hv.hasBreak_eq, if_neg hb]
    omega

/-! ### Spelling -/

theorem gapBefore_of_head {t : Text} (ht : t ≠ []) (h : GapBefore lead (t ++ after)) :
    GapBefore lead (t ++ after') := by
  cases t with
  | nil => exact absurd rfl ht
  | cons c t =>
    have hr : c :: t ++ after ≠ [] := List.cons_ne_nil _ _
    exact ⟨h.1, .inr ⟨h.inComment_eq hr, h.startsToken hr⟩⟩

theorem headOf?_eq_none_of_sameLine {s t : Text} (h : SameLine s t) (ht : headOf? t = none) :
    headOf? s = none := by
  cases hs : headOf? s with
  | none => rfl
  | some r =>
    obtain ⟨head, r⟩ := r
    obtain ⟨r', hr⟩ := exists_headOf?_of_sameLine h hs
    rw [ht] at hr
    cases hr

theorem scalarOf?_of_sameLine {text : Text} (h : SameLine after' after)
    (hs : scalarOf? (text ++ after) = some (text, after)) :
    scalarOf? (text ++ after') = some (text, after') := by
  obtain ⟨r, hr⟩ := exists_scalarOf?_of_sameLine (h.symm.append_left text) hs
  rw [hr, List.append_cancel_left (scalarOf?_append hr)]

/-- What stands behind a head may change in a way that the head does not see: past its line, or, if
it is a `-`, so that the `-` still ends a token. -/
def Head.Overlooks (head : Head) (rest' rest : Text) : Prop :=
  match head with
  | .item => endsToken rest → endsToken rest'
  | .key .. => SameLine rest' rest

theorem Head.Overlooks.headOf?_eq {rest' rest : Text} (h : head.Overlooks rest' rest)
    (hh : headOf? (head.source ++ rest) = some (head, rest)) :
    headOf? (head.source ++ rest') = some (head, rest') ∧
      startsMark (head.source ++ rest') = startsMark (head.source ++ rest) := by
  cases head with
  | item =>
    have he := headOf?_item.1 hh
    exact ⟨headOf?_item.2 (h he), (startsMark_eq_false_of_item (h he)).trans
      (startsMark_eq_false_of_item he).symm⟩
  | key text indicator =>
    have hl : SameLine _ _ := SameLine.append_left (Head.key text indicator).source h
    obtain ⟨r, hr⟩ := exists_headOf?_of_sameLine hl.symm hh
    refine ⟨?_, startsMark_eq_of_sameLine hl⟩
    rw [hr, List.append_cancel_left (headOf?_append hr)]

theorem Head.SpelledAt.of_variantOf {rest' rest : Text} (h : head.SpelledAt lead rest)
    (hl : VariantOf lead' lead) (hr : head.Overlooks rest' rest) : head.SpelledAt lead' rest' := by
  have hsrc := source_ne_nil h.2
  have hne := h.source_append_ne_nil
  obtain ⟨hhead, hmark⟩ := hr.headOf?_eq h.2
  refine ⟨⟨gapBefore_of_head hsrc (hl.gap hne h.1.1), fun h0 => ?_⟩, hhead⟩
  rw [hmark]
  exact h.1.2 (hl.margin h0)

theorem Block.spelled_scalar_of_variantOf {text : Text}
    (h : (Block.scalar lead text).Spelled after) (hl : VariantOf lead' lead)
    (hs : SameLine after' after) : (Block.scalar lead' text).Spelled after' := by
  rw [Spelled] at h ⊢
  obtain ⟨hne, hi, hsc⟩ := h
  have hrest := List.append_ne_nil_of_left_ne_nil hne after
  refine ⟨hne, ⟨gapBefore_of_head hne (hl.gap hrest hi.1), fun h0 => ?_⟩,
    scalarOf?_of_sameLine hs hsc⟩
  rw [startsMark_eq_of_sameLine (hs.append_left text)]
  exact hi.2 (hl.margin h0)

theorem endsToken_eq_false_of_startsToken {t : Text} (h : startsToken t) : endsToken t = false := by
  cases t with
  | nil => cases h
  | cons c t =>
    simp only [startsToken, Bool.not_eq_true', Bool.or_eq_false_iff] at h
    rw [endsToken, h.1.1, h.1.2]
    rfl

/-- A `-` still ends a token in front of the lead of its value. -/
theorem endsToken_valueLead {s t : Text} (h : VariantOf (style.valueLead .item column lead) lead)
    (ht : startsToken t) (he : endsToken (lead ++ t)) :
    endsToken (style.valueLead .item column lead ++ s) := by
  by_cases hb : hasBreak lead
  · have hline := SameLine.append_of_hasBreak (h.hasBreak_eq.trans hb) hb (h.sameLine hb) s t
    rw [hline.endsToken_eq, he]
  · rw [Style.valueLead, if_neg hb]
    cases lead with
    | nil =>
      rw [List.nil_append, endsToken_eq_false_of_startsToken ht] at he
      cases he
    | cons c lead =>
      split
      · rfl
      · exact he

/-- The lead of a value that is laid out goes on as before on the line of a key. -/
theorem sameLine_valueLead {kind : Kind} {k : Nat} {text indicator s t : Text}
    (h : (Head.key text indicator).Holds kind k lead)
    (hs : hasBreak lead = false → kind = .scalar → SameLine s t) :
    SameLine (style.valueLead (.key text indicator) column lead ++ s) (lead ++ t) := by
  have hv : VariantOf (style.valueLead (.key text indicator) column lead) lead :=
    variantOf_valueLead h
  rw [Head.Holds] at h
  by_cases hb : hasBreak lead
  · exact .append_of_hasBreak (hv.hasBreak_eq.trans hb) hb (hv.sameLine hb) s t
  · rw [if_neg hb] at h
    have hlead : style.valueLead (.key text indicator) column lead = lead := by
      rw [Style.valueLead, if_neg hb, if_neg]
      exact fun h => Head.noConfusion h.1
    rw [hlead]
    exact .append_left lead
      (hs (eq_false_of_ne_true hb) (h.resolve_right fun h => Head.noConfusion h))

/-- A head overlooks that its value is laid out. -/
theorem Head.overlooks_layout {k : Nat} (head : Head) (value : Block) (hs : value.Spelled after)
    (hin : value.Inside head k) (ha : SameLine after' after) :
    head.Overlooks ((value.layout style head column).written ++ after')
      (value.written ++ after) := by
  cases value with
  | empty =>
    cases head with
    | item => exact fun he => ha.endsToken_eq.trans he
    | key text indicator => exact ha
  | scalar lead text =>
    rw [Block.Spelled] at hs
    rw [Block.Inside] at hin
    have htoken := hs.2.1.1.startsToken (List.append_ne_nil_of_left_ne_nil hs.1 after)
    rw [Block.layout, Block.written, Block.written, List.append_assoc, List.append_assoc]
    cases head with
    | item => exact fun he => endsToken_valueLead (variantOf_valueLead hin) htoken he
    | key _ _ => exact sameLine_valueLead hin fun _ _ => ha.append_left text
  | entries es =>
    rw [Block.Spelled] at hs
    rw [Block.Inside] at hin
    have hat := Entries.spelledAt hs
    have htoken := hat.1.1.startsToken hat.source_append_ne_nil
    rw [Block.layout, Block.written, Block.written, Entries.written_eq, es.written_eq,
      Entries.lead_layout, List.append_assoc, List.append_assoc, List.append_assoc,
      List.append_assoc]
    cases head with
    | item => exact fun he => endsToken_valueLead (variantOf_valueLead hin.1) htoken he
    | key _ _ =>
      exact sameLine_valueLead hin.1 fun _ hk => absurd hk (blockKind_ne_scalar _)

/-- Entries behind a moved lead begin on the same line as before. -/
theorem Entries.sameLine_layout (style : Style) (column : Nat) (es : Entries) {k : Nat}
    (h : StandsAt es.lead k) (hl : VariantOf lead es.lead) (s t : Text) :
    SameLine ((es.layout style column lead).written ++ s) (es.written ++ t) := by
  rw [written_eq, es.written_eq, lead_layout]
  simp only [List.append_assoc]
  exact .append_of_hasBreak (hl.hasBreak_eq.trans h.1) h.1 (hl.sameLine h.1) _ _

theorem Head.Admits.layout {k : Nat} {value : Block} (h : head.Admits value after)
    (hin : value.Inside head k) (ha : SameLine after' after) :
    head.Admits (value.layout style head column) after' := by
  cases value with
  | empty => exact fun _ => trivial
  | scalar lead text =>
    rw [Block.Inside] at hin
    have hv : VariantOf (style.valueLead head column lead) lead := variantOf_valueLead hin
    intro hor
    have : headOf? (text ++ after) = none := h (hor.imp_right fun hb => hv.hasBreak_eq ▸ hb)
    exact headOf?_eq_none_of_sameLine (ha.append_left text) this
  | entries es => exact fun _ => trivial

mutual

/-- A value that is laid out is spelled as before. -/
theorem Block.spelled_layout {style : Style} {head : Head} {column k : Nat} {after after' : Text} :
    (b : Block) → b.Spelled after → b.Inside head k → SameLine after' after →
    (b.layout style head column).Spelled after'
  | .empty, _, _, _ => trivial
  | .scalar lead text, hs, hin, ha =>
    Block.spelled_scalar_of_variantOf hs (variantOf_valueLead hin) ha
  | .entries es, hs, hin, ha => by
    rw [Block.Spelled] at hs
    rw [Block.Inside] at hin
    rw [Block.layout, Block.Spelled]
    exact Entries.spelled_layout es hs hin.2 (variantOf_valueLead hin.1)
      (fun h0 => absurd h0 (innerColumn_valueLead_ne_zero hin.1)) ha

/-- Entries that are laid out are spelled as before. -/
theorem Entries.spelled_layout {style : Style} {column k : Nat} {lead after after' : Text} :
    (es : Entries) → es.Spelled after → es.Nested k → VariantOf lead es.lead →
    (column = 0 → k = 0) → SameLine after' after → (es.layout style column lead).Spelled after'
  | .last _ head value, hs, hn, hl, _, ha => by
    rw [Entries.Spelled] at hs
    rw [Entries.Nested] at hn
    rw [Entries.layout, Entries.Spelled]
    exact ⟨hs.1.of_variantOf hl (head.overlooks_layout value hs.2.2 hn ha), hs.2.1.layout hn ha,
      Block.spelled_layout value hs.2.2 hn ha⟩
  | .more _ head value others, hs, hn, hl, hc, ha => by
    rw [Entries.Spelled] at hs
    rw [Entries.Nested] at hn
    rw [Entries.layout, Entries.Spelled]
    obtain ⟨hat, hadm, hval, hoth⟩ := hs
    obtain ⟨hin, hstands, -, hnested⟩ := hn
    have hmove := variantOf_moveTo hstands hc
    have hline := others.sameLine_layout style column hstands hmove after' after
    exact ⟨hat.of_variantOf hl (head.overlooks_layout value hval hin hline),
      hadm.layout hin hline, Block.spelled_layout value hval hin hline,
      Entries.spelled_layout others hoth hnested hmove hc ha⟩

end

/-- The entries at the top of a document are spelled as before where they are laid out. -/
theorem Entries.spelled_layoutTop {k : Nat} : (es : Entries) → es.Spelled after → es.Nested k →
    SameLine after' after → (es.layoutTop style column).Spelled after'
  | .last lead head value, hs, hn, ha => by
    rw [Spelled] at hs
    rw [Nested] at hn
    have hne := hs.1.source_append_ne_nil
    rw [layoutTop, Spelled]
    exact ⟨hs.1.of_variantOf (variantOf_settle hne hs.1.1.1)
      (head.overlooks_layout value hs.2.2 hn ha), hs.2.1.layout hn ha,
      Block.spelled_layout value hs.2.2 hn ha⟩
  | .more lead head value others, hs, hn, ha => by
    rw [Spelled] at hs
    rw [Nested] at hn
    obtain ⟨hat, hadm, hval, hoth⟩ := hs
    obtain ⟨hin, hstands, -, hnested⟩ := hn
    have hne := hat.source_append_ne_nil
    have hcol : indentOf others.lead = 0 → k = 0 := fun h0 => by rw [← hstands.indentOf_eq, h0]
    have hmove := variantOf_moveTo hstands hcol
    have hline := others.sameLine_layout style (indentOf others.lead) hstands hmove after' after
    rw [layoutTop, Spelled]
    exact ⟨hat.of_variantOf (variantOf_settle hne hat.1.1)
      (head.overlooks_layout value hval hin hline), hadm.layout hin hline,
      Block.spelled_layout value hval hin hline, others.spelled_layout hoth hnested hmove hcol ha⟩

end YamlIndent
