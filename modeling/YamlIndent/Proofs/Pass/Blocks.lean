import YamlIndent.Proofs.Layout.Column
import YamlIndent.Proofs.Pass.Spacing
import YamlIndent.Proofs.Pass.Visits

/-!
# The pass over a block

Below an entry the indent in effect is one step left of the column where the block there begins: one
step left of a column one step further in, or of the place behind a `-`. So each entry of that block
starts at the same column, and the pass lays out the block.

## Main definitions

* `Starts`: the pass gives an entry a lead and takes it to be at a column.
* `Aligns`: the entries at a column go to another column.
* `Under`: a trail ends in an entry.

## Main results

* `exists_placeNode_entry`: an entry is started and spaced, and notes an indent.
* `Block.visitsAt`: below an entry, a block is laid out from the column that the indent asks for.
* `Block.visits`, `Entries.visitsAll`: the pass lays out a value and the entries of a block.
-/

namespace YamlIndent

open Node

variable {style : Style} {trail : List (Frame Int)} {carry carry' : Option Int} {n : Node Origin}

/-! ### Entries -/

/-- The indent that an entry at a column notes for the block behind a lead. -/
def Head.notedIndent (style : Style) (head : Head) (column : Nat) (lead : Text) : Int :=
  match head with
  | .item => if isInlineGap lead then (column : Int) + lead.length + 1 - style.step else column
  | .key .. => column

theorem notedIndent_of_hasBreak (style : Style) (head : Head) (column : Nat) {lead : Text}
    (h : hasBreak lead) : head.notedIndent style column lead = column := by
  cases head with
  | item =>
    rw [Head.notedIndent, isInlineGap, h, Bool.not_true, Bool.and_false]
    exact if_neg Bool.false_ne_true
  | key => rfl

/-- What opens on the line of a `-` lines up with the first token there. -/
theorem notedIndent_add_step (column : Nat) {lead : Text} (hb : hasBreak lead = false)
    (hl : lead ≠ []) : Head.item.notedIndent style column lead + style.step =
      (innerColumn column lead : Nat) := by
  have hi : isInlineGap lead = true := by
    rw [isInlineGap, hb]
    cases lead with
    | nil => exact absurd rfl hl
    | cons => rfl
  rw [Head.notedIndent, if_pos hi, innerColumn, hb, if_neg Bool.false_ne_true]
  omega

theorem Head.entryKind_ne_document (head : Head) : head.entryKind ≠ .document := by
  cases head <;> exact Kind.noConfusion

theorem Head.blockKind_ne_document (head : Head) : head.blockKind ≠ .document := by
  cases head <;> exact Kind.noConfusion

/-- The pass gives an entry below a trail another lead and takes it to be at a column. -/
def Starts (style : Style) (trail : List (Frame Int)) (carry : Option Int) (head : Head)
    (lead lead' : Text) (column : Nat) (carry' : Option Int) : Prop :=
  ∀ n : Node Origin, n.lead = lead → match head with
    | .item => startItem style trail (indentBelow trail) carry n =
        (n.withLead lead', (column : Int), carry')
    | .key .. => placePair style trail (indentBelow trail) n = (n.withLead lead', (column : Int)) ∧
        carry' = carry

theorem itemIndent_eq {column : Nat} {b : Block} {m : Node Origin} (hc : n.children = [m])
    (hm : m.untagged = b.tree) :
    itemIndent style column n = Head.item.notedIndent style column b.lead := by
  rw [itemIndent, gapAfterItem_eq b hc hm]
  rfl

variable {value : Block} {lead lead' : Text} {column : Nat} {laid : Tree}

/-- A sequence entry in place has started, and its value is spaced. -/
theorem exists_placeNode_item (hn : n.untagged = Head.item.entry lead value.tree)
    (hs : Starts style trail carry .item lead lead' column carry') :
    ∃ m, placeNode style trail carry n = .ok ⟨m,
        some (Head.item.notedIndent style column (style.spacedLead .item value.lead)), carry'⟩ ∧
      CopyOf m n ∧ m.untagged =
        Head.item.entry lead' (value.relead (style.spacedLead .item value.lead)).tree := by
  obtain ⟨hk, hl, ht, v, hc, hv⟩ := untagged_entry hn
  have hstart := hs n hl
  obtain ⟨hk', hl', ht', hc'⟩ := withLead_parts lead' n
  rw [← hc'] at hc
  obtain ⟨spaced, v', hspace, hsl, hsk, hst, hsc, hv', hcopy⟩ := exists_spaceItem style value hc hv
  have hkind : n.kind = .sequenceEntry := hk
  have hitem : placeNode style trail carry n =
      placeItem style trail (indentBelow trail) carry n := by
    rw [placeNode, placeWith, hkind]
    rfl
  have hindent : itemIndent style column spaced =
      Head.item.notedIndent style column (style.spacedLead .item value.lead) := by
    rw [itemIndent_eq hsc hv', Block.lead_relead]
  refine ⟨spaced, ?_, hcopy.trans (copyOf_withLead lead' n), ?_⟩
  · rw [hitem, placeItem, hstart]
    simp only [bind, Except.bind, hspace, hindent]
    rfl
  · rw [untagged_eq, hsk, hsl, hst, hsc, hk', hl', ht', hk, ht, untaggedAll_cons, hv']
    rfl

/-- A mapping entry in place has started. -/
theorem exists_placeNode_pair {text indicator : Text}
    (hn : n.untagged = (Head.key text indicator).entry lead value.tree)
    (hs : Starts style trail carry (.key text indicator) lead lead' column carry') :
    ∃ m, placeNode style trail carry n = .ok ⟨m, some (column : Int), carry'⟩ ∧ CopyOf m n ∧
      m.untagged = (Head.key text indicator).entry lead' value.tree := by
  obtain ⟨hk, hl, -⟩ := untagged_entry hn
  obtain ⟨hpair, rfl⟩ := hs n hl
  have hkind : n.kind = .mappingEntry := hk
  have hmap : placeNode style trail carry' n =
      .ok ⟨(placePair style trail (indentBelow trail) n).1,
        some (placePair style trail (indentBelow trail) n).2, carry'⟩ := by
    rw [placeNode, placeWith, hkind]
    rfl
  refine ⟨n.withLead lead', ?_, copyOf_withLead lead' n, ?_⟩
  · rw [hmap, hpair]
  · rw [untagged_withLead, hn, Head.entry_with_lead]

/-- An entry in place has started, its value is spaced, and it notes an indent for that. -/
theorem exists_placeNode_entry {head : Head} (hn : n.untagged = head.entry lead value.tree)
    (hs : Starts style trail carry head lead lead' column carry') :
    ∃ m, placeNode style trail carry n = .ok ⟨m,
        some (head.notedIndent style column (style.spacedLead head value.lead)), carry'⟩ ∧
      CopyOf m n ∧
      m.untagged = head.entry lead' (value.relead (style.spacedLead head value.lead)).tree := by
  cases head with
  | item => exact exists_placeNode_item hn hs
  | key text indicator =>
    have hlead : style.spacedLead (.key text indicator) value.lead = value.lead := by
      rw [Style.spacedLead, if_neg fun h => Head.noConfusion h.1]
    rw [hlead, value.relead_lead]
    exact exists_placeNode_pair hn hs

/-- The pass goes through the value of an entry, whose frame has the indent that the entry notes. -/
def VisitsValue (style : Style) (trail : List (Frame Int)) (head : Head) (value : Block)
    (column : Nat) (laid : Tree) : Prop :=
  ∀ m frame, m.untagged = (value.relead (style.spacedLead head value.lead)).tree →
    frame.kind = head.entryKind →
    frame.indent = some (head.notedIndent style column (style.spacedLead head value.lead)) →
    Visits style (frame :: trail) none m laid none

/-- An entry is put in place, and its value is gone through. -/
theorem visits_entry {head : Head} (hn : n.untagged = head.entry lead value.tree)
    (hs : Starts style trail carry head lead lead' column carry')
    (hvalue : VisitsValue style trail head value column laid) :
    Visits style trail carry n (head.entry lead' laid) carry' := by
  obtain ⟨m, hplace, hcopy, hm⟩ := exists_placeNode_entry hn hs
  obtain ⟨hnk, -⟩ := untagged_entry hn
  obtain ⟨hk, hl, hparts⟩ := untagged_entry hm
  cases head with
  | item =>
    obtain ⟨ht, v, hc, hv⟩ := hparts
    have hvisits := Visits.of_placed hplace hcopy (by
      rw [hc]
      exact .cons (hvalue v _ hv hnk rfl) .nil)
    rwa [hk, hl, ht] at hvisits
  | key text indicator =>
    obtain ⟨ht, k, v, hc, hkey, hv⟩ := hparts
    have hvisits := Visits.of_placed hplace hcopy (by
      rw [hc]
      exact .cons (visits_scalar hkey) (.cons (hvalue v _ hv hnk rfl) .nil))
    rwa [hk, hl, ht] at hvisits

/-- The indent that is handed on is the one in effect. -/
def Agrees (trail : List (Frame Int)) (carry : Option Int) : Prop :=
  carry.getD (indentBelow trail) = indentBelow trail

/-- The entries below a trail that stand at a column go to another column. -/
def Aligns (style : Style) (trail : List (Frame Int)) (k c : Nat) : Prop :=
  ∀ head lead carry, StandsAt lead k → Agrees trail carry →
    ∃ carry', Agrees trail carry' ∧ Starts style trail carry head lead (moveTo c lead) c carry'

theorem agrees_none (trail : List (Frame Int)) : Agrees trail none := rfl

/-- Away from the top of a document, entries go one step inside the indent in effect. -/
theorem aligns_of_indentBelow {k c : Nat} (ht : atTop trail = false)
    (hc : indentBelow trail + style.step = c) : Aligns style trail k c := by
  intro head lead carry hs ha
  cases head with
  | item =>
    refine ⟨some (indentBelow trail), rfl, ?_⟩
    rintro n rfl
    simp only [startItem, hs.1, ht, if_true, Bool.false_eq_true, if_false]
    rw [ha, hc]
  | key text indicator =>
    refine ⟨carry, ha, ?_⟩
    rintro n rfl
    simp only [placePair, hs.1, ht, if_true, Bool.false_eq_true, if_false, hc, and_self]

/-- At the top of a document, an entry that starts a line stays in its column. -/
theorem starts_of_atTop {head : Head} {lead : Text} (ht : atTop trail) (hb : hasBreak lead) :
    Starts style trail carry head lead (settle lead) (indentOf lead) carry := by
  cases head with
  | item =>
    rintro n rfl
    simp only [startItem, hb, ht, if_true]
    rfl
  | key text indicator =>
    rintro n rfl
    simp only [placePair, hb, ht, if_true, and_true]
    rfl

theorem aligns_of_atTop {k : Nat} (ht : atTop trail) : Aligns style trail k k := by
  intro head lead carry hs ha
  have hstarts : Starts style trail carry head lead (settle lead) (indentOf lead) carry :=
    starts_of_atTop ht hs.1
  rw [← moveTo_eq_settle hs, hs.indentOf_eq] at hstarts
  exact ⟨carry, ha, hstarts⟩

/-! ### Blocks -/

/-- The trail below a block that is no scalar. -/
def enter (kind : Kind) (trail : List (Frame Int)) : List (Frame Int) :=
  ⟨kind, [], none⟩ :: trail

/-- A frame that notes no indent shows its column, if that is off the margin. -/
theorem indentBelow_cons {frame : Frame Int} (h : frame.indent = none) :
    indentBelow (frame :: trail) = frame.column?.elim (indentBelow trail) Int.ofNat := by
  rw [indentBelow, basis, h]
  cases frame.column? with
  | none =>
    change ((basis trail).below).indent Int.ofNat = _
    cases hb : basis trail <;> simp [Basis.below, Basis.indent, indentBelow, hb]
  | some column => rfl

theorem indentBelow_enter {kind : Kind} (trail : List (Frame Int)) :
    indentBelow (enter kind trail) = indentBelow trail := by
  rw [enter, indentBelow_cons rfl]
  rfl

theorem indentBelow_noted {frame : Frame Int} {i : Int} (h : frame.indent = some i) :
    indentBelow (frame :: trail) = i := by
  rw [indentBelow, basis, h]
  rfl

theorem atTop_cons_cons {frame frame' : Frame Int} (h : frame.kind ≠ .document)
    (h' : frame'.kind ≠ .document) : atTop (frame :: frame' :: trail) = false := by
  rw [atTop]
  simp [h, h']

/-- An entry on the line of a `-` stays there. -/
theorem starts_inline {head : Head} {lead : Text} {c : Nat} (ht : atTop trail = false)
    (hi : inItem trail) (hb : hasBreak lead = false) (hc : indentBelow trail + style.step = c) :
    Starts style trail carry head lead lead c carry := by
  cases head with
  | item =>
    rintro n rfl
    simp only [startItem, hb, ht, Bool.false_eq_true, if_false, withLead_self, hc]
  | key text indicator =>
    rintro n rfl
    simp only [placePair, hb, hi, Bool.false_eq_true, if_false, if_true, withLead_self, hc,
      and_self]

theorem Head.blockKind_eq (head : Head) :
    head.blockKind = .mapping ∨ head.blockKind = .sequence := by
  cases head with
  | item => exact .inr rfl
  | key => exact .inl rfl

/-- A stream or a block without a lead stays as it is. -/
theorem placeNode_of_lead_nil (style : Style) (trail : List (Frame Int)) (carry : Option Int)
    (hk : n.kind = .stream ∨ n.kind = .mapping ∨ n.kind = .sequence) (hl : n.lead = []) :
    placeNode style trail carry n = .ok ⟨n, none, carry⟩ := by
  have hother : placeOther style trail (indentBelow trail) n = n := by
    rw [placeOther, hl]
    rfl
  have hplace : placeNode style trail carry n =
      .ok ⟨placeOther style trail (indentBelow trail) n, none, carry⟩ := by
    rw [placeNode, placeWith]
    rcases hk with hk | hk | hk <;> rw [hk] <;> rfl
  rw [hplace, hother]

/-- A block of entries is gone through from the nodes above it. -/
theorem visits_enter {head : Head} {ts ts' : List Tree}
    (hn : n.untagged = ⟨(), head.blockKind, [], [], ts⟩)
    (h : untaggedAll n.children = ts →
      VisitsAll style (enter head.blockKind trail) none n.children ts') :
    Visits style trail carry n ⟨(), head.blockKind, [], [], ts'⟩ carry := by
  rw [untagged_eq, Node.mk.injEq] at hn
  obtain ⟨-, hk, hl, ht, hc⟩ := hn
  have hplace := placeNode_of_lead_nil style trail carry
    (.inr (by rw [hk]; exact head.blockKind_eq)) hl
  have hvisits := Visits.of_placed hplace (.refl n) (by
    rw [hk, hl]
    exact h hc)
  rwa [hk, hl, ht] at hvisits

/-! ### The column below an entry -/

/-- The trail ends in an entry with a head, away from the top of its document. -/
structure Under (head : Head) (trail : List (Frame Int)) : Prop where
  kind_eq : trail.head?.map (·.kind) = some head.entryKind
  inside : atTop trail = false

namespace Under

variable {head : Head} {kind : Kind} {frame : Frame Int}

theorem of_cons (hf : frame.kind = head.entryKind) (hk : kind ≠ .document) :
    Under head (frame :: enter kind trail) where
  kind_eq := by simp [hf]
  inside := atTop_cons_cons (by rw [hf]; exact head.entryKind_ne_document) hk

theorem atTop_enter (h : Under head trail) (hk : kind ≠ .document) :
    atTop (enter kind trail) = false := by
  obtain ⟨hkind, -⟩ := h
  cases trail with
  | nil => cases hkind
  | cons frame trail =>
    rw [List.head?_cons, Option.map_some, Option.some.injEq] at hkind
    exact atTop_cons_cons hk (by rw [hkind]; exact head.entryKind_ne_document)

theorem inItem_enter (h : Under .item trail) : inItem (enter kind trail) := by
  obtain ⟨hkind, -⟩ := h
  cases trail with
  | nil => cases hkind
  | cons frame trail =>
    rw [List.head?_cons, Option.map_some, Option.some.injEq] at hkind
    exact beq_iff_eq.2 hkind

end Under

/-- Away from the top of a document, an entry that starts a line goes one step inside the indent in
effect, and one on the line of a `-` is there. -/
theorem starts_at {lead : Text} {c : Nat} (head : Head) (ht : atTop trail = false)
    (hlead : OnSpaces lead) (hi : hasBreak lead = false → inItem trail)
    (hc : indentBelow trail + style.step = c) :
    ∃ carry', Agrees trail carry' ∧ Starts style trail none head lead (moveTo c lead) c carry' := by
  by_cases hb : hasBreak lead
  · obtain ⟨k, hk⟩ := hlead hb
    exact aligns_of_indentBelow ht hc head lead none hk (agrees_none trail)
  · have hb' := eq_false_of_ne_true hb
    rw [moveTo_of_not_hasBreak _ hb']
    exact ⟨none, agrees_none trail, starts_inline ht (hi hb') hb' hc⟩

/-- What an entry notes puts what opens below it at a column. -/
theorem exists_notedIndent_add_step (style : Style) (head : Head) (column : Nat) (lead : Text) :
    ∃ c : Nat, head.notedIndent style column lead + style.step = c := by
  cases head with
  | item =>
    rw [Head.notedIndent]
    split
    · exact ⟨column + lead.length + 1, by omega⟩
    · exact ⟨column + style.step, rfl⟩
  | key => exact ⟨column + style.step, rfl⟩

section

variable {head : Head} {c : Nat}

theorem valueLead_eq_moveTo
    (hc : head.notedIndent style column (style.spacedLead head lead) + style.step = c) :
    style.valueLead head column lead = moveTo c (style.spacedLead head lead) := by
  rw [valueLead_eq]
  by_cases hb : hasBreak lead
  · rw [notedIndent_of_hasBreak style head column (by rwa [hasBreak_spacedLead])] at hc
    rw [if_pos hb]
    congr 1
  · rw [if_neg hb, moveTo_of_not_hasBreak]
    rw [hasBreak_spacedLead, eq_false_of_ne_true hb]

theorem innerColumn_valueLead_eq (h : OnSpaces lead)
    (hinline : hasBreak lead = false → head = .item ∧ lead ≠ [])
    (hc : head.notedIndent style column (style.spacedLead head lead) + style.step = c) :
    innerColumn column (style.valueLead head column lead) = c := by
  by_cases hb : hasBreak lead
  · obtain ⟨k, hk⟩ := h hb
    rw [valueLead_eq_moveTo hc, spacedLead_of_hasBreak style head hb]
    exact innerColumn_of_standsAt (hk.moveTo c)
  · obtain ⟨rfl, hne⟩ := hinline (eq_false_of_ne_true hb)
    have hb' : hasBreak (style.spacedLead .item lead) = false := by
      rw [hasBreak_spacedLead, eq_false_of_ne_true hb]
    rw [notedIndent_add_step column hb' (spacedLead_ne_nil style .item hne)] at hc
    rw [valueLead_eq, if_neg hb]
    exact Int.ofNat_inj.1 hc

/-- The layout of a value is that from the column that its entry notes. -/
theorem Block.layoutAt_eq_layout (b : Block) (hl : b.Lined head)
    (hc : head.notedIndent style column (style.spacedLead head b.lead) + style.step = c) :
    b.layoutAt style c (style.spacedLead head b.lead) = b.layout style head column := by
  cases b with
  | empty => rfl
  | scalar lead text => exact congrArg (scalar · text) (valueLead_eq_moveTo hc).symm
  | entries es =>
    obtain ⟨hlead, hinline, -⟩ := hl
    simp only [layout, innerColumn_valueLead_eq hlead hinline hc]
    exact congrArg (fun lead => entries (es.layout style c lead)) (valueLead_eq_moveTo hc).symm

theorem OnSpaces.spacedLead (h : OnSpaces lead) (style : Style) (head : Head) :
    OnSpaces (style.spacedLead head lead) := by
  intro hb
  rw [hasBreak_spacedLead] at hb
  rw [spacedLead_of_hasBreak style head hb]
  exact h hb

theorem Block.onSpaces_lead (b : Block) (hl : b.Lined head) : OnSpaces b.lead := by
  cases b with
  | empty => exact fun hb => Bool.noConfusion hb
  | scalar => exact hl
  | entries => exact hl.1

theorem otherLead_of_inside (ht : atTop trail = false) (hc : indentBelow trail + style.step = c)
    (lead : Text) : otherLead style trail lead = moveTo c lead := by
  rw [otherLead, ht, hc]
  by_cases hb : hasBreak lead
  · rw [hb]
    rfl
  · rw [moveTo_of_not_hasBreak _ (eq_false_of_ne_true hb), eq_false_of_ne_true hb]
    rfl

/-- The pass goes through a value as it goes through the block behind any lead. -/
theorem visitsValue_of_layoutAt {kind : Kind} {above : List (Frame Int)} (hl : value.Lined head)
    (hk : kind ≠ .document)
    (h : ∀ {trail m} {c : Nat}, Under head trail →
      m.untagged = (value.relead (style.spacedLead head value.lead)).tree →
      indentBelow trail + style.step = c → Visits style trail none m
        (value.layoutAt style c (style.spacedLead head value.lead)).tree none) :
    VisitsValue style (enter kind above) head value column
      (value.layout style head column).tree := by
  intro m frame hm hfk hi
  obtain ⟨c, hc⟩ := exists_notedIndent_add_step style head column (style.spacedLead head value.lead)
  rw [← value.layoutAt_eq_layout hl hc]
  refine h (.of_cons hfk hk) hm ?_
  rw [indentBelow_noted hi, hc]

end

/-! ### Blocks laid out -/

mutual

/-- Below an entry, the pass lays out a block from the column that the indent in effect asks for. -/
theorem Block.visitsAt {style : Style} {head : Head} {c : Nat} {lead : Text}
    {trail : List (Frame Int)} {carry : Option Int} {n : Node Origin} :
    (b : Block) → b.Lined head → OnSpaces lead → hasBreak lead = hasBreak b.lead →
    Under head trail → n.untagged = (b.relead lead).tree → indentBelow trail + style.step = c →
    Visits style trail carry n (b.layoutAt style c lead).tree carry
  | .empty, _, _, _, _, hn, _ => visits_scalar hn
  | .scalar _ text, _, _, _, hu, hn, hc => by
    rw [Block.layoutAt, Block.tree, ← otherLead_of_inside hu.inside hc]
    exact visits_scalar hn
  | .entries es, hl, hlead, hb, hu, hn, hc => by
    rw [Block.Lined] at hl
    obtain ⟨-, hinline, k, hes⟩ := hl
    have hk := es.head.blockKind_ne_document
    have ht := hu.atTop_enter hk
    have hindent : indentBelow (enter es.head.blockKind trail) + style.step = c := by
      rw [indentBelow_enter, hc]
    have hitem (h : hasBreak lead = false) : inItem (enter es.head.blockKind trail) := by
      obtain ⟨rfl, -⟩ := hinline (hb.symm.trans h)
      exact hu.inItem_enter
    obtain ⟨carry', ha, hst⟩ := starts_at es.head ht hlead hitem hindent
    rw [Block.relead, Block.tree, Entries.head_relead] at hn
    rw [Block.layoutAt, Block.tree, Entries.head_layout]
    exact visits_enter hn fun hns =>
      Entries.visitsAll es hes hk hns hst ha (aligns_of_indentBelow ht hindent)

/-- The pass lays out entries at the column where the first of them starts. -/
theorem Entries.visitsAll {style : Style} {column k : Nat} {lead lead' : Text} {kind : Kind}
    {above : List (Frame Int)} {carry carry' : Option Int} {ns : List (Node Origin)} :
    (es : Entries) → es.Lined k → kind ≠ .document →
    untaggedAll ns = (es.relead lead).trees →
    Starts style (enter kind above) carry es.head lead lead' column carry' →
    Agrees (enter kind above) carry' → Aligns style (enter kind above) k column →
    VisitsAll style (enter kind above) carry ns (es.layout style column lead').trees
  | .last _ head value, hl, hk, hns, hst, _, _ => by
    rw [Entries.Lined] at hl
    rw [Entries.relead, Entries.trees] at hns
    obtain ⟨n, ns', rfl, hn', hnil⟩ := exists_of_untaggedAll_cons hns
    rw [eq_nil_of_untaggedAll hnil, Entries.layout, Entries.trees]
    refine .cons (visits_entry hn' hst (visitsValue_of_layoutAt hl hk ?_)) .nil
    exact Block.visitsAt value hl ((value.onSpaces_lead hl).spacedLead style head)
      (hasBreak_spacedLead style head value.lead)
  | .more _ head value others, hl, hk, hns, hst, ha, hal => by
    rw [Entries.Lined] at hl
    rw [Entries.relead, Entries.trees] at hns
    obtain ⟨n, ns', rfl, hn', hothers⟩ := exists_of_untaggedAll_cons hns
    rw [← others.relead_lead] at hothers
    obtain ⟨hl, hstands, hl'⟩ := hl
    obtain ⟨carry'', ha', hst'⟩ := hal others.head others.lead carry' hstands ha
    rw [Entries.layout, Entries.trees]
    refine .cons (visits_entry hn' hst (visitsValue_of_layoutAt hl hk ?_))
      (Entries.visitsAll others hl' hk hothers hst' ha' hal)
    exact Block.visitsAt value hl ((value.onSpaces_lead hl).spacedLead style head)
      (hasBreak_spacedLead style head value.lead)

end

/-- The pass lays out the value of an entry. -/
theorem Block.visits {head : Head} {kind : Kind} {above : List (Frame Int)} (b : Block)
    (hl : b.Lined head) (hk : kind ≠ .document) :
    VisitsValue style (enter kind above) head b column (b.layout style head column).tree :=
  visitsValue_of_layoutAt hl hk (b.visitsAt hl ((b.onSpaces_lead hl).spacedLead style head)
    (hasBreak_spacedLead style head b.lead))

end YamlIndent
