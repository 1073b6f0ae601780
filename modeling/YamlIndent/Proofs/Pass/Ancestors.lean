import YamlIndent.Proofs.Pass.Blocks

/-!
# The pass over a part of a tree

Where the pass is given a part of a tree and the nodes above it, it measures the indent in effect
off the leads of these nodes. A pass that comes down through them goes by what the entries among
them note. The part is laid out in a column either way, and where it stands in the column of the
one, it stays with the other just if the indents agree, or nothing in it starts a line.

## Main definitions

* `measuredTrail`, `notedTrail`: the trail below some nodes, by their leads alone, and as the pass
  makes it on the way down.
* `StaysIff`, `PartsStay`: the pass leaves a part just if the indents agree or it is on one line.
* `Shown`: the two trails are the same.
* `BelowEntry`: what both trails know of a place behind an entry.

## Main results

* `Block.partsStay`, `Entries.partsStay`: this holds of all parts of a block that is laid out.
-/

namespace YamlIndent

open Node

variable {style : Style} {trail : List (Frame Int)} {above : List (Node Origin)}
  {n : Node Origin} {ns : List (Node Origin)}

/-! ### Trails below nodes -/

/-- The trail below some nodes, the root first, that knows of them what their leads show. -/
def measuredTrail (above : List (Node Origin)) : List (Frame Int) :=
  above.reverse.map fun a => ⟨a.kind, a.lead, none⟩

/-- The trail below some nodes, the root first, that the pass makes by putting each in place. What
an entry hands to the next is left out: it is the indent in effect there. -/
def notedTrail (style : Style) (above : List (Node Origin)) : Except TreeError (List (Frame Int)) :=
  above.foldlM (fun trail a => do
    let placed ← placeNode style trail none a
    return ⟨a.kind, placed.node.lead, placed.indent⟩ :: trail) []

@[simp] theorem measuredTrail_concat (above : List (Node Origin)) (a : Node Origin) :
    measuredTrail (above ++ [a]) = ⟨a.kind, a.lead, none⟩ :: measuredTrail above := by
  simp [measuredTrail]

theorem notedTrail_concat {a m : Node Origin} {indent carry : Option Int}
    (h : notedTrail style above = .ok trail)
    (hp : placeNode style trail none a = .ok ⟨m, indent, carry⟩) :
    notedTrail style (above ++ [a]) = .ok (⟨a.kind, m.lead, indent⟩ :: trail) := by
  rw [notedTrail] at h
  rw [notedTrail, List.foldlM_append, h]
  simp [bind, Except.bind, hp, pure, Except.pure]

/-- The leads of some nodes show all that the pass notes of them. -/
def Shown (style : Style) (above : List (Node Origin)) : Prop :=
  notedTrail style above = .ok (measuredTrail above)

theorem Shown.concat {a : Node Origin} {carry : Option Int} (h : Shown style above)
    (hp : placeNode style (measuredTrail above) none a = .ok ⟨a, none, carry⟩) :
    Shown style (above ++ [a]) := by
  rw [Shown, notedTrail_concat h hp, measuredTrail_concat]

/-- What is measured asks for a column. -/
theorem exists_column_measuredTrail (style : Style) (above : List (Node Origin)) :
    ∃ k : Nat, indentBelow (measuredTrail above) + style.step = k := by
  rw [measuredTrail]
  induction above.reverse with
  | nil => exact ⟨style.step, Int.zero_add _⟩
  | cons a as ih =>
    rw [List.map_cons, indentBelow_cons rfl]
    cases Frame.column? (α := Int) ⟨a.kind, a.lead, none⟩ with
    | none => exact ih
    | some column => exact ⟨column + style.step, rfl⟩

/-! ### Parts that stay -/

/-- A part below some nodes keeps its leads where the pass comes down to it. A pass over the part
keeps them just if nothing in it starts a line, or the indent measured there is the one noted. -/
def StaysIff (style : Style) (above : List (Node Origin)) (n : Node Origin) : Prop :=
  ∃ trail u v, notedTrail style above = .ok trail ∧ visit style none trail none n = .ok u ∧
    u.node.preorder.map (·.lead) = n.preorder.map (·.lead) ∧ reindent style n none above = .ok v ∧
    (v.node.preorder.map (·.lead) = n.preorder.map (·.lead) ↔
      n.OnOneLine ∨ indentBelow (measuredTrail above) = indentBelow trail)

/-- All parts of some nodes keep their leads in these cases. -/
def PartsStay (style : Style) (above ns : List (Node Origin)) : Prop :=
  ∀ p ∈ pathsAll above ns, StaysIff style p.1 p.2

theorem PartsStay.nil : PartsStay style above [] := by
  simp [PartsStay, pathsAll]

theorem PartsStay.cons (h : StaysIff style above n)
    (hbelow : PartsStay style (above ++ [n]) n.children) (hs : PartsStay style above ns) :
    PartsStay style above (n :: ns) := by
  intro p hp
  rw [pathsAll, paths_eq, List.cons_append, List.mem_cons, List.mem_append] at hp
  rcases hp with rfl | hp | hp
  · exact h
  · exact hbelow p hp
  · exact hs p hp

theorem children_of_scalarNode {lead text : Text} (hn : n.untagged = Head.scalarNode lead text) :
    n.children = [] := by
  rw [untagged_eq, Head.scalarNode, Node.mk.injEq] at hn
  exact eq_nil_of_untaggedAll hn.2.2.2.2

theorem onOneLine_untagged : n.untagged.OnOneLine ↔ n.OnOneLine := by
  simp [OnOneLine, untagged, preorder_mapTag, lead_mapTag]

/-- A pass gives the same leads just if it gives the same tree, since it keeps the bare tree. -/
theorem leads_eq_iff {m : Node Origin} (hb : m.untagged.bare = n.untagged.bare) :
    m.preorder.map (·.lead) = n.preorder.map (·.lead) ↔ m.untagged = n.untagged := by
  rw [← leads_mapTag (fun _ => ()) m, ← leads_mapTag (fun _ => ()) n]
  exact ⟨eq_of_leads_eq _ _ hb, fun h => congrArg (fun t : Tree => t.preorder.map (·.lead)) h⟩

/-- A part that stays below the noted trail and gets a tree below the measured one. -/
theorem StaysIff.of_visits {t : Tree} {carry carry' : Option Int}
    (htrail : notedTrail style above = .ok trail) (hs : Visits style trail none n n.untagged carry)
    (hv : Visits style (measuredTrail above) none n t carry') (hb : t.bare = n.untagged.bare)
    (ht : t = n.untagged ↔
      n.untagged.OnOneLine ∨ indentBelow (measuredTrail above) = indentBelow trail) :
    StaysIff style above n := by
  obtain ⟨u, hu, hsame, -⟩ := hs
  obtain ⟨v, hv, rfl, -⟩ := hv
  refine ⟨trail, u, v, htrail, hu, ?_, hv, ?_⟩
  · exact (leads_eq_iff (congrArg bare hsame)).2 hsame
  · rw [leads_eq_iff hb, ht, onOneLine_untagged]

/-- A part stays where the leads show the trail. -/
theorem StaysIff.of_shown {carry : Option Int} (htrail : Shown style above)
    (hs : Visits style (measuredTrail above) none n n.untagged carry) : StaysIff style above n :=
  .of_visits htrail hs hs rfl (iff_of_true rfl (.inr rfl))

/-- A scalar without a lead stays everywhere. -/
theorem StaysIff.of_scalar {text : Text} (htrail : notedTrail style above = .ok trail)
    (hn : n.untagged = Head.scalarNode [] text) : StaysIff style above n := by
  have hs (trail : List (Frame Int)) : Visits style trail none n n.untagged none := by
    rw [hn]
    exact visits_scalar hn
  refine .of_visits htrail (hs trail) (hs _) rfl (iff_of_true rfl (.inl ?_))
  rw [hn]
  exact onOneLine_scalarNode.2 rfl

/-! ### Values of entries -/

variable {head : Head} {c column : Nat} {lead : Text} {value : Block}

/-- A place behind an entry, and the column that the noted indent asks for there. -/
structure BelowEntry (style : Style) (head : Head) (above : List (Node Origin))
    (trail : List (Frame Int)) (c : Nat) : Prop where
  noted : notedTrail style above = .ok trail
  under : Under head trail
  under_measured : Under head (measuredTrail above)
  column : indentBelow trail + style.step = c

theorem column_eq_iff {i j : Int} {k : Nat} (hk : i + style.step = k) (hc : j + style.step = c) :
    k = c ↔ i = j := by
  omega

/-- A value that is laid out in the noted column stays there. In the measured column it does if that
is the same, or if the value is on one line. -/
theorem Block.staysIff (b : Block) (hl : b.Lined head) (hb : b.layoutAt style c b.lead = b)
    (hn : n.untagged = b.tree) (h : BelowEntry style head above trail c) :
    StaysIff style above n := by
  obtain ⟨k, hk⟩ := exists_column_measuredTrail style above
  have hn' : n.untagged = (b.relead b.lead).tree := by rw [b.relead_lead, hn]
  have hlead := b.onSpaces_lead hl
  have hs : Visits style trail none n (b.layoutAt style c b.lead).tree none :=
    b.visitsAt hl hlead rfl h.under hn' h.column
  rw [hb, ← hn] at hs
  refine .of_visits h.noted hs (b.visitsAt hl hlead rfl h.under_measured hn' hk) ?_ ?_
  · rw [hn, b.bare_layoutAt]
  · have hiff := b.layoutAt_eq_iff (c := k) (d := c) style hl
    rw [hb, column_eq_iff hk h.column] at hiff
    rw [hn, hiff]

/-- A lead that is laid out behind an entry has its gap already. -/
theorem Block.spacedLead_of_layout_eq (b : Block) (h : b.layout style head column = b) :
    style.spacedLead head b.lead = b.lead := by
  have hlead : b.lead = [] ∨ style.valueLead head column b.lead = b.lead := by
    cases b with
    | empty => exact .inl rfl
    | scalar lead text => exact .inr (congrArg Block.lead h)
    | entries es => exact .inr ((es.lead_layout).symm.trans (congrArg Block.lead h))
  by_cases hb : hasBreak b.lead
  · exact spacedLead_of_hasBreak style head hb
  · rcases hlead with hnil | hvalue
    · rw [hnil, Style.spacedLead, if_neg]
      exact fun h => Bool.false_ne_true h.2.2
    · rwa [valueLead_eq, if_neg hb] at hvalue

/-- The trail ends in a block. -/
def EndsInBlock (trail : List (Frame Int)) : Prop :=
  ∃ kind above, trail = enter kind above ∧ kind ≠ .document

/-- Behind an entry that is where it is laid out, its value is as well, and both trails go on. -/
theorem exists_belowEntry {carry : Option Int} (hl : value.Lined head)
    (hn : n.untagged = head.entry lead value.tree) (hv : value.layout style head column = value)
    (hst : Starts style trail none head lead lead column carry)
    (htrail : notedTrail style above = .ok trail) (he : EndsInBlock trail)
    (hm : EndsInBlock (measuredTrail above)) :
    ∃ trail' c, BelowEntry style head (above ++ [n]) trail' c ∧
      value.layoutAt style c value.lead = value := by
  obtain ⟨m, hplace, -, hplaced⟩ := exists_placeNode_entry hn hst
  obtain ⟨hk, -⟩ := untagged_entry hn
  obtain ⟨kind, t, rfl, hkind⟩ := he
  obtain ⟨kind', t', hm, hkind'⟩ := hm
  obtain ⟨c, hc⟩ := exists_notedIndent_add_step style head column (style.spacedLead head value.lead)
  refine ⟨_, c, ⟨notedTrail_concat htrail hplace, .of_cons hk hkind, ?_, ?_⟩, ?_⟩
  · rw [measuredTrail_concat, hm]
    exact .of_cons hk hkind'
  · rw [indentBelow_noted rfl, hc]
  · have hlaid := value.layoutAt_eq_layout hl hc
    rwa [value.spacedLead_of_layout_eq hv, hv] at hlaid

/-- `PartsStay` holds of an entry if `StaysIff` does and, behind the entry, it holds of the
value. -/
theorem PartsStay.of_entry {carry : Option Int} (hself : StaysIff style above n)
    (hl : value.Lined head) (hn : n.untagged = head.entry lead value.tree)
    (hv : value.layout style head column = value)
    (hst : Starts style trail none head lead lead column carry)
    (htrail : notedTrail style above = .ok trail) (he : EndsInBlock trail)
    (hm : EndsInBlock (measuredTrail above))
    (hvalue : ∀ {m trail c}, value.layoutAt style c value.lead = value → m.untagged = value.tree →
      BelowEntry style head (above ++ [n]) trail c → PartsStay style (above ++ [n]) [m])
    (hs : PartsStay style above ns) : PartsStay style above (n :: ns) := by
  obtain ⟨trail', c, hbelow, hlaid⟩ := exists_belowEntry hl hn hv hst htrail he hm
  obtain ⟨-, -, hparts⟩ := untagged_entry hn
  refine .cons hself ?_ hs
  cases head with
  | item =>
    obtain ⟨-, v, hc, hv⟩ := hparts
    rw [hc]
    exact hvalue hlaid hv hbelow
  | key text indicator =>
    obtain ⟨-, k, v, hc, hkey, hv⟩ := hparts
    rw [hc]
    refine .cons (.of_scalar hbelow.noted hkey) ?_ (hvalue hlaid hv hbelow)
    rw [children_of_scalarNode hkey]
    exact .nil

/-! ### Entries of blocks -/

/-- A place in a block behind an entry, where an entry with a lead may stand, and the column that
the noted indent asks for there. -/
structure InBlock (style : Style) (lead : Text) (above : List (Node Origin))
    (trail : List (Frame Int)) (c : Nat) : Prop where
  noted : notedTrail style above = .ok trail
  ends : EndsInBlock trail
  ends_measured : EndsInBlock (measuredTrail above)
  inside : atTop trail = false
  inside_measured : atTop (measuredTrail above) = false
  inItem : hasBreak lead = false → inItem trail ∧ inItem (measuredTrail above)
  column : indentBelow trail + style.step = c

/-- Behind an entry, a block opens. -/
theorem BelowEntry.inBlock {es : Entries} (h : BelowEntry style head above trail c)
    (hinline : hasBreak es.lead = false → head = .item)
    (hn : n.untagged = (Block.entries es).tree) :
    InBlock style es.lead (above ++ [n]) (enter es.head.blockKind trail) c := by
  rw [untagged_eq, Block.tree, Node.mk.injEq] at hn
  obtain ⟨-, hk, hl, -⟩ := hn
  have hkind := es.head.blockKind_ne_document
  have hplace := placeNode_of_lead_nil style trail none
    (.inr (by rw [hk]; exact es.head.blockKind_eq)) hl
  have hnoted := notedTrail_concat h.noted hplace
  have hmeasured : measuredTrail (above ++ [n]) =
      enter es.head.blockKind (measuredTrail above) := by
    rw [measuredTrail_concat, hk, hl, enter]
  rw [hk, hl] at hnoted
  refine ⟨hnoted, ⟨_, _, rfl, hkind⟩, ⟨_, _, hmeasured, hkind⟩, h.under.atTop_enter hkind, ?_,
    fun hb => ?_, ?_⟩
  · rw [hmeasured, h.under_measured.atTop_enter hkind]
  · obtain rfl := hinline hb
    rw [hmeasured]
    exact ⟨h.under.inItem_enter, h.under_measured.inItem_enter⟩
  · rw [indentBelow_enter, h.column]

namespace InBlock

/-- Behind an entry of a block, others start lines. -/
theorem of_standsAt {lead' : Text} {k : Nat} (h : InBlock style lead above trail c)
    (hs : StandsAt lead' k) : InBlock style lead' above trail c :=
  { h with inItem := fun hb => by simp [hs.1] at hb }

theorem starts (h : InBlock style lead above trail c) (head : Head) (hlead : OnSpaces lead)
    (hm : moveTo c lead = lead) : ∃ carry, Starts style trail none head lead lead c carry := by
  obtain ⟨carry, -, hst⟩ := starts_at head h.inside hlead (fun hb => (h.inItem hb).1) h.column
  rw [hm] at hst
  exact ⟨carry, hst⟩

/-- An entry that is laid out in the noted column stays there. In the measured column it does if
that is the same, or if the entry is on one line. -/
theorem staysIff (h : InBlock style lead above trail c) (hl : value.Lined head)
    (hlead : OnSpaces lead) (hm : moveTo c lead = lead) (hv : value.layout style head c = value)
    (hn : n.untagged = head.entry lead value.tree) : StaysIff style above n := by
  obtain ⟨k, hk⟩ := exists_column_measuredTrail style above
  obtain ⟨carry, hst⟩ := h.starts head hlead hm
  obtain ⟨carry', -, hst'⟩ :=
    starts_at head h.inside_measured hlead (fun hb => (h.inItem hb).2) hk
  obtain ⟨kind, t, ht, hkind⟩ := h.ends
  obtain ⟨kind', t', ht', hkind'⟩ := h.ends_measured
  have hs : Visits style trail none n n.untagged carry := by
    have hs := visits_entry hn hst (by rw [ht]; exact value.visits hl hkind)
    rwa [hv, ← hn] at hs
  have hvisits := visits_entry hn hst' (by rw [ht']; exact value.visits hl hkind')
  refine .of_visits h.noted hs hvisits ?_ ?_
  · rw [hn, Head.bare_entry, Head.bare_entry, Block.bare_layout]
  · have hiff := (Entries.last lead head value).layout_moveTo_eq_iff style (c := k) (d := c)
      (k := 0) hl hlead
    simp only [Entries.layout, Entries.trees, Entries.lead, hm, hv, List.cons.injEq, and_true,
      onOneLineAll_cons, onOneLineAll_nil, column_eq_iff hk h.column] at hiff
    rw [hn, hiff]

end InBlock

/-! ### All parts of a block -/

mutual

/-- `PartsStay` holds of a value that is laid out behind an entry. -/
theorem Block.partsStay {style : Style} {head : Head} {c : Nat} {trail : List (Frame Int)}
    {above : List (Node Origin)} {n : Node Origin} : (b : Block) → b.Lined head →
    b.layoutAt style c b.lead = b → n.untagged = b.tree → BelowEntry style head above trail c →
    PartsStay style above [n]
  | .empty, hl, hb, hn, h => by
    refine .cons (Block.staysIff .empty hl hb hn h) ?_ .nil
    rw [children_of_scalarNode hn]
    exact .nil
  | .scalar lead text, hl, hb, hn, h => by
    refine .cons (Block.staysIff (.scalar lead text) hl hb hn h) ?_ .nil
    rw [children_of_scalarNode hn]
    exact .nil
  | .entries es, hl, hb, hn, h => by
    have hself := Block.staysIff (.entries es) hl hb hn h
    rw [Block.Lined] at hl
    obtain ⟨hlead, hinline, k, hes⟩ := hl
    have hin := h.inBlock (fun hb => (hinline hb).1) hn
    rw [untagged_eq, Block.tree, Node.mk.injEq] at hn
    rw [Block.layoutAt, Block.entries.injEq] at hb
    exact .cons hself (Entries.partsStay es hes hlead hb hn.2.2.2.2 hin) .nil

/-- `PartsStay` holds of the entries of a block that is laid out behind an entry. -/
theorem Entries.partsStay {style : Style} {c k : Nat} {trail : List (Frame Int)}
    {above ns : List (Node Origin)} : (es : Entries) → es.Lined k → OnSpaces es.lead →
    es.layout style c (moveTo c es.lead) = es → untaggedAll ns = es.trees →
    InBlock style es.lead above trail c → PartsStay style above ns
  | .last lead head value, hl, hlead, hes, hns, h => by
    rw [Entries.Lined] at hl
    rw [Entries.layout, Entries.last.injEq] at hes
    obtain ⟨hm, -, hv⟩ := hes
    rw [Entries.trees] at hns
    obtain ⟨n, ns', rfl, hn, hnil⟩ := exists_of_untaggedAll_cons hns
    obtain ⟨carry, hst⟩ := h.starts head hlead hm
    rw [eq_nil_of_untaggedAll hnil]
    exact .of_entry (h.staysIff hl hlead hm hv hn) hl hn hv hst h.noted h.ends h.ends_measured
      (Block.partsStay value hl) .nil
  | .more lead head value others, hl, hlead, hes, hns, h => by
    rw [Entries.Lined] at hl
    rw [Entries.layout, Entries.more.injEq] at hes
    obtain ⟨hl, hstands, hothers⟩ := hl
    obtain ⟨hm, -, hv, hos⟩ := hes
    rw [Entries.trees] at hns
    obtain ⟨n, ns', rfl, hn, hns'⟩ := exists_of_untaggedAll_cons hns
    obtain ⟨carry, hst⟩ := h.starts head hlead hm
    exact .of_entry (h.staysIff hl hlead hm hv hn) hl hn hv hst h.noted h.ends h.ends_measured
      (Block.partsStay value hl)
      (Entries.partsStay others hothers (fun _ => ⟨k, hstands⟩) hos hns' (h.of_standsAt hstands))

end

end YamlIndent
