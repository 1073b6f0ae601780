import YamlIndent.Proofs.Layout.Frames

/-!
# Laying out what was laid out

What was laid out may be read as other blocks, where the first line of a document is further in than
its leads speak for. But an entry that then goes further in than the one in front of it went a whole
step further in before, too. So to lay out what is read moves nothing further in: the text stays as
it is, or it gets shorter.

## Main definitions

* `NoWider`: a text that is another, or is shorter.
* `Stepped`: tokens each of which stands a step further in than the head in front of it, if it may
  belong to that head.

## Main results

* `Entries.stepped_layoutTop`: the tokens of what was laid out are stepped.
* `Entries.noWider_layoutTop`: entries with such tokens get no wider where they are laid out.
* `LaidAll.noWider_layout`: so do documents that are read in a formatted text.
-/

namespace YamlIndent

variable {style : Style} {head top : Head} {base bound column low c k : Nat} {lead rest : Text}
  {token : Token} {owner : Option Head} {ts more : List (Text × Token)}

/-! ### Texts that get no wider -/

/-- A text that is another one, or is shorter. -/
def NoWider (t' t : Text) : Prop :=
  t' = t ∨ t'.length < t.length

theorem NoWider.refl (t : Text) : NoWider t t := .inl rfl

theorem NoWider.length_le {s t : Text} (h : NoWider s t) : s.length ≤ t.length := by
  rcases h with rfl | h
  · exact Nat.le_refl _
  · exact Nat.le_of_lt h

theorem NoWider.append {s s' t t' : Text} (hs : NoWider s' s) (ht : NoWider t' t) :
    NoWider (s' ++ t') (s ++ t) := by
  have hs' := hs.length_le
  have ht' := ht.length_le
  rw [NoWider, List.length_append, List.length_append]
  rcases hs with rfl | hs
  · exact ht.imp (congrArg _) fun ht => by omega
  · exact .inr (by omega)

theorem length_placeComment_le {c d : Nat} (h : c ≤ d) (line : Text) :
    (placeComment c line).length ≤ (placeComment d line).length := by
  rcases placeComment_cases line with ⟨front, comment, -, hp⟩ | hp
  · simp only [hp, spaces, List.length_append, List.length_replicate]
    omega
  · exact Nat.le_of_eq (by rw [hp, hp])

theorem length_realign_le {c d : Nat} (h : c ≤ d) (lead : Text) :
    (realign c lead).length ≤ (realign d lead).length := by
  rw [realign, realign, joinLines, joinLines, List.length_append, List.length_append]
  refine Nat.add_le_add_left ?_ _
  induction (cutLines lead).2 with
  | nil => exact Nat.le_refl _
  | cons l later ih =>
    have hl := length_placeComment_le h l.2
    simp only [placeComments, List.map_cons, List.flatMap_cons, List.length_append,
      List.length_cons] at ih ⊢
    omega

/-- A lead with its comments at its own column gets no wider where it is moved back. -/
theorem noWider_moveTo (h : StandsAt lead k) (hs : moveTo k lead = lead) (hc : c ≤ k) :
    NoWider (moveTo c lead) lead := by
  rcases Nat.lt_or_eq_of_le hc with hlt | rfl
  · refine .inr (Nat.lt_of_lt_of_le ?_ (Nat.le_of_eq (congrArg List.length hs)))
    obtain ⟨front, br, hbr, rfl⟩ := h.exists_eq_append
    have hfront := length_realign_le hc front
    rw [moveTo_append hbr, moveTo_append hbr]
    simp only [List.length_append, List.length_cons, List.length_replicate]
    omega
  · exact .inl hs

/-! ### Tokens that are stepped -/

/-- An entry with some head may stand at a column below the entries at `base` that `top` is one of.
-/
def Head.Admitted (top : Head) (base : Nat) (head : Head) (column : Nat) : Prop :=
  base < column ∨
    (column = base ∧ (top.blockKind = .sequence → head.blockKind = .sequence))

/-- Tokens behind a head at `column`, which is taken to be at `low`: each that starts a line and may
belong to the head in front of it stands a step further in than that one is taken to be, and no lead
is in need of a style. -/
def Stepped (style : Style) (top : Head) (base : Nat) :
    Option Head → Nat → Nat → List (Text × Token) → Prop
  | _, _, _, [] => True
  | owner, column, low, (lead, token) :: ts =>
    (hasBreak lead → moveTo (indentOf lead) lead = lead) ∧
      (∀ head, owner = some head →
        (hasBreak lead = false → style.valueLead head 0 lead = lead) ∧
        (hasBreak lead → top.Admitted base head column →
          head.Owns column (indentOf lead) token.blockKind → low + style.step ≤ indentOf lead)) ∧
      Stepped style top base token.head? (innerColumn column lead) (innerColumn low lead) ts

/-- Tokens the first of which starts a line and belongs to no head that is at least so far in. -/
def Unowned (top : Head) (base bound : Nat) (ts : List (Text × Token)) : Prop :=
  ∀ t ∈ ts.head?, hasBreak t.1 ∧ ∀ head column, bound ≤ column → top.Admitted base head column →
    ¬ head.Owns column (indentOf t.1) t.2.blockKind

theorem Unowned.mono {bound' : Nat} (h : Unowned top base bound ts) (hb : bound ≤ bound') :
    Unowned top base bound' ts :=
  fun t ht => ⟨(h t ht).1, fun head column hc => (h t ht).2 head column (Nat.le_trans hb hc)⟩

theorem Unowned.nil : Unowned top base bound [] := nofun

/-- Tokens that start a line and do not belong to the head in front of them are stepped behind it as
they are behind none. -/
theorem Stepped.behind (h : Stepped style top base none 0 0 ts)
    (hu : ∀ t ∈ ts.head?, hasBreak t.1 ∧ ∀ head, owner = some head →
      top.Admitted base head column → ¬ head.Owns column (indentOf t.1) t.2.blockKind) :
    Stepped style top base owner column low ts := by
  cases ts with
  | nil => trivial
  | cons t ts =>
    obtain ⟨hb, hnot⟩ := hu t rfl
    obtain ⟨hmoved, -, hts⟩ := h
    refine ⟨hmoved, fun head he => ⟨fun hf => ?_, fun _ ha ho => absurd ho (hnot head he ha)⟩, ?_⟩
    · rw [hb] at hf
      cases hf
    · rw [innerColumn, if_pos hb] at hts ⊢
      rw [innerColumn, if_pos hb]
      exact hts

theorem Stepped.of_append : {ts : List (Text × Token)} → {owner : Option Head} →
    {column low : Nat} → Stepped style top base owner column low (ts ++ more) →
    ∃ owner column low, Stepped style top base owner column low more
  | [], _, _, _, h => ⟨_, _, _, h⟩
  | _ :: _, _, _, _, h => of_append h.2.2

/-! ### What was laid out is stepped -/

theorem StandsAt.moveTo_indentOf {lead : Text} (h : StandsAt lead k) (d : Nat) :
    YamlIndent.moveTo (indentOf (YamlIndent.moveTo d lead)) (YamlIndent.moveTo d lead) =
      YamlIndent.moveTo d lead := by
  rw [(h.moveTo d).indentOf_eq, h.moveTo_moveTo]

/-- The lead of a value that was laid out is in no need of the style, and a step further in if it
starts a line. -/
theorem stepped_valueLead {kind : Kind} (style : Style) (low : Nat) (h : head.Holds kind k lead)
    (hts : Stepped style top base token.head? (innerColumn column (style.valueLead head low lead))
      (innerColumn low (style.valueLead head low lead)) ts) :
    Stepped style top base (some head) column low
      ((style.valueLead head low lead, token) :: ts) := by
  have hspaces : OnSpaces lead := h.onSpaces
  refine ⟨fun hb => ?_, fun head' he => ?_, hts⟩
  · rw [hspaces.hasBreak_valueLead] at hb
    obtain ⟨d, hd⟩ := hspaces hb
    rw [Style.valueLead, if_pos hb, hd.moveTo_indentOf]
  · cases he
    refine ⟨fun hb => ?_, fun hb _ _ => ?_⟩
    · rw [hspaces.hasBreak_valueLead] at hb
      rw [hspaces.valueLead_valueLead id, valueLead_of_not_hasBreak style head low 0 hb]
    · rw [hspaces.hasBreak_valueLead] at hb
      exact Nat.le_of_eq (valueLead_of_hasBreak style low hb h).indentOf_eq.symm

/-- A value that was laid out stands further in than its entry, and no further out than it is taken
to be. -/
theorem innerColumn_valueLead_le {kind : Kind} (h : head.Holds kind k lead) (hlow : low ≤ column) :
    low + 1 ≤ innerColumn low (style.valueLead head low lead) ∧
      innerColumn low (style.valueLead head low lead) ≤
        innerColumn column (style.valueLead head low lead) := by
  by_cases hb : hasBreak lead
  · have hs := valueLead_of_hasBreak style low hb h
    have := style.step_pos
    rw [innerColumn_of_standsAt hs, innerColumn_of_standsAt hs]
    omega
  · rw [innerColumn, innerColumn, h.onSpaces.hasBreak_valueLead, if_neg hb, if_neg hb]
    omega

mutual

/-- The tokens of a value that was laid out are stepped behind the head of its entry, if those
behind the value belong to no head from there on. -/
theorem Block.stepped_layout {style : Style} {top head : Head} {base column low k : Nat}
    {more : List (Text × Token)} : (v : Block) → v.Inside head k → low ≤ column →
    Unowned top base (low + 1) more →
    (∀ t ∈ more.head?, top.Admitted base head column →
      ¬ head.Owns column (indentOf t.1) t.2.blockKind) →
    Stepped style top base none 0 0 more →
    Stepped style top base (some head) column low ((v.layout style head low).tokens ++ more)
  | .empty, _, _, hu, hhead, hmore =>
    hmore.behind fun t ht => ⟨(hu t ht).1, fun _ he => Option.some.inj he ▸ hhead t ht⟩
  | .scalar lead text, hin, _, hu, _, hmore =>
    stepped_valueLead style low hin (hmore.behind fun t ht => ⟨(hu t ht).1, nofun⟩)
  | .entries es, hin, hlow, hu, _, hmore => by
    rw [Block.Inside] at hin
    obtain ⟨hbound, hinner⟩ := innerColumn_valueLead_le hin.1 hlow
    obtain ⟨ts, htokens, hts⟩ := Entries.stepped_layout _ es hin.2 hinner (hu.mono hbound) hmore
    rw [Block.layout, Block.tokens, htokens]
    exact stepped_valueLead style low hin.1 hts

/-- The tokens of entries that were laid out are stepped behind the first head. -/
theorem Entries.stepped_layout {style : Style} {top : Head} {base column low k : Nat}
    {more : List (Text × Token)} (lead : Text) : (es : Entries) → es.Nested k → low ≤ column →
    Unowned top base low more → Stepped style top base none 0 0 more →
    ∃ ts, (es.layout style low lead).tokens = (lead, .head es.head) :: ts ∧
      Stepped style top base (some es.head) column low (ts ++ more)
  | .last _ head value, hn, hlow, hu, hmore => by
    rw [Entries.Nested] at hn
    refine ⟨_, by rw [Entries.layout, Entries.tokens]; rfl, ?_⟩
    exact Block.stepped_layout value hn hlow (hu.mono (Nat.le_succ low))
      (fun t ht => (hu t ht).2 head column hlow) hmore
  | .more _ head value others, hn, hlow, hu, hmore => by
    rw [Entries.Nested] at hn
    obtain ⟨hin, hstands, hkind, hn⟩ := hn
    have hlead := hstands.moveTo low
    obtain ⟨ts, htokens, hts⟩ := Entries.stepped_layout (moveTo low others.lead) others hn
      (Nat.le_refl low) hu hmore
    refine ⟨_, by rw [Entries.layout, Entries.tokens, htokens]; rfl, ?_⟩
    rw [List.append_assoc, List.cons_append]
    refine Block.stepped_layout value hin hlow ?_ ?_
      ⟨fun _ => hstands.moveTo_indentOf low, nofun, ?_⟩
    · rintro _ ⟨⟩
      refine ⟨hlead.1, fun head' column' hc _ ho => ?_⟩
      rw [hlead.indentOf_eq] at ho
      rcases ho with ho | ho <;> omega
    · rintro _ ⟨⟩ - ho
      rw [hlead.indentOf_eq] at ho
      rcases ho with ho | ⟨-, hm, hne⟩
      · omega
      · exact hne (hkind.trans hm)
    · rw [innerColumn_of_standsAt hlead]
      exact hts

end

theorem Head.blockKind_eq_sequence (head : Head) (h : head.blockKind ≠ .mapping) :
    head.blockKind = .sequence := by
  cases head with
  | item => rfl
  | key => exact absurd rfl h

/-- The tokens of the entries of a document that were laid out are stepped behind the first head,
which may be further in than it is taken to be. -/
theorem Entries.stepped_layoutTop (style : Style) (es : Entries) (hn : es.Nested base)
    (hlow : low ≤ base) :
    ∃ ts, (es.layoutTop style low).tokens = (settle es.lead, .head es.head) :: ts ∧
      Stepped style es.head base (some es.head) base low ts := by
  have hnil : Stepped style es.head base none 0 0 [] := trivial
  cases es with
  | last lead head value =>
    rw [Nested] at hn
    refine ⟨_, by rw [layoutTop, tokens]; rfl, ?_⟩
    have hts := Block.stepped_layout value hn hlow Unowned.nil (by rintro _ ⟨⟩) hnil
    rwa [List.append_nil] at hts
  | more lead head value others =>
    rw [Nested] at hn
    obtain ⟨hin, hstands, hkind, hn⟩ := hn
    have hlead := hstands.moveTo base
    obtain ⟨ts, htokens, hts⟩ := Entries.stepped_layout (moveTo base others.lead) others hn
      (Nat.le_refl base) Unowned.nil hnil
    refine ⟨_, by rw [layoutTop, hstands.indentOf_eq, tokens, htokens]; rfl, ?_⟩
    rw [List.append_nil] at hts
    -- What stands at the column of the first entry belongs to no entry, since these stand further
    -- in or are not keys.
    have hnot {head' : Head} {column' : Nat} (ha : head.Admitted base head' column')
        (ho : head'.Owns column' base others.head.blockKind) : False := by
      rcases ho with ho | ⟨rfl, hm, hne⟩
      · rcases ha with ha | ha <;> omega
      · rcases ha with ha | ⟨-, ha⟩
        · omega
        · rw [hkind] at hne
          rw [ha (head.blockKind_eq_sequence hne)] at hm
          cases hm
    refine Block.stepped_layout value hin hlow ?_ ?_ ⟨fun _ => hstands.moveTo_indentOf base,
      by rintro _ ⟨⟩, ?_⟩
    · rintro _ ⟨⟩
      refine ⟨hlead.1, fun head' column' _ ha ho => ?_⟩
      rw [hlead.indentOf_eq] at ho
      exact hnot ha ho
    · rintro _ ⟨⟩ ha ho
      rw [hlead.indentOf_eq] at ho
      exact hnot ha ho
    · rw [innerColumn_of_standsAt hlead]
      exact hts

/-! ### What is stepped gets no wider -/

/-- The entries behind a first one are stepped as they stand. -/
theorem Stepped.others {others : Entries} (hstands : StandsAt others.lead k)
    (h : Stepped style top base owner column low (ts ++ (others.tokens ++ more))) :
    moveTo k others.lead = others.lead ∧ ∃ ts,
      others.tokens = (others.lead, .head others.head) :: ts ∧
        Stepped style top base (some others.head) k k (ts ++ more) := by
  obtain ⟨ts, htokens⟩ := others.exists_tokens_eq
  obtain ⟨_, _, _, hmore⟩ := h.of_append
  rw [htokens, List.cons_append] at hmore
  obtain ⟨hmoved, -, hothers⟩ := hmore
  rw [innerColumn_of_standsAt hstands, innerColumn_of_standsAt hstands] at hothers
  rw [hstands.indentOf_eq] at hmoved
  exact ⟨hmoved hstands.1, ts, htokens, hothers⟩

/-- The lead of a value that is stepped gets no wider, and stands no further out than it comes to
stand. -/
theorem noWider_valueLead {low' : Nat} (token : Token) (h : head.Holds token.blockKind column lead)
    (hlow : low' ≤ low) (ha : top.Admitted base head column)
    (hst : Stepped style top base (some head) column low ((lead, token) :: ts)) :
    NoWider (style.valueLead head low' lead) lead ∧
      innerColumn low' (style.valueLead head low' lead) ≤ innerColumn low lead := by
  obtain ⟨hmoved, hfits, -⟩ := hst
  obtain ⟨hinline, howned⟩ := hfits head rfl
  by_cases hb : hasBreak lead
  · have hstands := valueLead_of_hasBreak style low' hb h
    rw [Head.Holds, if_pos hb] at h
    have hle := howned hb ha h.2
    rw [innerColumn_of_standsAt hstands, innerColumn, if_pos hb]
    refine ⟨?_, by omega⟩
    rw [Style.valueLead, if_pos hb]
    exact noWider_moveTo h.1 (hmoved hb) (by omega)
  · have hb' := eq_false_of_ne_true hb
    have hlead : style.valueLead head low' lead = lead := by
      rw [valueLead_of_not_hasBreak style head low' 0 hb', hinline hb']
    rw [hlead, innerColumn, innerColumn, if_neg hb, if_neg hb]
    exact ⟨.refl lead, by omega⟩

/-- A value that stands inside an entry below `top` stands below `top`. -/
theorem Head.Admitted.inner {head' : Head} (ha : top.Admitted base head column)
    (h : head.Holds head'.blockKind column lead) :
    top.Admitted base head' (innerColumn column lead) := by
  have hle : base ≤ column := by
    rcases ha with ha | ha <;> omega
  rw [Head.Holds] at h
  rw [innerColumn]
  by_cases hb : hasBreak lead
  · rw [if_pos hb] at h ⊢
    rcases h.2 with ho | ⟨he, hm, -⟩
    · exact .inl (by omega)
    · rcases ha with ha | ⟨rfl, ha⟩
      · exact .inl (by omega)
      · refine .inr ⟨he, fun htop => ?_⟩
        rw [ha htop] at hm
        cases hm
  · rw [if_neg hb]
    exact .inl (by omega)

mutual

/-- A value whose tokens are stepped gets no wider where it is laid out behind a head that is not
further in than it was taken to be. -/
theorem Block.noWider_layout {style : Style} {top head : Head} {base column low low' : Nat}
    {more : List (Text × Token)} : (v : Block) → v.Inside head column → low' ≤ low → low ≤ column →
    top.Admitted base head column →
    Stepped style top base (some head) column low (v.tokens ++ more) →
    NoWider (v.layout style head low').written v.written
  | .empty, _, _, _, _, _ => .refl _
  | .scalar lead text, hin, hlow, _, ha, hst =>
    (noWider_valueLead (.scalar text) hin hlow ha hst).1.append (.refl text)
  | .entries es, hin, hlow, hcolumn, ha, hst => by
    rw [Block.Inside] at hin
    obtain ⟨ts, htokens⟩ := es.exists_tokens_eq
    rw [Block.tokens, htokens] at hst
    obtain ⟨hlead, hinner⟩ := noWider_valueLead (.head es.head) hin.1 hlow ha hst
    have hle : innerColumn low es.lead ≤ innerColumn column es.lead := by
      rw [innerColumn, innerColumn]
      split <;> omega
    exact Entries.noWider_layout es hin.2 hinner hle (ha.inner hin.1) htokens hst.2.2 hlead

/-- Entries whose tokens are stepped get no wider where they are laid out. -/
theorem Entries.noWider_layout {style : Style} {top : Head} {base column low low' : Nat}
    {lead : Text} {ts more : List (Text × Token)} : (es : Entries) → es.Nested column →
    low' ≤ low → low ≤ column → top.Admitted base es.head column →
    es.tokens = (es.lead, .head es.head) :: ts →
    Stepped style top base (some es.head) column low (ts ++ more) → NoWider lead es.lead →
    NoWider (es.layout style low' lead).written es.written
  | .last _ head value, hn, hlow, hcolumn, ha, he, hst, hlead => by
    rw [Entries.Nested] at hn
    rw [Entries.tokens, List.cons.injEq] at he
    obtain ⟨-, rfl⟩ := he
    exact hlead.append ((NoWider.refl _).append
      (Block.noWider_layout value hn hlow hcolumn ha hst))
  | .more _ head value others, hn, hlow, hcolumn, ha, he, hst, hlead => by
    rw [Entries.Nested] at hn
    obtain ⟨hin, hstands, hkind, hn⟩ := hn
    rw [Entries.tokens, List.cons.injEq] at he
    obtain ⟨-, rfl⟩ := he
    rw [List.append_assoc] at hst
    obtain ⟨hmoved, ts, htokens, hothers⟩ := hst.others hstands
    have hle := Nat.le_trans hlow hcolumn
    have ha' : top.Admitted base others.head column := by rwa [Head.Admitted, hkind]
    exact hlead.append ((NoWider.refl _).append
      ((Block.noWider_layout value hin hlow hcolumn ha hst).append
        (Entries.noWider_layout others hn hle (Nat.le_refl column) ha' htokens hothers
          (noWider_moveTo hstands hmoved hle))))

end

/-- The entries of a document whose tokens are stepped get no wider where they are laid out. -/
theorem Entries.noWider_layoutTop (es : Entries) (hn : es.Nested base) (hlow : low ≤ base)
    (hsettle : settle es.lead = es.lead) (he : es.tokens = (es.lead, .head es.head) :: ts)
    (hst : Stepped style es.head base (some es.head) base low ts) :
    NoWider (es.layoutTop style low).written es.written := by
  have ha (head : Head) (hk : head.blockKind = es.head.blockKind) :
      es.head.Admitted base head base := .inr ⟨rfl, fun htop => hk.trans htop⟩
  cases es with
  | last lead head value =>
    rw [Nested] at hn
    rw [tokens, List.cons.injEq] at he
    obtain ⟨-, rfl⟩ := he
    rw [← List.append_nil value.tokens] at hst
    have hvalue := value.noWider_layout hn (Nat.le_refl low) hlow (ha head rfl) hst
    exact .append (.inl hsettle) ((NoWider.refl _).append hvalue)
  | more lead head value others =>
    rw [Nested] at hn
    obtain ⟨hin, hstands, hkind, hn⟩ := hn
    rw [tokens, List.cons.injEq] at he
    obtain ⟨-, rfl⟩ := he
    rw [← List.append_nil others.tokens] at hst
    obtain ⟨hmoved, ts, htokens, hothers⟩ := hst.others hstands
    rw [layoutTop, hstands.indentOf_eq]
    exact .append (.inl hsettle) ((NoWider.refl _).append
      ((Block.noWider_layout value hin (Nat.le_refl low) hlow (ha head rfl) hst).append
        (Entries.noWider_layout others hn (Nat.le_refl base) (Nat.le_refl base)
          (ha others.head hkind) htokens hothers
          (noWider_moveTo hstands hmoved (Nat.le_refl base)))))

/-! ### Documents that are read in a formatted text -/

theorem Block.lead_eq_of_tokens_eq {b b' : Block} (h : b.tokens = b'.tokens) :
    b.lead = b'.lead := by
  have hlead (b : Block) : b.lead = (b.tokens.head?.map Prod.fst).getD [] := by
    cases b with
    | empty | scalar => rfl
    | entries es =>
      obtain ⟨ts, hts⟩ := es.exists_tokens_eq
      rw [tokens, hts]
      rfl
  rw [hlead, hlead, h]

namespace Document

variable {line after after' : Text} {d e : Document}

theorem Agrees.column_eq (h : e.Agrees d) : e.column = d.column := by
  rw [column, column, Block.lead_eq_of_tokens_eq h.tokens_eq, h.lead_eq]

theorem Agrees.blockLine_eq (h : e.Agrees d) (line : Text) :
    e.blockLine line = d.blockLine line := by
  rw [blockLine, blockLine, h.lead_eq, h.mark_eq]

/-- The entries of a document with the tokens of one that was laid out open where those did, and
stand in the column that those were taken to be in. -/
theorem Laid.opening_eq {es : Entries} (h : d.Laid line after) (ha : e.Agrees (d.layout style))
    (hd : d.block = .entries es) : e.column = d.column ∧
      lineAfter (e.blockLine line) e.block.lead = lineAfter (d.blockLine line) d.block.lead := by
  have hb : d.block.children ≠ [] := by
    rw [hd]
    exact List.cons_ne_nil _ _
  have hlead : e.block.lead = settle d.block.lead :=
    (Block.lead_eq_of_tokens_eq ha.tokens_eq).trans (lead_layoutTop style d.column d.block)
  have hblank : (lastLine d.block.lead).all isBlank := by
    have hs := h.spelled
    rw [hd, Block.Spelled] at hs
    have hat := Entries.spelledAt hs
    rw [hd]
    exact hat.1.1.all_isBlank_lastLine hat.source_append_ne_nil
  refine ⟨ha.column_eq.trans (h.lined.column_layout style hb), ?_⟩
  rw [ha.blockLine_eq, h.blockLine_layout (h.afterLead_ne_nil hb), hlead, settle,
    lineAfter_realign _ hblank]

/-- The entries of a document with the tokens of one that was laid out get no wider where they are
laid out: they are stepped at the column that those were taken to be in. -/
theorem Laid.noWider_entries {es es' : Entries} (he : e.Laid line after') (h : d.Laid line after)
    (ha : e.Agrees (d.layout style)) (hb : e.block = .entries es) (hd : d.block = .entries es') :
    NoWider (es.layoutTop style e.column).written es.written := by
  obtain ⟨ts, hts⟩ := es.exists_tokens_eq
  have htokens : e.block.tokens = (d.block.layoutTop style d.column).tokens := ha.tokens_eq
  have hgap := h.lined.gap
  obtain ⟨hcolumn, hline⟩ := h.opening_eq ha hd
  have hshift := d.column_add_shift line
  have hopens := h.opens
  have hopens' := he.opens
  rw [hd] at hopens hgap hline hshift
  rw [hb] at hopens' hline
  have hlow : d.column ≤ (lineAfter (d.blockLine line) es'.lead).length :=
    Nat.le_trans (Nat.le_add_right _ _) (Nat.le_of_eq hshift.symm)
  have hcolumns : (lineAfter (e.blockLine line) es.lead).length =
      (lineAfter (d.blockLine line) es'.lead).length := congrArg List.length hline
  have hnested : es.Nested (lineAfter (e.blockLine line) es.lead).length := hopens'.2.2
  rw [hcolumns] at hnested
  obtain ⟨ts', hts', hst⟩ := es'.stepped_layoutTop style hopens.2.2 hlow
  rw [hb, hd, Block.layoutTop, Block.tokens, Block.tokens, hts, hts', List.cons.injEq,
    Prod.mk.injEq, Token.head.injEq] at htokens
  obtain ⟨⟨hlead, hhead⟩, rfl⟩ := htokens
  have hsettle : settle es.lead = es.lead := by
    rw [hlead]
    exact settle_settle hgap
  rw [hcolumn]
  exact es.noWider_layoutTop hnested hlow hsettle hts (hhead ▸ hst)

/-- The block of a document with the tokens of one that was laid out gets no wider where it is laid
out. -/
theorem Laid.noWider_block (he : e.Laid line after') (h : d.Laid line after)
    (ha : e.Agrees (d.layout style)) :
    NoWider (e.block.layoutTop style e.column).written e.block.written := by
  have htokens : e.block.tokens = (d.block.layoutTop style d.column).tokens := ha.tokens_eq
  cases hb : e.block with
  | empty => exact .refl _
  | scalar lead text =>
    rw [hb, Block.tokens] at htokens
    cases hd : d.block with
    | empty =>
      rw [hd] at htokens
      cases htokens
    | scalar lead' text' =>
      have hgap := h.lined.gap
      rw [hd] at htokens hgap
      cases htokens
      exact .append (.inl (settle_settle hgap)) (.refl _)
    | entries es' =>
      obtain ⟨ts, hts⟩ := (es'.layoutTop style d.column).exists_tokens_eq
      rw [hd, Block.layoutTop, Block.tokens, hts] at htokens
      cases htokens
  | entries es =>
    obtain ⟨ts, hts⟩ := es.exists_tokens_eq
    rw [hb, Block.tokens, hts] at htokens
    cases hd : d.block with
    | empty =>
      rw [hd] at htokens
      cases htokens
    | scalar =>
      rw [hd] at htokens
      cases congrArg Prod.snd (List.cons.inj htokens).1
    | entries es' => exact he.noWider_entries h ha hb hd

/-- A document with the leads, marks and tokens of one that was laid out gets no wider where it is
laid out. -/
theorem Laid.noWider_layout (he : e.Laid line after') (h : d.Laid line after)
    (ha : e.Agrees (d.layout style)) : NoWider (e.layout style).written e.written := by
  have hlead : realignDocument 0 e.lead = e.lead := by
    rw [ha.lead_eq]
    exact realignDocument_realignDocument 0 d.lead
  have hend : settle e.endLead = e.endLead := by
    rw [ha.endLead_eq]
    exact settle_settle h.endGap.1
  exact .append (.inl hlead) ((NoWider.refl _).append
    ((he.noWider_block h ha).append (.append (.inl hend) (.refl _))))

end Document

/-- Documents that are read in the text of documents that were laid out get no wider where they are
laid out, unless a comment trailed a mark in front of one of those. -/
theorem LaidAll.noWider_layout (style : Style) {line : Text} {es ds : List Document}
    (he : LaidAll line es) (h : LaidAll line ds) (hnil : es = [] ↔ ds = [])
    (hc : ∀ d ∈ ds.tail, '#' ∉ firstLine d.lead)
    (hw : writtenAll es = writtenAll (ds.map (Document.layout style))) :
    NoWider (writtenAll (es.map (Document.layout style))) (writtenAll es) := by
  induction ds generalizing line es with
  | nil =>
    rw [hnil.2 rfl]
    exact .refl _
  | cons d ds ih =>
    cases es with
    | nil => cases hnil.1 rfl
    | cons e es =>
      have hend := (endsToken_writtenAll_layout_iff style h).2 fun x hx =>
        hc x (List.mem_of_mem_head? hx)
      have hframed := h.1.framed_layout style (h.followedAlike style) hend
      obtain ⟨ha, hafter⟩ := he.1.framed.agrees hframed hw
      rw [List.map_cons, writtenAll, writtenAll]
      refine (he.1.noWider_layout h.1 ha).append ?_
      have hnil' : es = [] ↔ ds = [] := by
        constructor
        · rintro rfl
          exact h.2.1 (h.2.2.writtenAll_layout_eq_nil hafter.symm)
        · rintro rfl
          exact he.2.1 hafter
      cases ds with
      | nil =>
        rw [hnil'.2 rfl]
        exact .refl _
      | cons d' ds =>
        have hline : lineAfter line e.written = lineAfter line d.written := by
          rw [ha.written_eq, h.1.lineAfter_written_layout style fun hn =>
            List.cons_ne_nil _ _ (h.2.1 hn)]
        have he' := he.2.2
        rw [hline] at he'
        exact ih he' h.2.2 hnil' (fun x hx => hc x (List.mem_of_mem_tail hx)) hafter

end YamlIndent
