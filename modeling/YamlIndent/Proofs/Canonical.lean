import YamlIndent.Proofs.Formatting

/-!
# Canonical layouts

A datum is a word, a list, or a mapping with words as its keys. It has one layout for each step: a
list item opens on the line of its `-`, and a block behind a key one step further in on the next
line. The layout is syntax whose leads are blanks and breaks only; so it is spelled and nested by
construction, and the columns that a style of that step asks for are those that it has.

## Main definitions

* `Datum`, `Items`, `Pairs`: words, lists and mappings, nested in each other.
* `Datum.text`, `Datum.source`: the canonical layout of a datum, and the source made of it.
* `Datum.tree`, `Datum.stream`: the tree that a datum stands for, without leads.
* `Datum.block`: the canonical layout as syntax.

## Main results

* `Datum.spelled_block`, `Datum.inside_block`: the layout is spelled, and nested below any entry.
* `Datum.layout_block`: a style of the same step lays it out as it is.
* `parse_formatText_source`: a canonical source is read as its datum and is formatted to itself.
-/

namespace YamlIndent

/-! ### Data -/

/-- A word: letters and digits, at least one. -/
structure Word where
  text : Text
  ne_nil : text ≠ []
  all_isAlphanum : text.all Char.isAlphanum

mutual

/-- A word, a list or a mapping. -/
inductive Datum where
  | word (w : Word)
  | list (items : Items)
  | mapping (pairs : Pairs)

/-- The items of a list, at least one. -/
inductive Items where
  | last (value : Datum)
  | more (value : Datum) (others : Items)

/-- The keys of a mapping with their values, at least one. -/
inductive Pairs where
  | last (key : Word) (value : Datum)
  | more (key : Word) (value : Datum) (others : Pairs)

end

/-- The start of a new line, up to a column. -/
def newLine (column : Nat) : Text :=
  '\n' :: List.replicate column ' '

/-- What stands between a key and its value: a blank in front of a word, and the start of a line in
front of a block. -/
def Datum.leadUnder (column : Nat) : Datum → Text
  | word _ => [' ']
  | list _ | mapping _ => newLine column

mutual

/-- The canonical layout of a datum that opens at a column. -/
def Datum.text (step column : Nat) : Datum → Text
  | .word w => w.text
  | .list items => items.text step column
  | .mapping pairs => pairs.text step column

/-- The canonical layout of the items of a list at a column. -/
def Items.text (step column : Nat) : Items → Text
  | .last value => '-' :: ' ' :: value.text step (column + 2)
  | .more value others =>
    '-' :: ' ' :: (value.text step (column + 2) ++ (newLine column ++ others.text step column))

/-- The canonical layout of the pairs of a mapping at a column. -/
def Pairs.text (step column : Nat) : Pairs → Text
  | .last key value =>
    key.text ++ ':' :: (value.leadUnder (column + step) ++ value.text step (column + step))
  | .more key value others =>
    key.text ++ ':' :: (value.leadUnder (column + step) ++ (value.text step (column + step) ++
      (newLine column ++ others.text step column)))

end

/-- The canonical source of a datum. The end of its last line may be written or not. -/
def Datum.source (step : Nat) (ended : Bool) (v : Datum) : Text :=
  v.text step 0 ++ if ended then ['\n'] else []

mutual

/-- The tree of a datum, without leads. -/
def Datum.tree : Datum → Tree
  | .word w => ⟨(), .scalar, [], w.text, []⟩
  | .list items => ⟨(), .sequence, [], [], items.trees⟩
  | .mapping pairs => ⟨(), .mapping, [], [], pairs.trees⟩

/-- The trees of the items of a list, without leads. -/
def Items.trees : Items → List Tree
  | .last value => [⟨(), .sequenceEntry, [], ['-'], [value.tree]⟩]
  | .more value others => ⟨(), .sequenceEntry, [], ['-'], [value.tree]⟩ :: others.trees

/-- The trees of the pairs of a mapping, without leads. -/
def Pairs.trees : Pairs → List Tree
  | .last key value =>
    [⟨(), .mappingEntry, [], [':'], [⟨(), .scalar, [], key.text, []⟩, value.tree]⟩]
  | .more key value others =>
    ⟨(), .mappingEntry, [], [':'], [⟨(), .scalar, [], key.text, []⟩, value.tree]⟩ :: others.trees

end

/-- The stream of one document that holds a datum, without leads. -/
def Datum.stream (v : Datum) : Tree :=
  ⟨(), .stream, [], [], [⟨(), .document, [], [], [v.tree, ⟨(), .documentEnd, [], [], []⟩]⟩]⟩

/-! ### Words -/

variable {t : Text}

theorem beq_eq_false_of_isAlphanum {c d : Char} (hc : c.isAlphanum) (hd : d.isAlphanum = false) :
    (c == d) = false := by
  rw [beq_eq_false_iff_ne]
  rintro rfl
  rw [hd] at hc
  cases hc

theorem isBlank_of_isAlphanum {c : Char} (h : c.isAlphanum) : isBlank c = false := by
  simp [isBlank, beq_eq_false_of_isAlphanum h]

theorem isBreak_of_isAlphanum {c : Char} (h : c.isAlphanum) : isBreak c = false := by
  simp [isBreak, beq_eq_false_of_isAlphanum h]

theorem hasBreak_of_all_isAlphanum (h : t.all Char.isAlphanum) : hasBreak t = false := by
  rw [hasBreak, List.any_eq_false]
  intro c hc
  rw [isBreak_of_isAlphanum (List.all_eq_true.1 h c hc)]
  exact Bool.false_ne_true

theorem splitPlain_of_all_isAlphanum (afterBlank : Bool) (h : t.all Char.isAlphanum) :
    splitPlain afterBlank t = (t, []) := by
  induction t generalizing afterBlank with
  | nil => rfl
  | cons c t ih =>
    rw [List.all_cons, Bool.and_eq_true] at h
    rw [splitPlain, isBreak_of_isAlphanum h.1, beq_eq_false_of_isAlphanum h.1 (by decide), ih _ h.2]
    rfl

theorem splitTrailing_of_all_isAlphanum (h : t.all Char.isAlphanum) :
    splitTrailing t = (t, []) := by
  have hr : t.reverse.all Char.isAlphanum := by rwa [List.all_reverse]
  rw [splitTrailing]
  cases he : t.reverse with
  | nil =>
    rw [List.reverse_eq_nil_iff] at he
    rw [he]
    rfl
  | cons c cs =>
    rw [he, List.all_cons, Bool.and_eq_true] at hr
    have hc : ¬isBlank c = true := by rw [isBlank_of_isAlphanum hr.1]; exact Bool.false_ne_true
    rw [List.dropWhile_cons_of_neg hc, List.takeWhile_cons_of_neg hc, ← he, List.reverse_reverse]
    rfl

theorem splitAtColon_of_all_isAlphanum (afterBlank : Bool) (h : t.all Char.isAlphanum) :
    splitAtColon afterBlank t = none := by
  induction t generalizing afterBlank with
  | nil => rfl
  | cons c t ih =>
    rw [List.all_cons, Bool.and_eq_true] at h
    have hc {d : Char} (hd : d.isAlphanum = false) := beq_eq_false_of_isAlphanum h.1 hd
    rw [splitAtColon, isBreak_of_isAlphanum h.1, hc (d := ':') rfl, hc (d := '#') rfl, ih _ h.2]
    rfl

theorem splitAtColon_append_of_all_isAlphanum (afterBlank : Bool) (h : t.all Char.isAlphanum)
    {rest : Text} (hr : endsToken rest) :
    splitAtColon afterBlank (t ++ ':' :: rest) = some (t, rest) := by
  induction t generalizing afterBlank with
  | nil =>
    rw [List.nil_append, splitAtColon, hr]
    rfl
  | cons c t ih =>
    rw [List.all_cons, Bool.and_eq_true] at h
    have hc {d : Char} (hd : d.isAlphanum = false) := beq_eq_false_of_isAlphanum h.1 hd
    rw [List.cons_append, splitAtColon, isBreak_of_isAlphanum h.1, hc (d := ':') rfl,
      hc (d := '#') rfl, ih _ h.2]
    rfl

namespace Word

variable (w : Word)

theorem exists_text_eq_cons : ∃ c cs, w.text = c :: cs ∧ c.isAlphanum ∧ cs.all Char.isAlphanum := by
  obtain ⟨text, hne, hall⟩ := w
  cases text with
  | nil => exact absurd rfl hne
  | cons c cs =>
    rw [List.all_cons, Bool.and_eq_true] at hall
    exact ⟨c, cs, rfl, hall⟩

/-- A text that begins with a word begins with a token, which is no mark of a document. -/
theorem startsToken_append (rest : Text) :
    startsToken (w.text ++ rest) ∧ startsMark (w.text ++ rest) = false := by
  obtain ⟨c, cs, he, hc, -⟩ := w.exists_text_eq_cons
  rw [he, List.cons_append]
  constructor
  · rw [startsToken, isBlank_of_isAlphanum hc, isBreak_of_isAlphanum hc,
      beq_eq_false_of_isAlphanum hc (by decide)]
    rfl
  · have hmark {d : Char} (hd : d.isAlphanum = false) : (d == c) = false := by
      rw [Bool.beq_comm, beq_eq_false_of_isAlphanum hc hd]
    simp [startsMark, Place.startMark, Place.endMark, List.isPrefixOf, hmark (d := '-') rfl,
      hmark (d := '.') rfl]

theorem scalarOf?_text : scalarOf? w.text = some (w.text, []) := by
  obtain ⟨c, cs, he, hc, -⟩ := w.exists_text_eq_cons
  have hne {d : Char} (hd : d.isAlphanum = false) := beq_eq_false_of_isAlphanum hc hd
  have htake : takeScalar? w.text = some (w.text, []) := by
    rw [← splitPlain_of_all_isAlphanum false w.all_isAlphanum, he, takeScalar?, isQuote,
      hne (d := '|') rfl, hne (d := '>') rfl, hne (d := '"') rfl, hne (d := '\'') rfl,
      hne (d := '[') rfl, hne (d := '\x7b') rfl]
    rfl
  rw [scalarOf?_eq, htake, Option.map_some, giveBack,
    splitTrailing_of_all_isAlphanum w.all_isAlphanum]
  rfl

/-- What begins with a word is no item, and is a key if a key can be split off. -/
theorem headOf?_append (rest : Text) : headOf? (w.text ++ rest) =
    (splitAtColon false (w.text ++ rest)).bind fun (key, r) =>
      if key = [] then none
      else some (.key (splitTrailing key).1 ((splitTrailing key).2 ++ [':']), r) := by
  obtain ⟨c, cs, he, hc, -⟩ := w.exists_text_eq_cons
  have hne {d : Char} (hd : d.isAlphanum = false) := beq_eq_false_of_isAlphanum hc hd
  have hitem : Place.atItem ⟨[' '], w.text ++ rest⟩ = false := by
    have hdash : c ≠ '-' := beq_eq_false_iff_ne.1 (hne rfl)
    simp [he, Place.atItem, hdash]
  have hmark : Place.atDocumentMark ⟨[' '], w.text ++ rest⟩ = false := rfl
  have hkey : splitKey (w.text ++ rest) =
      (splitAtColon false (w.text ++ rest)).filter fun split => !split.1.isEmpty := by
    rw [he, List.cons_append, splitKey, barsKey, isQuote, hne (d := '|') rfl, hne (d := '>') rfl,
      hne (d := '"') rfl, hne (d := '\'') rfl, hne (d := '[') rfl, hne (d := '\x7b') rfl,
      hne (d := '#') rfl]
    rcases splitAtColon false (c :: (cs ++ rest)) with _ | ⟨_ | ⟨k, ks⟩, r⟩ <;> rfl
  rw [headOf?, Place.head?, hitem, hmark]
  simp only [Bool.false_eq_true, if_false, Option.map_map, hkey]
  rcases splitAtColon false (w.text ++ rest) with _ | ⟨_ | ⟨k, ks⟩, r⟩ <;> rfl

/-- A word and a colon are a key. -/
theorem headOf?_key {rest : Text} (hr : endsToken rest) :
    headOf? (w.text ++ ':' :: rest) = some (.key w.text [':'], rest) := by
  rw [headOf?_append, splitAtColon_append_of_all_isAlphanum false w.all_isAlphanum hr]
  simp [w.ne_nil, splitTrailing_of_all_isAlphanum w.all_isAlphanum]

theorem headOf?_text : headOf? w.text = none := by
  have h := w.headOf?_append []
  rwa [List.append_nil, splitAtColon_of_all_isAlphanum false w.all_isAlphanum] at h

end Word

/-! ### Layouts as syntax -/

mutual

/-- The canonical layout of a datum behind a lead that leads to a column. -/
def Datum.block (step column : Nat) (lead : Text) : Datum → Block
  | .word w => .scalar lead w.text
  | .list items => .entries (items.entries step column lead)
  | .mapping pairs => .entries (pairs.entries step column lead)

/-- The canonical layout of the items of a list at a column, the first behind a lead. -/
def Items.entries (step column : Nat) (lead : Text) : Items → Entries
  | .last value => .last lead .item (value.block step (column + 2) [' '])
  | .more value others =>
    .more lead .item (value.block step (column + 2) [' '])
      (others.entries step column (newLine column))

/-- The canonical layout of the pairs of a mapping at a column, the first behind a lead. -/
def Pairs.entries (step column : Nat) (lead : Text) : Pairs → Entries
  | .last key value =>
    .last lead (.key key.text [':'])
      (value.block step (column + step) (value.leadUnder (column + step)))
  | .more key value others =>
    .more lead (.key key.text [':'])
      (value.block step (column + step) (value.leadUnder (column + step)))
      (others.entries step column (newLine column))

end

section

variable {step column : Nat} {lead : Text}

@[simp] theorem Items.lead_entries : (items : Items) → (items.entries step column lead).lead = lead
  | .last .. | .more .. => rfl

@[simp] theorem Items.head_entries :
    (items : Items) → (items.entries step column lead).head = .item
  | .last .. | .more .. => rfl

@[simp] theorem Pairs.lead_entries : (pairs : Pairs) → (pairs.entries step column lead).lead = lead
  | .last .. | .more .. => rfl

@[simp] theorem Pairs.blockKind_head_entries :
    (pairs : Pairs) → (pairs.entries step column lead).head.blockKind = .mapping
  | .last .. | .more .. => rfl

@[simp] theorem Datum.lead_block : (v : Datum) → (v.block step column lead).lead = lead
  | .word _ => rfl
  | .list items => items.lead_entries
  | .mapping pairs => pairs.lead_entries

end

mutual

theorem Datum.written_block (step column : Nat) (lead : Text) :
    (v : Datum) → (v.block step column lead).written = lead ++ v.text step column
  | .word _ => rfl
  | .list items => Items.written_entries step column lead items
  | .mapping pairs => Pairs.written_entries step column lead pairs

theorem Items.written_entries (step column : Nat) (lead : Text) :
    (items : Items) → (items.entries step column lead).written = lead ++ items.text step column
  | .last value => by
    simp [Items.entries, Items.text, Entries.written, Head.source, Datum.written_block]
  | .more value others => by
    simp [Items.entries, Items.text, Entries.written, Head.source, Datum.written_block,
      Items.written_entries step column _ others]

theorem Pairs.written_entries (step column : Nat) (lead : Text) :
    (pairs : Pairs) → (pairs.entries step column lead).written = lead ++ pairs.text step column
  | .last key value => by
    simp [Pairs.entries, Pairs.text, Entries.written, Head.source, Datum.written_block]
  | .more key value others => by
    simp [Pairs.entries, Pairs.text, Entries.written, Head.source, Datum.written_block,
      Pairs.written_entries step column _ others]

end

mutual

/-- The layout of a datum has the tree of the datum, but for leads. -/
theorem Datum.bare_block (step column : Nat) (lead : Text) :
    (v : Datum) → (v.block step column lead).tree.bare = v.tree
  | .word _ => rfl
  | .list items => by
    rw [Datum.block, Block.tree, Node.bare, Items.bareAll_entries step column lead items,
      Items.head_entries, Datum.tree, Head.blockKind]
  | .mapping pairs => by
    rw [Datum.block, Block.tree, Node.bare, Pairs.bareAll_entries step column lead pairs,
      Pairs.blockKind_head_entries, Datum.tree]

theorem Items.bareAll_entries (step column : Nat) (lead : Text) :
    (items : Items) → Node.bareAll (items.entries step column lead).trees = items.trees
  | .last value => by
    simp [Items.entries, Entries.trees, Items.trees, Node.bareAll, Head.entry, Node.bare,
      Datum.bare_block step _ _ value]
  | .more value others => by
    simp [Items.entries, Entries.trees, Items.trees, Node.bareAll, Head.entry, Node.bare,
      Datum.bare_block step _ _ value, Items.bareAll_entries step column _ others]

theorem Pairs.bareAll_entries (step column : Nat) (lead : Text) :
    (pairs : Pairs) → Node.bareAll (pairs.entries step column lead).trees = pairs.trees
  | .last key value => by
    simp [Pairs.entries, Entries.trees, Pairs.trees, Node.bareAll, Head.entry, Head.scalarNode,
      Node.bare, Datum.bare_block step _ _ value]
  | .more key value others => by
    simp [Pairs.entries, Entries.trees, Pairs.trees, Node.bareAll, Head.entry, Head.scalarNode,
      Node.bare, Datum.bare_block step _ _ value, Pairs.bareAll_entries step column _ others]

end

/-! ### Layouts are spelled -/

/-- A gap behind which a token can begin at once. -/
def LeadsToToken (lead : Text) : Prop :=
  isGap false lead ∧ inComment false lead = false

theorem leadsToToken_of_all_isBlank {lead : Text} (h : lead.all isBlank) : LeadsToToken lead :=
  ⟨isGap_of_all_isBlank false h, inComment_of_all_isBlank false h⟩

theorem standsAt_newLine (column : Nat) : StandsAt (newLine column) column :=
  show StandsAt ([] ++ '\n' :: List.replicate column ' ') column from .of_eq_append rfl

theorem leadsToToken_newLine (column : Nat) : LeadsToToken (newLine column) :=
  have h : LeadsToToken (List.replicate column ' ') :=
    leadsToToken_of_all_isBlank (all_isBlank_replicate column)
  ⟨h.1, h.2⟩

theorem Datum.leadsToToken_leadUnder (column : Nat) :
    (v : Datum) → LeadsToToken (v.leadUnder column)
  | word _ => leadsToToken_of_all_isBlank rfl
  | list _ | mapping _ => leadsToToken_newLine column

theorem LeadsToToken.introduces {lead rest : Text} (h : LeadsToToken lead)
    (hr : startsToken rest ∧ startsMark rest = false) : Introduces lead rest :=
  ⟨⟨h.1, .inr ⟨h.2, hr.1⟩⟩, fun _ => hr.2⟩

theorem startsLine_newLine_append (column : Nat) (t : Text) : startsLine (newLine column ++ t) :=
  rfl

theorem Head.spelledAt_item {lead t : Text} (h : LeadsToToken lead) :
    Head.item.SpelledAt lead (' ' :: t) :=
  ⟨h.introduces ⟨rfl, startsMark_eq_false_of_item rfl⟩, headOf?_item.2 rfl⟩

theorem Head.spelledAt_key {lead rest : Text} (h : LeadsToToken lead) (w : Word)
    (hr : endsToken rest) : (Head.key w.text [':']).SpelledAt lead rest := by
  rw [SpelledAt, source, List.append_assoc]
  exact ⟨h.introduces (w.startsToken_append _), w.headOf?_key hr⟩

theorem Datum.endsToken_leadUnder_append (column : Nat) (t : Text) :
    (v : Datum) → endsToken (v.leadUnder column ++ t)
  | word _ | list _ | mapping _ => rfl

/-- In front of a new line a word is a scalar and no entry. -/
theorem Word.headOf?_append_of_startsLine (w : Word) {after : Text} (ha : startsLine after) :
    headOf? (w.text ++ after) = none := by
  rw [headOf?_append_next (hasBreak_of_all_isAlphanum w.all_isAlphanum) ha, w.headOf?_text]
  rfl

theorem Word.scalarOf?_append (w : Word) {after : Text} (ha : startsLine after) :
    scalarOf? (w.text ++ after) = some (w.text, after) := by
  rw [scalarOf?_append_next (hasBreak_of_all_isAlphanum w.all_isAlphanum) ha, w.scalarOf?_text]
  rfl

theorem Datum.admits_block (head : Head) {step column : Nat} {lead after : Text}
    (ha : startsLine after) : (v : Datum) → head.Admits (v.block step column lead) after
  | word w => fun _ => w.headOf?_append_of_startsLine ha
  | list _ | mapping _ => fun _ => trivial

mutual

/-- The layout of a datum is spelled behind any lead that ends in front of a token. -/
theorem Datum.spelled_block {step column : Nat} {lead after : Text} (hl : LeadsToToken lead)
    (ha : startsLine after) : (v : Datum) → (v.block step column lead).Spelled after
  | .word w => ⟨w.ne_nil, hl.introduces (w.startsToken_append after), w.scalarOf?_append ha⟩
  | .list items => Items.spelled_entries hl ha items
  | .mapping pairs => Pairs.spelled_entries hl ha pairs

theorem Items.spelled_entries {step column : Nat} {lead after : Text} (hl : LeadsToToken lead)
    (ha : startsLine after) : (items : Items) → (items.entries step column lead).Spelled after
  | .last value => by
    rw [Items.entries, Entries.Spelled, Datum.written_block]
    exact ⟨Head.spelledAt_item hl, value.admits_block _ ha,
      Datum.spelled_block (leadsToToken_of_all_isBlank rfl) ha value⟩
  | .more value others => by
    rw [Items.entries, Entries.Spelled, Datum.written_block, Items.written_entries,
      List.append_assoc (newLine column)]
    have hline := startsLine_newLine_append column (others.text step column ++ after)
    exact ⟨Head.spelledAt_item hl, value.admits_block _ hline,
      Datum.spelled_block (leadsToToken_of_all_isBlank rfl) hline value,
      Items.spelled_entries (leadsToToken_newLine column) ha others⟩

theorem Pairs.spelled_entries {step column : Nat} {lead after : Text} (hl : LeadsToToken lead)
    (ha : startsLine after) : (pairs : Pairs) → (pairs.entries step column lead).Spelled after
  | .last key value => by
    rw [Pairs.entries, Entries.Spelled, Datum.written_block, List.append_assoc]
    exact ⟨Head.spelledAt_key hl key (value.endsToken_leadUnder_append _ _),
      value.admits_block _ ha, Datum.spelled_block (value.leadsToToken_leadUnder _) ha value⟩
  | .more key value others => by
    rw [Pairs.entries, Entries.Spelled, Datum.written_block, Pairs.written_entries,
      List.append_assoc, List.append_assoc (newLine column)]
    have hline := startsLine_newLine_append column (others.text step column ++ after)
    exact ⟨Head.spelledAt_key hl key (value.endsToken_leadUnder_append _ _),
      value.admits_block _ hline, Datum.spelled_block (value.leadsToToken_leadUnder _) hline value,
      Pairs.spelled_entries (leadsToToken_newLine column) ha others⟩

end

/-! ### Layouts are nested -/

theorem Head.holds_newLine {head : Head} {kind : Kind} {column inner : Nat} (h : column < inner) :
    head.Holds kind column (newLine inner) := by
  have hs := standsAt_newLine inner
  rw [Holds, if_pos hs.1, hs.indentOf_eq]
  exact ⟨hs, .inl h⟩

mutual

/-- The layout of a datum stands inside an item two columns further out. -/
theorem Datum.inside_item {step column : Nat} (hs : 0 < step) :
    (v : Datum) → (v.block step (column + 2) [' ']).Inside .item column
  | .word _ => .inl rfl
  | .list items => by
    rw [Datum.block, Block.Inside, Items.lead_entries]
    exact ⟨.inr rfl, Items.nested_entries hs items⟩
  | .mapping pairs => by
    rw [Datum.block, Block.Inside, Pairs.lead_entries]
    exact ⟨.inr rfl, Pairs.nested_entries hs pairs⟩

/-- The layout of a datum stands inside a key one step further out. -/
theorem Datum.inside_key {step column : Nat} {text indicator : Text} (hs : 0 < step) :
    (v : Datum) → (v.block step (column + step) (v.leadUnder (column + step))).Inside
      (.key text indicator) column
  | .word _ => .inl rfl
  | .list items => by
    rw [Datum.block, Block.Inside, Items.lead_entries, Datum.leadUnder,
      innerColumn_of_standsAt (standsAt_newLine _)]
    exact ⟨Head.holds_newLine (Nat.lt_add_of_pos_right hs), Items.nested_entries hs items⟩
  | .mapping pairs => by
    rw [Datum.block, Block.Inside, Pairs.lead_entries, Datum.leadUnder,
      innerColumn_of_standsAt (standsAt_newLine _)]
    exact ⟨Head.holds_newLine (Nat.lt_add_of_pos_right hs), Pairs.nested_entries hs pairs⟩

theorem Items.nested_entries {step column : Nat} {lead : Text} (hs : 0 < step) :
    (items : Items) → (items.entries step column lead).Nested column
  | .last value => Datum.inside_item hs value
  | .more value others => by
    rw [Items.entries, Entries.Nested, Items.lead_entries, Items.head_entries]
    exact ⟨Datum.inside_item hs value, standsAt_newLine column, rfl, Items.nested_entries hs others⟩

theorem Pairs.nested_entries {step column : Nat} {lead : Text} (hs : 0 < step) :
    (pairs : Pairs) → (pairs.entries step column lead).Nested column
  | .last _ value => Datum.inside_key hs value
  | .more _ value others => by
    rw [Pairs.entries, Entries.Nested, Pairs.lead_entries, Pairs.blockKind_head_entries]
    exact ⟨Datum.inside_key hs value, standsAt_newLine column, rfl, Pairs.nested_entries hs others⟩

end

/-! ### Layouts stay -/

theorem moveTo_newLine (c d : Nat) : moveTo d (newLine c) = newLine d :=
  show moveTo d ([] ++ '\n' :: List.replicate c ' ') = newLine d from moveTo_append rfl c d

theorem Style.valueLead_item (style : Style) (column : Nat) :
    style.valueLead .item column [' '] = [' '] := by
  rw [valueLead, if_neg (by decide), ite_self]

theorem Style.valueLead_leadUnder (style : Style) {text indicator : Text} (column : Nat) :
    (v : Datum) → style.valueLead (.key text indicator) column
      (v.leadUnder (column + style.step)) = v.leadUnder (column + style.step)
  | .word _ => by rw [Datum.leadUnder, valueLead, if_neg (by decide), ite_self]
  | .list _ | .mapping _ => by
    rw [Datum.leadUnder, valueLead, if_pos (standsAt_newLine _).1, moveTo_newLine]

mutual

/-- A style lays the value of an item out as it is. -/
theorem Datum.layout_item (style : Style) (column : Nat) : (v : Datum) →
    (v.block style.step (column + 2) [' ']).layout style .item column =
      v.block style.step (column + 2) [' ']
  | .word w => by rw [Datum.block, Block.layout, style.valueLead_item]
  | .list items => by
    rw [Datum.block, Block.layout, Items.lead_entries, style.valueLead_item]
    exact congrArg Block.entries (Items.layout_entries style (column + 2) [' '] [' '] items)
  | .mapping pairs => by
    rw [Datum.block, Block.layout, Pairs.lead_entries, style.valueLead_item]
    exact congrArg Block.entries (Pairs.layout_entries style (column + 2) [' '] [' '] pairs)

/-- A style lays the value of a key out as it is. -/
theorem Datum.layout_key (style : Style) {text indicator : Text} (column : Nat) : (v : Datum) →
    (v.block style.step (column + style.step) (v.leadUnder (column + style.step))).layout style
      (.key text indicator) column =
      v.block style.step (column + style.step) (v.leadUnder (column + style.step))
  | .word w => by rw [Datum.block, Block.layout, style.valueLead_leadUnder]
  | .list items => by
    rw [Datum.block, Block.layout, Items.lead_entries, style.valueLead_leadUnder, Datum.leadUnder,
      innerColumn_of_standsAt (standsAt_newLine _), Items.layout_entries style _ _ _ items]
  | .mapping pairs => by
    rw [Datum.block, Block.layout, Pairs.lead_entries, style.valueLead_leadUnder, Datum.leadUnder,
      innerColumn_of_standsAt (standsAt_newLine _), Pairs.layout_entries style _ _ _ pairs]

/-- A style lays items out as they are, behind the lead that it gives to the first. -/
theorem Items.layout_entries (style : Style) (column : Nat) (lead lead' : Text) :
    (items : Items) → (items.entries style.step column lead).layout style column lead' =
      items.entries style.step column lead'
  | .last value => by rw [Items.entries, Entries.layout, Datum.layout_item style column value]; rfl
  | .more value others => by
    rw [Items.entries, Entries.layout, Datum.layout_item style column value, Items.lead_entries,
      moveTo_newLine, Items.layout_entries style column _ _ others]
    rfl

theorem Pairs.layout_entries (style : Style) (column : Nat) (lead lead' : Text) :
    (pairs : Pairs) → (pairs.entries style.step column lead).layout style column lead' =
      pairs.entries style.step column lead'
  | .last _ value => by rw [Pairs.entries, Entries.layout, Datum.layout_key style column value]; rfl
  | .more _ value others => by
    rw [Pairs.entries, Entries.layout, Datum.layout_key style column value, Pairs.lead_entries,
      moveTo_newLine, Pairs.layout_entries style column _ _ others]
    rfl

end

/-- Entries that are nested from the column of a document are laid out as below an entry. -/
theorem Entries.layoutTop_of_nested (style : Style) {column : Nat} (es : Entries)
    (h : es.Nested column) :
    es.layoutTop style column = es.layout style column (settle es.lead) := by
  cases es with
  | last lead head value => rfl
  | more lead head value others =>
    rw [Nested] at h
    rw [layoutTop, layout, h.2.1.indentOf_eq, Entries.lead]

/-- A style lays a datum at the margin out as it is. -/
theorem Datum.layoutTop_block (style : Style) : (v : Datum) →
    (v.block style.step 0 []).layoutTop style 0 = v.block style.step 0 []
  | word _ => rfl
  | list items => by
    rw [block, Block.layoutTop, Entries.layoutTop_of_nested style _
      (items.nested_entries style.step_pos), items.layout_entries, items.lead_entries]
    rfl
  | mapping pairs => by
    rw [block, Block.layoutTop, Entries.layoutTop_of_nested style _
      (pairs.nested_entries style.step_pos), pairs.layout_entries, pairs.lead_entries]
    rfl

/-! ### Canonical sources -/

namespace Datum

/-- The document of a canonical source. -/
def document (step : Nat) (ended : Bool) (v : Datum) : Document where
  lead := []
  marked := false
  block := v.block step 0 []
  endLead := if ended then ['\n'] else []
  ended := false

variable (step : Nat) (ended : Bool)

theorem written_document (v : Datum) : (v.document step ended).written = v.source step ended := by
  rw [Document.written, source]
  simp [document, Document.mark, Document.endText, v.written_block]

theorem bare_streamTree_document (v : Datum) :
    (streamTree [v.document step ended]).bare = v.stream := by
  have hchildren : Node.bareAll (v.block step 0 []).children = [v.tree] := by
    have hb := v.bare_block step 0 []
    cases v with
    | word w => rfl
    | list items => exact congrArg (· :: []) hb
    | mapping pairs => exact congrArg (· :: []) hb
  simp [streamTree, Document.tree, Node.bare, Node.bareAll, Node.bareAll_append, stream, document,
    Document.mark, Document.endText, hchildren]

/-- A datum begins with a token, which is no mark of a document. -/
theorem startsToken_text (column : Nat) (rest : Text) : (v : Datum) →
    startsToken (v.text step column ++ rest) ∧ startsMark (v.text step column ++ rest) = false
  | word w => w.startsToken_append rest
  | list (.last _) | list (.more ..) => ⟨rfl, startsMark_eq_false_of_item rfl⟩
  | mapping (.last key _) | mapping (.more key ..) => by
    rw [text, Pairs.text, List.append_assoc]
    exact key.startsToken_append _

theorem opens_block {step : Nat} (hs : 0 < step) {after : Text} (ha : startsLine after)
    (v : Datum) : (v.block step 0 []).Opens [] after := by
  have hm := (v.startsToken_text step 0 after).2
  rw [← List.nil_append (v.text step 0), ← v.written_block] at hm
  have hentries {es : Entries} (hw : startsMark (es.written ++ after) = false)
      (hl : es.lead = []) (hn : es.Nested 0) : (Block.entries es).Opens [] after := by
    rw [es.written_eq, hl, List.nil_append, List.append_assoc] at hw
    simp only [Block.Opens, hl, Place.atDocumentMark_eq, hw]
    exact ⟨rfl, rfl, hn⟩
  cases v with
  | word w =>
    refine ⟨w.headOf?_append_of_startsLine ha, ?_⟩
    rw [Place.atDocumentMark_eq]
    exact hm
  | list items => exact hentries hm items.lead_entries (items.nested_entries hs)
  | mapping pairs => exact hentries hm pairs.lead_entries (pairs.nested_entries hs)

theorem laid_document {step : Nat} (hs : 0 < step) (v : Datum) :
    (v.document step ended).Laid [] [] := by
  have hlead : LeadsToToken [] := leadsToToken_of_all_isBlank rfl
  have hafter : startsLine ((v.document step ended).afterBlock []) := by cases ended <;> rfl
  have hstart := v.startsToken_text step 0 ((v.document step ended).afterBlock [])
  rw [← List.nil_append (v.text step 0), ← v.written_block] at hstart
  refine ⟨⟨(hlead.introduces hstart).1, v.spelled_block hlead hafter, ?_, .inl rfl⟩, ?_,
    v.opens_block hs hafter, ?_, .inr (.inl rfl)⟩
  · cases ended <;> rfl
  · have hm : Place.atDocumentMark ⟨[], (v.document step ended).afterLead []⟩ = false := by
      rw [Place.atDocumentMark_eq]
      exact hstart.2
    rw [Place.atDocumentMark_eq_or, Bool.or_eq_false_iff] at hm
    exact hm.1
  · rw [Place.atMark_eq]
    exact Bool.and_false _

theorem layout_document (style : Style) (v : Datum) :
    (v.document style.step ended).layout style = v.document style.step ended := by
  have hcolumn : (v.document style.step ended).column = 0 := by
    rw [Document.column, document, v.lead_block]
    rfl
  have hend : settle (if ended then ['\n'] else []) = if ended then ['\n'] else [] := by
    cases ended <;> rfl
  rw [Document.layout, hcolumn]
  simp only [document, v.layoutTop_block style, hend]
  rfl

end Datum

/-- Every canonical source is read as its datum, and a style of its step formats it to itself. -/
theorem parse_formatText_source (style : Style) (ended : Bool) (v : Datum) :
    ∃ t, parse (v.source style.step ended) = .ok t ∧ t.bare = v.stream ∧
      formatText style (v.source style.step ended) = .ok (v.source style.step ended) := by
  have hc : Consists (v.source style.step ended) [v.document style.step ended] := by
    refine ⟨List.cons_ne_nil _ _, ⟨v.laid_document ended style.step_pos, fun _ => rfl, trivial⟩, ?_⟩
    rw [writtenAll, writtenAll, List.append_nil, v.written_document]
  refine ⟨_, parse_eq_ok_iff.2 ⟨_, hc, rfl⟩, v.bare_streamTree_document style.step ended, ?_⟩
  rw [formatText_of_consists style hc, List.map_singleton, v.layout_document, hc.written_eq]

/-- A mapping in a list below a key, in steps of four. -/
example (a b x y : Word) (ha : a.text = ['a']) (hb : b.text = ['b']) (hx : x.text = ['x'])
    (hy : y.text = ['y']) :
    Datum.source 4 true (.mapping (.last a (.list (.more (.word x)
      (.last (.mapping (.more b (.word y) (.last x (.list (.last (.word y)))))))))))
      = "a:\n    - x\n    - b: y\n      x:\n          - y\n".toList := by
  simp [Datum.source, Datum.text, Pairs.text, Items.text, Datum.leadUnder, newLine, ha, hb, hx, hy,
    List.replicate]

end YamlIndent
