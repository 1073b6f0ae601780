import YamlIndent.Proofs.Columns
import YamlIndent.Proofs.Shape
import YamlIndent.Proofs.Tree.Offset

/-!
# Columns of a source

Where a token stands in a source is a matter of its offset: its column is the number of characters
in front of it on its line, whatever they are. The reader never looks at more than two columns at a
time, that of an entry and that of a token behind it. What comes of this is a discipline for whole
trees: the entries of a block are in one column, and each line that a value goes on to begins
further in than its entry, but for what may stand right below a key.

## Main definitions

* `Node.columnIn`, `Node.StartsLineIn`: the column of a located node, and whether it starts a line.
* `Node.LinesUp`: what may stand in the column of the key that it belongs to.
* `Node.KeepsColumns`: the discipline, as a condition on one node and what is below it.

## Main results

* `Entries.columnIn_eq`: the entries of a block are in one column.
* `Block.column_le`, `Entries.column_le`: the lines of values and of blocks begin where they belong.
* `keepsColumns_of_parse`: a tree that is read keeps to the discipline.
-/

namespace YamlIndent

open Node

/-- The line of a source up to an offset. -/
def lineTo (source : Text) (offset : Nat) : Text :=
  lastLine (source.take offset)

namespace Node

/-- The column in a source of the token of a located node. -/
def columnIn (source : Text) (n : Node Nat) : Nat :=
  (lineTo source n.tag).length

/-- A scalar or an entry with nothing but blanks in front of it on its line. -/
def StartsLineIn (source : Text) (n : Node Nat) : Prop :=
  n.kind.standsInColumn ∧ (lineTo source n.tag).all isBlank

/-- What may stand in the column of a key: the entries of the sequence that is the value of the key,
and the scalar that is. -/
def LinesUp (value m : Node Nat) : Prop :=
  (value.kind = .sequence ∧ m ∈ value.children) ∨ (value.kind = .scalar ∧ m = value)

/-- A located node keeps to the columns of a source. -/
structure KeepsColumns (source : Text) (n : Node Nat) : Prop where
  /-- The entries of a block are in one column. -/
  entries : n.isCollection → ∃ column, ∀ e ∈ n.children, e.columnIn source = column
  /-- What starts a line in the value of a `-` stands further in. -/
  item : n.kind = .sequenceEntry → ∀ value ∈ n.children, ∀ m ∈ value.preorder,
    m.StartsLineIn source → n.columnIn source < m.columnIn source
  /-- What starts a line in the value of a key stands further in, or lines up with the key. -/
  pair : n.kind = .mappingEntry → ∀ value ∈ n.children.tail, ∀ m ∈ value.preorder,
    m.StartsLineIn source → n.columnIn source < m.columnIn source ∨
      (m.columnIn source = n.columnIn source ∧ value.LinesUp m)
  /-- A lead with a break ends in as many blanks as the column says. -/
  measured : n.kind.standsInColumn → hasBreak n.lead → indentOf n.lead = n.columnIn source

end Node

variable {source lead rest t after line : Text} {head : Head} {value : Block} {es : Entries}
  {start column k : Nat}

/-! ### Lines up to an offset -/

theorem lineTo_eq_lineAfter (h : t <+: source.drop start) :
    lineTo source (start + t.length) = (lineAfter (lineTo source start).reverse t).reverse := by
  rw [lineTo, List.take_add, (List.prefix_iff_eq_take.1 h).symm, lastLine, lineAfter_append, lineTo,
    lastLine, List.reverse_reverse]

theorem lineTo_of_hasBreak (h : t <+: source.drop start) (hb : hasBreak t) :
    lineTo source (start + t.length) = lastLine t := by
  rw [lineTo_eq_lineAfter h, lineAfter_of_hasBreak hb, List.reverse_reverse]

theorem lineTo_of_not_hasBreak (h : t <+: source.drop start) (hb : hasBreak t = false) :
    lineTo source (start + t.length) = lineTo source start ++ t := by
  rw [lineTo_eq_lineAfter h, lineAfter_of_not_hasBreak hb, List.reverse_append,
    List.reverse_reverse, List.reverse_reverse]

/-- A lead that ends in blanks is measured as its token stands. -/
theorem indentOf_eq_length_lineTo (h : lead <+: source.drop start) (hb : hasBreak lead)
    (hl : (lastLine lead).all isBlank) :
    indentOf lead = (lineTo source (start + lead.length)).length := by
  rw [lineTo_of_hasBreak h hb, indentOf, takeWhile_eq_self_of_all hl]

/-! ### Entries and values in a source -/

/-- The key of an entry that is located at an offset, if it has one. -/
def Head.keyAt (offset : Nat) : Head → List (Node Nat)
  | item => []
  | key text _ => [⟨offset, .scalar, [], text, []⟩]

/-- An entry is located at its head, and its value behind the head. -/
theorem Head.located_entry (start : Nat) (lead : Text) (head : Head) (value : Tree) :
    (head.entry lead value).located start =
      ⟨start + lead.length, head.entryKind, lead, (head.entry lead value).text,
        head.keyAt (start + lead.length) ++
          [value.located (start + lead.length + head.source.length)]⟩ := by
  cases head with
  | item => rfl
  | key text indicator =>
    have hkey : (scalarNode [] text).located (start + lead.length) =
        ⟨start + lead.length, .scalar, [], text, []⟩ := rfl
    have hwidth : (scalarNode [] text).width = text.length := by
      simp only [scalarNode, width, widthAll, List.length_nil, Nat.zero_add, Nat.add_zero]
    rw [entry, located, locatedAll, locatedAll, hkey, hwidth, source, List.length_append,
      Nat.add_assoc (start + lead.length)]
    rfl

theorem Block.located_entries (start : Nat) (es : Entries) :
    (Block.entries es).tree.located start =
      ⟨start, es.head.blockKind, [], [], locatedAll start es.trees⟩ := by
  rw [tree, located_of_ne_mappingEntry]
  · rfl
  · cases es.head <;> exact Kind.noConfusion

theorem Block.width_entry (lead : Text) (head : Head) (value : Block) :
    (head.entry lead value.tree).width = (lead ++ (head.source ++ value.written)).length :=
  width_of_print _ (head.print_entry lead value.print_tree)

/-- A value is written at an offset, behind the head of the entry at a column that it is inside
of. -/
structure Block.Behind (source : Text) (start : Nat) (head : Head) (column : Nat) (b : Block) :
    Prop where
  written : b.written <+: source.drop start
  spelled : ∃ after, b.Spelled after
  inside : b.Inside head column
  /-- The head is on the line in front of the value. -/
  begun : (lineTo source start).all isBlank = false
  item : head = .item → (lineTo source start).length = column + 1

/-- An entry is written at an offset, with its head at a column. -/
structure Head.EntryAt (source : Text) (start column : Nat) (lead : Text) (head : Head)
    (value : Block) : Prop where
  written : lead ++ (head.source ++ value.written) <+: source.drop start
  spelled : ∃ rest, head.SpelledAt lead rest
  value_spelled : ∃ after, value.Spelled after
  inside : value.Inside head column
  column_eq : (lineTo source (start + lead.length)).length = column

/-- Entries are written at an offset, nested at the column at which the first of them is. -/
structure Entries.At (source : Text) (start column : Nat) (es : Entries) : Prop where
  written : es.written <+: source.drop start
  spelled : ∃ after, es.Spelled after
  nested : es.Nested column
  column_eq : (lineTo source (start + es.lead.length)).length = column

theorem Entries.At.last (h : (Entries.last lead head value).At source start column) :
    head.EntryAt source start column lead value := by
  obtain ⟨hw, ⟨after, hs⟩, hn, hc⟩ := h
  exact ⟨hw, ⟨_, hs.1⟩, ⟨_, hs.2.2⟩, hn, hc⟩

/-- The first of some entries and those after it are in one column. -/
theorem Entries.At.more {others : Entries}
    (h : (Entries.more lead head value others).At source start column) :
    head.EntryAt source start column lead value ∧
      others.At source (start + (lead ++ (head.source ++ value.written)).length) column := by
  obtain ⟨hw, ⟨after, hs⟩, hn, hc⟩ := h
  obtain ⟨hin, hstands, -, hnested⟩ := hn
  have hsplit : (Entries.more lead head value others).written =
      (lead ++ (head.source ++ value.written)) ++ others.written := by
    rw [Entries.written]
    simp only [List.append_assoc]
  rw [hsplit] at hw
  have hothers := prefix_drop_right hw
  refine ⟨⟨prefix_drop_left hw, ⟨_, hs.1⟩, ⟨_, hs.2.2.1⟩, hin, hc⟩, hothers, ⟨_, hs.2.2.2⟩,
    hnested, ?_⟩
  rw [others.written_eq] at hothers
  rw [lineTo_of_hasBreak (prefix_drop_left hothers) hstands.1, hstands.2, List.length_replicate]

/-- A head does not consist of blanks. -/
theorem Head.SpelledAt.all_isBlank_source (h : head.SpelledAt lead rest) :
    head.source.all isBlank = false := by
  have htoken := h.1.1.startsToken h.source_append_ne_nil
  cases hsrc : head.source with
  | nil => exact absurd hsrc (source_ne_nil h.2)
  | cons c t =>
    rw [hsrc, List.cons_append, startsToken, Bool.not_eq_true', Bool.or_eq_false_iff,
      Bool.or_eq_false_iff] at htoken
    rw [List.all_cons, htoken.1.1, Bool.false_and]

/-- The value of an entry is behind its head. -/
theorem Head.EntryAt.behind (h : head.EntryAt source start column lead value) :
    value.Behind source (start + lead.length + head.source.length) head column := by
  obtain ⟨hw, ⟨rest, hs⟩, hv, hin, hc⟩ := h
  have hhead := prefix_drop_right hw
  have hline := lineTo_of_not_hasBreak (prefix_drop_left hhead) (hasBreak_source hs.2)
  refine ⟨prefix_drop_right hhead, hv, hin, ?_, ?_⟩
  · rw [hline, List.all_append, hs.all_isBlank_source, Bool.and_false]
  · rintro rfl
    rw [hline, List.length_append, hc]
    rfl

theorem Head.Holds.le_innerColumn {kind : Kind} (h : head.Holds kind column lead) :
    column ≤ innerColumn column lead := by
  rw [Head.Holds] at h
  rw [innerColumn]
  split
  · rename_i hb
    rw [if_pos hb] at h
    rcases h.2 with hlt | ⟨heq, -, -⟩ <;> omega
  · omega

/-- Only a sequence may open in the column of an entry, and only in that of a key. -/
theorem Head.Holds.of_innerColumn_eq {head' : Head} (h : head.Holds head'.blockKind column lead)
    (he : innerColumn column lead = column) :
    head.blockKind = .mapping ∧ head'.blockKind = .sequence := by
  rw [Head.Holds] at h
  rw [innerColumn] at he
  by_cases hb : hasBreak lead
  · rw [if_pos hb] at h he
    rcases h.2 with hlt | ⟨-, hkey, hkind⟩
    · omega
    · refine ⟨hkey, ?_⟩
      cases head' with
      | item => rfl
      | key => exact absurd rfl hkind
  · rw [if_neg hb] at he
    omega

/-- The entries of a value are in the column where it opens. -/
theorem Block.Behind.entries (h : (Block.entries es).Behind source start head column) :
    es.At source start (innerColumn column es.lead) := by
  obtain ⟨hw, hs, hin, -, hitem⟩ := h
  rw [Block.Inside, Head.Holds] at hin
  refine ⟨hw, hs, hin.2, ?_⟩
  rw [Block.written, es.written_eq] at hw
  have hlead := prefix_drop_left hw
  rw [innerColumn]
  by_cases hb : hasBreak es.lead
  · rw [if_pos hb] at hin
    rw [if_pos hb, lineTo_of_hasBreak hlead hb, hin.1.1.2, List.length_replicate]
  · rw [if_neg hb] at hin
    have hhead := hin.1.resolve_left (blockKind_ne_scalar es.head)
    rw [if_neg hb, lineTo_of_not_hasBreak hlead (eq_false_of_ne_true hb), List.length_append,
      hitem hhead]

/-! ### The column of a block -/

theorem Head.EntryAt.columnIn_eq (h : head.EntryAt source start column lead value) :
    ((head.entry lead value.tree).located start).columnIn source = column := by
  rw [Node.columnIn, tag_located, Head.lead_entry]
  exact h.column_eq

/-- The entries of a block are in one column. -/
theorem Entries.columnIn_eq {source : Text} {start column : Nat} : (es : Entries) →
    es.At source start column → ∀ e ∈ locatedAll start es.trees, e.columnIn source = column
  | .last lead head value, h => by
    rw [trees, locatedAll, locatedAll]
    exact List.forall_mem_singleton.2 h.last.columnIn_eq
  | .more lead head value others, h => by
    rw [trees, locatedAll, value.width_entry]
    exact List.forall_mem_cons.2 ⟨h.more.1.columnIn_eq, others.columnIn_eq h.more.2⟩

/-! ### Lines of values and blocks -/

theorem not_standsInColumn_blockKind (head : Head) : ¬ head.blockKind.standsInColumn := by
  cases head <;> rintro (h | h | h) <;> cases h

/-- The lines of an entry begin further in than the entry, if those of its value do or the entry has
a key. -/
theorem Head.EntryAt.column_le (h : head.EntryAt source start column lead value)
    (hvalue : ∀ m ∈ (value.tree.located (start + lead.length + head.source.length)).preorder,
      m.StartsLineIn source → column < m.columnIn source ∨
        (m.columnIn source = column ∧ head.blockKind = .mapping)) :
    ∀ m ∈ ((head.entry lead value.tree).located start).preorder, m.StartsLineIn source →
      column < m.columnIn source ∨ (m.columnIn source = column ∧ (head.blockKind = .sequence →
        m = (head.entry lead value.tree).located start)) := by
  have hcolumn := h.columnIn_eq
  rw [head.located_entry, preorder, preorderAll_append, preorderAll, preorderAll, List.append_nil]
  rw [head.located_entry] at hcolumn
  refine List.forall_mem_cons.2 ⟨fun _ => .inr ⟨hcolumn, fun _ => rfl⟩,
    List.forall_mem_append.2 ⟨fun m hm _ => ?_, fun m hm hs => ?_⟩⟩
  · cases head with
    | item => exact absurd hm List.not_mem_nil
    | key text indicator =>
      rw [List.mem_singleton.1 hm]
      exact .inr ⟨h.column_eq, fun hk => Kind.noConfusion hk⟩
  · refine (hvalue m hm hs).imp_right fun hm => ⟨hm.1, fun hk => ?_⟩
    rw [hm.2] at hk
    cases hk

mutual

/-- The lines of a value begin further in than its entry, or line up with the key of the entry. -/
theorem Block.column_le {source : Text} {start column : Nat} {head : Head} : (b : Block) →
    b.Behind source start head column → ∀ m ∈ (b.tree.located start).preorder,
    m.StartsLineIn source → column < m.columnIn source ∨ (m.columnIn source = column ∧
      head.blockKind = .mapping ∧ (b.tree.located start).LinesUp m)
  | .empty, h => by
    refine List.forall_mem_singleton.2 fun hs => ?_
    have hbegun : (lineTo source start).all isBlank := hs.2
    rw [h.begun] at hbegun
    cases hbegun
  | .scalar lead text, h => by
    obtain ⟨hw, -, hin, hbegun, -⟩ := h
    rw [Block.Inside, Head.Holds] at hin
    have hlead := prefix_drop_left hw
    refine List.forall_mem_singleton.2 fun hs => ?_
    by_cases hb : hasBreak lead
    · have hcolumn : (lineTo source (start + lead.length)).length = indentOf lead := by
        rw [if_pos hb] at hin
        rw [lineTo_of_hasBreak hlead hb, hin.1.2, List.length_replicate]
      rw [if_pos hb] at hin
      exact hin.2.imp (fun hlt => Nat.lt_of_lt_of_eq hlt hcolumn.symm)
        fun ⟨he, hk, _⟩ => ⟨hcolumn.trans he, hk, .inr ⟨rfl, rfl⟩⟩
    · -- On the line of its head, a scalar starts no line.
      have hline : (lineTo source (start + lead.length)).all isBlank := hs.2
      rw [lineTo_of_not_hasBreak hlead (eq_false_of_ne_true hb), List.all_append, hbegun] at hline
      cases hline
  | .entries es, h => by
    have hes := Entries.column_le es h.entries
    have hin := h.inside
    rw [Block.Inside] at hin
    have hle := hin.1.le_innerColumn
    rw [Block.located_entries, preorder]
    refine List.forall_mem_cons.2 ⟨fun hs => absurd hs.1 (not_standsInColumn_blockKind _),
      fun m hm hs => ?_⟩
    rcases hes m hm hs with hlt | ⟨heq, hentry⟩
    · exact .inl (Nat.lt_of_le_of_lt hle hlt)
    · rw [heq]
      rcases Nat.lt_or_eq_of_le hle with hlt | hcolumn
      · exact .inl hlt
      · obtain ⟨hkey, hsequence⟩ := hin.1.of_innerColumn_eq hcolumn.symm
        exact .inr ⟨hcolumn.symm, hkey, .inl ⟨hsequence, hentry hsequence⟩⟩

/-- The lines of a block begin in its column, where the entries of a sequence are, or further in. -/
theorem Entries.column_le {source : Text} {start column : Nat} : (es : Entries) →
    es.At source start column → ∀ m ∈ preorderAll (locatedAll start es.trees),
    m.StartsLineIn source → column < m.columnIn source ∨ (m.columnIn source = column ∧
      (es.head.blockKind = .sequence → m ∈ locatedAll start es.trees))
  | .last lead head value, h => by
    have hvalue := Block.column_le value h.last.behind
    have hentry := h.last.column_le fun m hm hs =>
      (hvalue m hm hs).imp_right fun hm => ⟨hm.1, hm.2.1⟩
    rw [Entries.trees, locatedAll, locatedAll, preorderAll, preorderAll, List.append_nil]
    intro m hm hs
    exact (hentry m hm hs).imp_right fun ⟨he, hm⟩ => ⟨he, fun hk => List.mem_singleton.2 (hm hk)⟩
  | .more lead head value others, h => by
    obtain ⟨hat, hothers⟩ := h.more
    have hvalue := Block.column_le value hat.behind
    have hentry := hat.column_le fun m hm hs =>
      (hvalue m hm hs).imp_right fun hm => ⟨hm.1, hm.2.1⟩
    have ih := Entries.column_le others hothers
    have hkind := h.nested.2.2.1
    rw [Entries.trees, locatedAll, preorderAll, value.width_entry]
    refine List.forall_mem_append.2 ⟨fun m hm hs => ?_, fun m hm hs => ?_⟩
    · exact (hentry m hm hs).imp_right fun ⟨he, hm⟩ =>
        ⟨he, fun hk => List.mem_cons.2 (.inl (hm hk))⟩
    · exact (ih m hm hs).imp_right fun ⟨he, hm⟩ =>
        ⟨he, fun hk => List.mem_cons_of_mem _ (hm (hkind.trans hk))⟩

end

/-! ### The discipline -/

/-- A node that is no entry keeps to the columns of a source if the nodes below it are in one column
wherever they are entries, and its lead is measured as it stands. -/
theorem keepsColumns_of_ne_entry {n : Node Nat} (hpair : n.kind ≠ .mappingEntry)
    (hitem : n.kind ≠ .sequenceEntry)
    (hentries : n.isCollection → ∃ column, ∀ e ∈ n.children, e.columnIn source = column)
    (hlead : n.kind = .scalar → hasBreak n.lead → indentOf n.lead = n.columnIn source) :
    n.KeepsColumns source where
  entries := hentries
  item h := absurd h hitem
  pair h := absurd h hpair
  measured h := hlead (h.resolve_right fun h => h.elim hpair hitem)

theorem keepsColumns_scalar (text : Text) (h : lead <+: source.drop start)
    (hl : hasBreak lead → (lastLine lead).all isBlank) :
    (⟨start + lead.length, .scalar, lead, text, []⟩ : Node Nat).KeepsColumns source :=
  keepsColumns_of_ne_entry Kind.noConfusion Kind.noConfusion (fun h => absurd h Bool.false_ne_true)
    fun _ hb => indentOf_eq_length_lineTo h hb (hl hb)

theorem keepsColumns_entries (h : es.At source start column) :
    (⟨start, es.head.blockKind, [], [], locatedAll start es.trees⟩ : Node Nat).KeepsColumns
      source := by
  have hentries := es.columnIn_eq h
  refine keepsColumns_of_ne_entry ?_ ?_ (fun _ => ⟨column, hentries⟩) fun hk => ?_
  · cases es.head <;> exact Kind.noConfusion
  · cases es.head <;> exact Kind.noConfusion
  · exact absurd hk (blockKind_ne_scalar es.head)

/-- An entry keeps to the columns of a source with all that is below it, if its value does. -/
theorem Head.EntryAt.keepsColumns (h : head.EntryAt source start column lead value)
    (hvalue : ∀ n ∈ (value.tree.located (start + lead.length + head.source.length)).preorder,
      n.KeepsColumns source) :
    ∀ n ∈ ((head.entry lead value.tree).located start).preorder, n.KeepsColumns source := by
  have hcolumn := h.columnIn_eq
  have hlines := value.column_le h.behind
  obtain ⟨rest, hs⟩ := h.spelled
  have hlead := prefix_drop_left h.written
  have hblank := hs.1.1.all_isBlank_lastLine hs.source_append_ne_nil
  rw [head.located_entry, preorder, preorderAll_append, preorderAll, preorderAll, List.append_nil]
  rw [head.located_entry] at hcolumn
  refine List.forall_mem_cons.2 ⟨⟨fun hc => ?_, fun hk => ?_, fun hk => ?_, fun _ hb => ?_⟩,
    List.forall_mem_append.2 ⟨fun n hn => ?_, hvalue⟩⟩
  · cases head <;> exact absurd hc Bool.false_ne_true
  · cases head with
    | key => cases hk
    | item =>
      rw [hcolumn]
      exact List.forall_mem_singleton.2 fun m hm hs =>
        (hlines m hm hs).resolve_right fun h => Kind.noConfusion h.2.1
  · cases head with
    | item => cases hk
    | key =>
      rw [hcolumn]
      exact List.forall_mem_singleton.2 fun m hm hs =>
        (hlines m hm hs).imp_right fun h => ⟨h.1, h.2.2⟩
  · exact indentOf_eq_length_lineTo hlead hb hblank
  · cases head with
    | item => exact absurd hn List.not_mem_nil
    | key text indicator =>
      rw [List.mem_singleton.1 hn]
      exact keepsColumns_scalar text (List.nil_prefix) fun hb => absurd hb Bool.false_ne_true

mutual

/-- The nodes of a value keep to the columns of the source. -/
theorem Block.keepsColumns {source : Text} {start column : Nat} {head : Head} : (b : Block) →
    b.Behind source start head column → ∀ n ∈ (b.tree.located start).preorder,
    n.KeepsColumns source
  | .empty, _ => List.forall_mem_singleton.2
    (keepsColumns_scalar [] List.nil_prefix fun hb => absurd hb Bool.false_ne_true)
  | .scalar lead text, h => by
    obtain ⟨after, hne, hi, -⟩ := h.spelled
    exact List.forall_mem_singleton.2 (keepsColumns_scalar text (prefix_drop_left h.written)
      fun _ => hi.1.all_isBlank_lastLine (List.append_ne_nil_of_left_ne_nil hne after))
  | .entries es, h => by
    rw [Block.located_entries, preorder]
    exact List.forall_mem_cons.2 ⟨keepsColumns_entries h.entries, Entries.keepsColumns es h.entries⟩

/-- The nodes of entries keep to the columns of the source. -/
theorem Entries.keepsColumns {source : Text} {start column : Nat} : (es : Entries) →
    es.At source start column → ∀ n ∈ preorderAll (locatedAll start es.trees),
    n.KeepsColumns source
  | .last lead head value, h => by
    rw [Entries.trees, locatedAll, locatedAll, preorderAll, preorderAll, List.append_nil]
    exact h.last.keepsColumns (Block.keepsColumns value h.last.behind)
  | .more lead head value others, h => by
    obtain ⟨hat, hothers⟩ := h.more
    rw [Entries.trees, locatedAll, preorderAll, value.width_entry]
    exact List.forall_mem_append.2 ⟨hat.keepsColumns (Block.keepsColumns value hat.behind),
      Entries.keepsColumns others hothers⟩

end

/-! ### Documents -/

/-- Streams, documents and their ends are in no column. -/
theorem keepsColumns_frame {n : Node Nat}
    (hk : n.kind = .stream ∨ n.kind = .document ∨ n.kind = .documentEnd) :
    n.KeepsColumns source := by
  obtain ⟨tag, kind, lead, text, children⟩ := n
  have hfree : kind.isCollection = false ∧ kind ≠ .mappingEntry ∧ kind ≠ .sequenceEntry ∧
      kind ≠ .scalar := by
    rcases hk with rfl | rfl | rfl <;> decide
  obtain ⟨hcollection, hpair, hitem, hscalar⟩ := hfree
  refine keepsColumns_of_ne_entry hpair hitem (fun hc => ?_) fun hs => absurd hs hscalar
  rw [Node.isCollection, hcollection] at hc
  cases hc

/-- The block of a document keeps to the columns of the source that it is written in. -/
theorem Block.keepsColumns_of_opens (b : Block) (hw : b.written <+: source.drop start)
    (hs : b.Spelled after) (ho : b.Opens (lineTo source start).reverse after) :
    ∀ n ∈ preorderAll (locatedAll start b.children), n.KeepsColumns source := by
  cases b with
  | empty => exact fun _ hn => absurd hn List.not_mem_nil
  | scalar lead text =>
    rw [Spelled] at hs
    obtain ⟨hne, hi, -⟩ := hs
    exact List.forall_mem_singleton.2 (keepsColumns_scalar text (prefix_drop_left hw)
      fun _ => hi.1.all_isBlank_lastLine (List.append_ne_nil_of_left_ne_nil hne after))
  | entries es =>
    rw [Spelled] at hs
    rw [written] at hw
    have hlead : es.lead <+: source.drop start := by
      rw [es.written_eq] at hw
      exact prefix_drop_left hw
    have hcolumn : (lineTo source (start + es.lead.length)).length =
        (lineAfter (lineTo source start).reverse es.lead).length := by
      rw [lineTo_eq_lineAfter hlead, List.length_reverse]
    have hat : es.At source start _ := ⟨hw, ⟨_, hs⟩, ho.2.2, hcolumn⟩
    rw [children, locatedAll, locatedAll, preorderAll, preorderAll, List.append_nil,
      located_entries, preorder]
    exact List.forall_mem_cons.2 ⟨keepsColumns_entries hat, es.keepsColumns hat⟩

/-- A document keeps to the columns of the source that it is laid in. -/
theorem Document.Laid.keepsColumns {d : Document} (h : d.Laid (lineTo source start).reverse after)
    (hw : d.written <+: source.drop start) :
    ∀ n ∈ (d.tree.located start).preorder, n.KeepsColumns source := by
  rw [Document.written] at hw
  have hmark := prefix_drop_right hw
  have hblock := prefix_drop_right hmark
  have hline : (d.blockLine (lineTo source start).reverse) =
      (lineTo source (start + d.lead.length + d.mark.length)).reverse := by
    rw [lineTo_eq_lineAfter (prefix_drop_left hmark), lineTo_eq_lineAfter (prefix_drop_left hw),
      List.reverse_reverse, List.reverse_reverse, blockLine]
  have hopens := h.opens
  rw [hline] at hopens
  rw [tree, located_of_ne_mappingEntry Kind.noConfusion, locatedAll_append, preorder,
    preorderAll_append]
  exact List.forall_mem_cons.2 ⟨keepsColumns_frame (.inr (.inl rfl)), List.forall_mem_append.2
    ⟨d.block.keepsColumns_of_opens (prefix_drop_left hblock) h.spelled hopens,
      List.forall_mem_singleton.2 (keepsColumns_frame (.inr (.inr rfl)))⟩⟩

theorem LaidAll.keepsColumns {source : Text} {start : Nat} : {ds : List Document} →
    LaidAll (lineTo source start).reverse ds → writtenAll ds <+: source.drop start →
    ∀ n ∈ preorderAll (locatedAll start (ds.map Document.tree)), n.KeepsColumns source
  | [], _, _ => fun _ hn => absurd hn List.not_mem_nil
  | d :: ds, h, hw => by
    have hwritten := prefix_drop_left hw
    have hline : lineAfter (lineTo source start).reverse d.written =
        (lineTo source (start + d.written.length)).reverse := by
      rw [lineTo_eq_lineAfter hwritten, List.reverse_reverse]
    have hds := h.2.2
    rw [hline] at hds
    rw [List.map_cons, locatedAll, preorderAll, width_of_print _ d.print_tree]
    exact List.forall_mem_append.2 ⟨h.1.keepsColumns hwritten,
      LaidAll.keepsColumns hds (prefix_drop_right hw)⟩

/-- In the source of a tree, where each node stands at its offset, the entries of a block are in one
column; what starts a line in the value of an entry is further in than the entry, or, as the entries
of a sequence or as a scalar, in line with the key whose value this is; and a lead with a break
measures the column of its node. -/
theorem keepsColumns_of_parse {source : Text} {t : Tree} (h : parse source = .ok t) :
    ∀ n ∈ (t.located 0).preorder, n.KeepsColumns source ∧
      ∃ body, n.print = .ok (n.lead ++ body) ∧ body <+: source.drop n.tag := by
  have hsource : source <+: source.drop 0 := List.prefix_refl source
  have hstands := stands_located t (print_of_parse h) hsource
  obtain ⟨ds, hds, rfl⟩ := parse_eq_ok_iff.1 h
  have hall : ∀ n ∈ preorderAll (locatedAll 0 (ds.map Document.tree)), n.KeepsColumns source :=
    LaidAll.keepsColumns hds.laid (by rw [hds.written_eq]; exact List.prefix_refl source)
  have hkeeps : ∀ n ∈ ((streamTree ds).located 0).preorder, n.KeepsColumns source := by
    rw [streamTree, located_of_ne_mappingEntry Kind.noConfusion, preorder]
    exact List.forall_mem_cons.2 ⟨keepsColumns_frame (.inl rfl), hall⟩
  exact fun n hn => ⟨hkeeps n hn, hstands n hn⟩

/-- A source with compact entries, and a sequence and a scalar in line with their keys. -/
theorem keepsColumns_of_parse_compact :
    ∃ t, parse "- - a:\n    - b\n    c:\n     # d\n    e\n  - f:\n".toList = .ok t ∧
      ∀ n ∈ (t.located 0).preorder,
        n.KeepsColumns "- - a:\n    - b\n    c:\n     # d\n    e\n  - f:\n".toList ∧
        ∃ body, n.print = .ok (n.lead ++ body) ∧
          body <+: "- - a:\n    - b\n    c:\n     # d\n    e\n  - f:\n".toList.drop n.tag := by
  have h : (parse "- - a:\n    - b\n    c:\n     # d\n    e\n  - f:\n".toList).isOk := by
    decide +kernel
  obtain ⟨t, ht⟩ := exists_eq_ok_of_isOk h
  exact ⟨t, ht, keepsColumns_of_parse ht⟩

end YamlIndent
