import YamlIndent.Proofs.Lead
import YamlIndent.Proofs.Source.Token

/-!
# Blocks as syntax

A block is nothing, a scalar, or entries; an entry has a lead, a head and a value, and the value is
a block again. What makes such syntax a part of a source falls in two: how it is spelled, which asks
of each token that it is read off the text it begins, and how it is nested, which asks of each lead
that it puts its token at a column that belongs there. The one does not look at columns, and the
other looks at nothing else.

## Main definitions

* `Block`, `Entries`: the syntax, with its text (`written`) and its tree (`tree`, `trees`).
* `Block.Spelled`, `Entries.Spelled`: tokens that are read where they are written.
* `Head.Holds`, `Block.Inside`, `Entries.Nested`: columns that belong where they are.
* `Ends`, `EndsBlock`, `EndsValue`: a text in front of which a block or a value ends.

## Main results

* `EndsBlock.endsValue`, `EndsValue.endsBlock`: what ends a block ends the last value of it, and
  what ends a value ends the block that is this value.
* `endsValue_sibling`: a value ends in front of the next entry.
-/

namespace YamlIndent

mutual

/-- A block, or the place of one that is not there. -/
inductive Block where
  | empty
  | scalar (lead text : Text)
  | entries (es : Entries)

/-- The entries of a mapping or a sequence, each with its lead, its head and its value. -/
inductive Entries where
  | last (lead : Text) (head : Head) (value : Block)
  | more (lead : Text) (head : Head) (value : Block) (others : Entries)

end

namespace Entries

/-- The lead of the first entry. -/
def lead : Entries → Text
  | last lead _ _ | more lead _ _ _ => lead

/-- The head of the first entry. -/
def head : Entries → Head
  | last _ head _ | more _ head _ _ => head

end Entries

/-! ### Text and tree -/

/-- The kind of the node of an entry. -/
def Head.entryKind : Head → Kind
  | item => .sequenceEntry
  | key .. => .mappingEntry

mutual

/-- The text of a block. -/
def Block.written : Block → Text
  | .empty => []
  | .scalar lead text => lead ++ text
  | .entries es => es.written

/-- The text of entries. -/
def Entries.written : Entries → Text
  | .last lead head value => lead ++ (head.source ++ value.written)
  | .more lead head value others => lead ++ (head.source ++ (value.written ++ others.written))

end

mutual

/-- The tree of a block. -/
def Block.tree : Block → Tree
  | .empty => Head.scalarNode [] []
  | .scalar lead text => Head.scalarNode lead text
  | .entries es => ⟨(), es.head.blockKind, [], [], es.trees⟩

/-- The trees of entries. -/
def Entries.trees : Entries → List Tree
  | .last lead head value => [head.entry lead value.tree]
  | .more lead head value others => head.entry lead value.tree :: others.trees

end

namespace Entries

/-- The text behind the head of the first entry. -/
def tail : Entries → Text
  | last _ _ value => value.written
  | more _ _ value others => value.written ++ others.written

theorem written_eq : (es : Entries) → es.written = es.lead ++ (es.head.source ++ es.tail)
  | last .. | more .. => by rw [written]; rfl

theorem exists_trees_cons (es : Entries) :
    ∃ (value : Block) (ts : List Tree), es.trees = es.head.entry es.lead value.tree :: ts := by
  cases es with
  | last lead head value => exact ⟨value, [], by rw [trees]; rfl⟩
  | more lead head value others => exact ⟨value, others.trees, by rw [trees]; rfl⟩

end Entries

namespace Block

/-- The lead of the first token of a block. -/
def lead : Block → Text
  | empty => []
  | scalar lead _ => lead
  | entries es => es.lead

/-- The kind of the tree of a block. -/
def kind : Block → Kind
  | empty | scalar .. => .scalar
  | entries es => es.head.blockKind

/-- The trees that a block adds to the children of its document. -/
def children : Block → List Tree
  | empty => []
  | scalar lead text => [(scalar lead text).tree]
  | entries es => [(entries es).tree]

theorem children_eq_nil_iff : (b : Block) → (b.children = [] ↔ b = .empty)
  | empty => by simp [children]
  | scalar .. | entries _ => by simp [children]

/-- A block with no entries is read as a scalar, which no head begins. -/
def NoEntry (after : Text) : Block → Prop
  | scalar _ text => headOf? (text ++ after) = none
  | empty | entries _ => True

end Block

/-! ### Spelling -/

/-- A gap in front of a token, which at the start of a line is no mark of a document. -/
def Introduces (lead rest : Text) : Prop :=
  GapBefore lead rest ∧ (StandsAt lead 0 → startsMark rest = false)

/-- A head is read in front of some text, behind its lead. -/
def Head.SpelledAt (lead : Text) (head : Head) (rest : Text) : Prop :=
  Introduces lead (head.source ++ rest) ∧ headOf? (head.source ++ rest) = some (head, rest)

theorem Head.SpelledAt.source_append_ne_nil {lead rest : Text} {head : Head}
    (h : head.SpelledAt lead rest) : head.source ++ rest ≠ [] :=
  List.append_ne_nil_of_left_ne_nil (source_ne_nil h.2) rest

/-- A scalar is the value of a key on its line whatever it is; elsewhere only if it is no entry. -/
def Head.Admits (head : Head) (value : Block) (after : Text) : Prop :=
  head.blockKind = .sequence ∨ hasBreak value.lead → value.NoEntry after

mutual

/-- The tokens of a block are read where they are written, with some text after the block. -/
def Block.Spelled (after : Text) : Block → Prop
  | .empty => True
  | .scalar lead text =>
    text ≠ [] ∧ Introduces lead (text ++ after) ∧ scalarOf? (text ++ after) = some (text, after)
  | .entries es => es.Spelled after

/-- The tokens of entries are read where they are written, with some text after the entries. -/
def Entries.Spelled (after : Text) : Entries → Prop
  | .last lead head value =>
    head.SpelledAt lead (value.written ++ after) ∧ head.Admits value after ∧ value.Spelled after
  | .more lead head value others =>
    head.SpelledAt lead (value.written ++ (others.written ++ after)) ∧
      head.Admits value (others.written ++ after) ∧ value.Spelled (others.written ++ after) ∧
      others.Spelled after

end

/-! ### Nesting -/

/-- A value of some kind may stand at the column `inner` of a later line, if it is that of an entry
at `column`: further in, or in line with the key it belongs to. -/
def Head.Owns (head : Head) (column inner : Nat) (kind : Kind) : Prop :=
  column < inner ∨ (inner = column ∧ head.blockKind = .mapping ∧ kind ≠ .mapping)

/-- A value of some kind may stand behind a lead, as that of an entry at `column`. Only a `-` has a
block of entries on its line. -/
def Head.Holds (head : Head) (kind : Kind) (column : Nat) (lead : Text) : Prop :=
  if hasBreak lead then StandsAt lead (indentOf lead) ∧ head.Owns column (indentOf lead) kind
  else kind = .scalar ∨ head = .item

/-- The column of a value behind a lead that follows the `-` at `column` or starts a line. -/
def innerColumn (column : Nat) (lead : Text) : Nat :=
  if hasBreak lead then indentOf lead else column + 1 + lead.length

mutual

/-- A value stands inside an entry at `column`. -/
def Block.Inside (head : Head) (column : Nat) : Block → Prop
  | .empty => True
  | .scalar lead _ => head.Holds .scalar column lead
  | .entries es =>
    head.Holds es.head.blockKind column es.lead ∧ es.Nested (innerColumn column es.lead)

/-- The values of entries at `column` stand inside of them, and the entries after the first stand at
that column, and are of one kind. -/
def Entries.Nested (column : Nat) : Entries → Prop
  | .last _ head value => value.Inside head column
  | .more _ head value others =>
    value.Inside head column ∧ StandsAt others.lead column ∧
      others.head.blockKind = head.blockKind ∧ others.Nested column

end

/-! ### Ends -/

/-- A text begins with an entry of a kind of block. -/
def beginsWith (kind : Kind) (t : Text) : Prop :=
  ∃ head r, headOf? t = some (head, r) ∧ head.blockKind = kind

/-- What stands at `column` ends in front of a text: no token is left there, or a mark of a document
is next, or a token further out, or one at this very column that may stand there. -/
def Ends (may : Text → Prop) (column : Nat) (after : Text) : Prop :=
  ∃ gap rest, after = gap ++ rest ∧ GapBefore gap rest ∧
    (rest = [] ∨ (StandsAt gap 0 ∧ startsMark rest) ∨ ∃ k, StandsAt gap k ∧
      (k < column ∨ (k = column ∧ (k = 0 → startsMark rest = false) ∧ may rest)))

/-- A block of some kind ends in front of a text. A sequence ends in front of a key at its column.
-/
def EndsBlock (kind : Kind) : Nat → Text → Prop :=
  Ends fun rest => kind ≠ .mapping ∧ beginsWith .mapping rest

/-- A value of an entry ends in front of a text. The value of an item ends in front of all that is
at the column of the item, and the value of a key in front of a key. -/
def EndsValue (kind : Kind) : Nat → Text → Prop :=
  Ends fun rest => kind = .sequence ∨ beginsWith .mapping rest

theorem Ends.imp {may may' : Text → Prop} {c d : Nat} {after : Text} (h : Ends may c after)
    (hc : c ≤ d) (hm : c = d → ∀ rest, may rest → may' rest) : Ends may' d after := by
  obtain ⟨gap, rest, he, hg, hr⟩ := h
  refine ⟨gap, rest, he, hg, hr.imp_right fun hr => hr.imp_right fun ⟨k, hk, hr⟩ => ⟨k, hk, ?_⟩⟩
  rcases hr with hlt | ⟨rfl, hmark, hmay⟩
  · exact .inl (Nat.lt_of_lt_of_le hlt hc)
  · rcases Nat.lt_or_eq_of_le hc with hlt | heq
    · exact .inl hlt
    · exact .inr ⟨heq, hmark, hm heq rest hmay⟩

theorem blockKind_ne_scalar (head : Head) : head.blockKind ≠ .scalar := by
  cases head <;> exact Kind.noConfusion

/-- What ends a block ends the value of its last entry. -/
theorem EndsBlock.endsValue {kind : Kind} {column : Nat} {after : Text}
    (h : EndsBlock kind column after) : EndsValue kind column after :=
  h.imp (Nat.le_refl _) fun _ _ hm => .inr hm.2

/-- What ends the value of an entry ends the block that is this value. -/
theorem EndsValue.endsBlock {head : Head} {kind : Kind} {column : Nat} {lead after : Text}
    (h : EndsValue head.blockKind column after) (hh : head.Holds kind column lead) :
    EndsBlock kind (innerColumn column lead) after := by
  rw [Head.Holds] at hh
  rw [innerColumn]
  by_cases hb : hasBreak lead
  · rw [if_pos hb] at hh ⊢
    rcases hh.2 with hlt | ⟨he, hm, hk⟩
    · exact h.imp (Nat.le_of_lt hlt) fun he => absurd he (Nat.ne_of_lt hlt)
    · rw [he]
      refine h.imp (Nat.le_refl _) fun _ rest hr => ⟨hk, hr.resolve_left fun hs => ?_⟩
      rw [hm] at hs
      cases hs
  · rw [if_neg hb]
    exact h.imp (by omega) fun he => by omega

/-- The value of an entry ends in front of the next entry. -/
theorem endsValue_sibling {kind : Kind} {column : Nat} {lead rest : Text} {head : Head}
    (hs : head.SpelledAt lead rest) (ha : StandsAt lead column) (hk : head.blockKind = kind) :
    EndsValue kind column (lead ++ (head.source ++ rest)) := by
  refine ⟨lead, _, rfl, hs.1.1, .inr (.inr ⟨column, ha, .inr ⟨rfl, ?_, ?_⟩⟩)⟩
  · rintro rfl
    exact hs.1.2 ha
  · cases hk
    cases head with
    | item => exact .inl rfl
    | key text indicator => exact .inr ⟨_, _, hs.2, rfl⟩

theorem Entries.endsValue {kind : Kind} {column : Nat} {after : Text} {es : Entries}
    (hs : es.Spelled after) (ha : StandsAt es.lead column) (hk : es.head.blockKind = kind) :
    EndsValue kind column (es.written ++ after) := by
  rw [es.written_eq, List.append_assoc, List.append_assoc]
  cases es with
  | last lead head value =>
    rw [Spelled] at hs
    exact endsValue_sibling hs.1 ha hk
  | more lead head value others =>
    rw [Spelled] at hs
    rw [tail, List.append_assoc]
    exact endsValue_sibling hs.1 ha hk

end YamlIndent
