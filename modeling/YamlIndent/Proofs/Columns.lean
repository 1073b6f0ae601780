import YamlIndent.Proofs.Formatting

/-!
# Columns from the top down

The pass looks for columns in the frames above a node and in what the node before handed on. The
columns themselves are simpler: each is that of the entry above and a step, or the place where a
block opens behind a `-`; at the top of a document a column is the one that the leads speak for. A
tree that is arranged says so, node by node from the root down, with the column of each node as its
tag; its leads are given line by line.

## Main definitions

* `toColumn`, `commentsAt`, `tokenAt`: a line, the comment lines of a lead, and a lead at a column.
* `arrangeValue`, `arrangeEntries`: the value of an entry, and the entries of a block.
* `arrange`: a tree of documents.
* `InColumn`: a node whose lead is at the column that is its tag.

## Main results

* `commentsAt_eq`, `tokenAt_eq`: leads that are arranged are those that are realigned or moved.
* `Block.arranged`, `Document.Laid.arranged`: blocks and documents that are laid out are arranged.
* `reindent_eq_arrange`: the pass arranges a tree.
-/

namespace YamlIndent

open Node

/-! ### Leads line by line -/

/-- A line with its comment, if it has one, at a column. -/
def toColumn (column : Nat) (line : Text) : Text :=
  if '#' ∈ line then List.replicate column ' ' ++ line.dropWhile isBlank else line

/-- A lead with the comments of its later lines at a column. -/
def commentsAt (column : Nat) (lead : Text) : Text :=
  mapLines id (toColumn column) lead

/-- A lead with its comments and what follows it at a column. -/
def tokenAt (column : Nat) (lead : Text) : Text :=
  commentsAt column (lead.take (lead.length - (lastLine lead).length)) ++
    List.replicate column ' '

/-- Every comment line among some lines is at a column. -/
def CommentsStand (column : Nat) (lines : List Text) : Prop :=
  ∀ line ∈ lines, '#' ∈ line → ∃ comment, line = List.replicate column ' ' ++ '#' :: comment

variable {style : Style} {column k : Nat} {lead line after : Text} {head : Head} {owner kind : Kind}

theorem toColumn_of_all_isBlank (column : Nat) (h : line.all isBlank) :
    toColumn column line = line :=
  if_neg (not_mem_of_all_isBlank h)

theorem toColumn_append_comment (column : Nat) {blanks : Text} (h : blanks.all isBlank)
    (comment : Text) : toColumn column (blanks ++ '#' :: comment) =
      List.replicate column ' ' ++ '#' :: comment := by
  have hdrop : (blanks ++ '#' :: comment).dropWhile isBlank = '#' :: comment := by
    rw [List.dropWhile_append_of_pos (List.all_eq_true.1 h)]
    rfl
  rw [toColumn, if_pos (by simp), hdrop]

/-- On the lines of gaps, comments are placed as the pass places them. -/
theorem toColumn_eq (column : Nat) (hb : hasBreak line = false) (hg : isGap false line) :
    toColumn column line = placeComment column line := by
  rcases isGap_line_cases hb hg with ⟨h, -⟩ | ⟨blanks, comment, h, -, rfl⟩
  · rw [toColumn_of_all_isBlank column h, placeComment_of_all_isBlank h]
  · rw [toColumn_append_comment column h, placeComment_append_comment h]
    rfl

theorem commentsStand_toColumn (column : Nat) {lines : List Text}
    (h : ∀ line ∈ lines, hasBreak line = false ∧ isGap false line) :
    CommentsStand column (lines.map (toColumn column)) := by
  intro line hline hm
  obtain ⟨line, hl, rfl⟩ := List.mem_map.1 hline
  obtain ⟨hb, hg⟩ := h line hl
  rcases isGap_line_cases hb hg with ⟨hblank, -⟩ | ⟨blanks, comment, hblank, -, rfl⟩
  · rw [toColumn_of_all_isBlank column hblank] at hm
    exact absurd hm (not_mem_of_all_isBlank hblank)
  · exact ⟨comment, toColumn_append_comment column hblank comment⟩

theorem commentsAt_eq (column : Nat) (h : isGap false lead) :
    commentsAt column lead = realign column lead :=
  mapLines_congr (fun _ _ _ => rfl) (fun _ => toColumn_eq column) h

theorem mapLines_toColumn_zero (h : isGap false lead) :
    mapLines (toColumn 0) (toColumn 0) lead = realignDocument 0 lead :=
  mapLines_congr (fun _ => toColumn_eq 0) (fun _ => toColumn_eq 0) h

/-- The last line of a lead at a column is taken off. -/
theorem tokenAt_append_break (column : Nat) (front : Text) {br : Char} (hbr : isBreak br)
    (hl : hasBreak line = false) : tokenAt column (front ++ br :: line) =
      commentsAt column front ++ br :: List.replicate column ' ' := by
  have hsplit : front ++ br :: line = (front ++ [br]) ++ line := by
    rw [List.append_assoc, List.singleton_append]
  have htake : (front ++ br :: line).take ((front ++ br :: line).length - line.length) =
      front ++ [br] := by
    rw [hsplit]
    refine List.take_left' ?_
    simp only [List.length_append]
    omega
  rw [tokenAt, lastLine_append_cons front hbr hl, htake, commentsAt,
    mapLines_append_break _ _ front hbr, List.append_assoc]
  rfl

theorem tokenAt_eq (column : Nat) (h : StandsAt lead k) (hg : isGap false lead) :
    tokenAt column lead = moveTo column lead := by
  obtain ⟨front, br, hbr, rfl⟩ := h.exists_eq_append
  rw [isGap_append_break false front hbr, Bool.and_eq_true] at hg
  have hline := hasBreak_eq_false_of_all_isBlank (all_isBlank_replicate k)
  rw [tokenAt_append_break column front hbr hline, commentsAt_eq column hg.1, moveTo_append hbr]

/-! ### Trees -/

/-- A tree whose nodes are tagged with the columns that they are given. -/
abbrev Columned := Node (Option Nat)

/-- The lead of a node at a column, in the value of an entry of a kind. -/
def Style.leadAt (style : Style) (owner : Kind) (column : Nat) (lead : Text) : Text :=
  if hasBreak lead then tokenAt column lead
  else if owner = .sequenceEntry ∧ style.singleGap ∧ lead ≠ [] then [' ']
  else lead

/-- The column of a block that is the value of an entry of a kind at a column, and that opens behind
some lead: one step in on a later line, and behind the `-` and its gap on the line of the entry. -/
def Style.columnBelow (style : Style) (owner : Kind) (column : Nat) (opening : Text) : Nat :=
  if hasBreak opening then column + style.step
  else column + 1 + (style.leadAt owner column opening).length

/-- A node of a kind that goes to a column, if it starts a line. -/
def columnOf (column : Nat) (lead : Text) : Option Nat :=
  if hasBreak lead then some column else none

mutual

/-- The value of an entry of a kind at a column. -/
def arrangeValue (style : Style) (owner : Kind) (column : Nat) : Tree → Columned
  | ⟨_, kind, lead, text, children⟩ =>
    if kind.isCollection then
      let opening := children.head?.elim [] (·.lead)
      ⟨none, kind, lead, text,
        arrangeEntries style owner (style.columnBelow owner column opening) children⟩
    else
      let column := column + style.step
      ⟨columnOf column lead, kind, style.leadAt owner column lead, text,
        mapTagAll (fun _ => none) children⟩

/-- The entries of a block at a column, which is the value of an entry of the kind `owner`. -/
def arrangeEntries (style : Style) (owner : Kind) (column : Nat) : List Tree → List Columned
  | [] => []
  | n :: ns => arrangeEntry style owner column n :: arrangeEntries style owner column ns

/-- An entry at a column. -/
def arrangeEntry (style : Style) (owner : Kind) (column : Nat) : Tree → Columned
  | ⟨_, kind, lead, text, children⟩ =>
    ⟨some column, kind, style.leadAt owner column lead, text,
      arrangeParts style kind column children⟩

/-- The value of an entry at a column, behind the key if there is one. -/
def arrangeParts (style : Style) (owner : Kind) (column : Nat) : List Tree → List Columned
  | [] => []
  | [value] => [arrangeValue style owner column value]
  | key :: others => key.mapTag (fun _ => none) :: arrangeParts style owner column others

end

/-- The column of a node at the top of a document: the one where it stands if it starts a line, else
the one where the document opens. -/
def topColumn (opening : Nat) (lead : Text) : Nat :=
  if hasBreak lead then indentOf lead else opening

/-- An entry at the top of a document, which keeps its column. -/
def arrangeTopEntry (style : Style) (opening : Nat) : Tree → Columned
  | ⟨_, kind, lead, text, children⟩ =>
    let column := topColumn opening lead
    ⟨some column, kind, commentsAt column lead, text, arrangeParts style kind column children⟩

/-- A block at the top of a document, or the end of the document. -/
def arrangeTop (style : Style) (opening : Nat) : Tree → Columned
  | ⟨_, kind, lead, text, children⟩ =>
    if kind.isCollection then
      ⟨none, kind, lead, text, children.map (arrangeTopEntry style opening)⟩
    else
      let column := topColumn opening lead
      ⟨some column, kind, commentsAt column lead, text, mapTagAll (fun _ => none) children⟩

/-- A document, whose comments go to the margin, also one that its lead begins with. -/
def arrangeDocument (style : Style) : Tree → Columned
  | ⟨_, kind, lead, text, children⟩ =>
    let lead := mapLines (toColumn 0) (toColumn 0) lead
    ⟨none, kind, lead, text, children.map (arrangeTop style (topColumn 0 lead))⟩

/-- A stream of documents. -/
def arrange (style : Style) : Tree → Columned
  | ⟨_, kind, lead, text, children⟩ =>
    ⟨none, kind, lead, text, children.map (arrangeDocument style)⟩

/-- A node of some kind has a column and is there: an entry or a scalar that starts a line stands so
many characters into it, with its comments at that column, and the comments of a document are at the
margin. -/
def InColumn (tag : Option Nat) (kind : Kind) (lead : Text) : Prop :=
  match kind with
  | .scalar | .mappingEntry | .sequenceEntry => hasBreak lead → ∃ column, tag = some column ∧
      (lastLine lead).length = column ∧ CommentsStand column ((cutLines lead).2.map Prod.snd)
  | .document => CommentsStand 0 ((cutLines lead).1 :: (cutLines lead).2.map Prod.snd)
  | .stream | .documentEnd | .mapping | .sequence => True

/-! ### What is arranged -/

/-- A tree is arranged in columns, and reads like another. -/
structure Arranged (c : Columned) (t : Tree) : Prop where
  tree : c.mapTag (fun _ => ()) = t
  columns : ∀ n ∈ c.preorder, InColumn n.tag n.kind n.lead

/-- Trees are arranged in columns, and read like others. -/
structure ArrangedAll (cs : List Columned) (ts : List Tree) : Prop where
  trees : mapTagAll (fun _ => ()) cs = ts
  columns : ∀ n ∈ preorderAll cs, InColumn n.tag n.kind n.lead

theorem ArrangedAll.nil : ArrangedAll [] [] :=
  ⟨rfl, fun _ h => absurd h List.not_mem_nil⟩

theorem ArrangedAll.cons {c : Columned} {t : Tree} {cs : List Columned} {ts : List Tree}
    (h : Arranged c t) (hs : ArrangedAll cs ts) : ArrangedAll (c :: cs) (t :: ts) where
  trees := by rw [mapTagAll, h.tree, hs.trees]
  columns := by
    rw [preorderAll]
    exact List.forall_mem_append.2 ⟨h.columns, hs.columns⟩

theorem Arranged.node {tag : Option Nat} {text : Text} {cs : List Columned} {ts : List Tree}
    (h : InColumn tag kind lead) (hs : ArrangedAll cs ts) :
    Arranged ⟨tag, kind, lead, text, cs⟩ ⟨(), kind, lead, text, ts⟩ where
  tree := by rw [mapTag, hs.trees]
  columns := by
    rw [preorder]
    exact List.forall_mem_cons.2 ⟨h, hs.columns⟩

/-! ### Leads that are arranged -/

theorem hasBreak_toColumn (column : Nat) (line : Text) (h : hasBreak line = false) :
    hasBreak (toColumn column line) = false := by
  rw [toColumn]
  split
  · rw [← List.takeWhile_append_dropWhile (p := isBlank) (l := line), hasBreak_append,
      Bool.or_eq_false_iff] at h
    rw [hasBreak_append, h.2, hasBreak_eq_false_of_all_isBlank (all_isBlank_replicate column)]
    rfl
  · exact h

/-- The later lines of a gap are gaps on one line. -/
theorem isGap_laterLines (h : isGap false lead) :
    ∀ line ∈ (cutLines lead).2.map Prod.snd, hasBreak line = false ∧ isGap false line := by
  intro line hline
  obtain ⟨l, hl, rfl⟩ := List.mem_map.1 hline
  exact ⟨((cutLines_lines lead).2 l hl).2, (isGap_cutLines h).2 l hl⟩

theorem laterLines_mapLines {f g : Text → Text}
    (hf : ∀ l, hasBreak l = false → hasBreak (f l) = false)
    (hg : ∀ l, hasBreak l = false → hasBreak (g l) = false) (t : Text) :
    (cutLines (mapLines f g t)).2.map Prod.snd = ((cutLines t).2.map Prod.snd).map g := by
  rw [cutLines_mapLines hf hg, List.map_map, List.map_map]
  rfl

/-- The comments of the later lines of a gap stand where they are put. -/
theorem commentsStand_commentsAt (column : Nat) (h : isGap false lead) :
    CommentsStand column ((cutLines (commentsAt column lead)).2.map Prod.snd) := by
  rw [commentsAt, laterLines_mapLines (f := id) (fun _ h => h) (hasBreak_toColumn column)]
  exact commentsStand_toColumn column (isGap_laterLines h)

theorem commentsStand_document (h : isGap false lead) :
    CommentsStand 0 ((cutLines (mapLines (toColumn 0) (toColumn 0) lead)).1 ::
      (cutLines (mapLines (toColumn 0) (toColumn 0) lead)).2.map Prod.snd) := by
  have hzero := hasBreak_toColumn 0
  have hfirst : (cutLines (mapLines (toColumn 0) (toColumn 0) lead)).1 =
      toColumn 0 (cutLines lead).1 := firstLine_mapLines hzero hzero lead
  rw [hfirst, laterLines_mapLines hzero hzero, ← List.map_cons]
  exact commentsStand_toColumn 0 (List.forall_mem_cons.2
    ⟨⟨(cutLines_lines lead).1, (isGap_cutLines h).1⟩, isGap_laterLines h⟩)

/-- A lead that goes to a column ends in it, and its comments stand there. -/
theorem tokenAt_columns (column : Nat) (hb : hasBreak lead) (hg : isGap false lead) :
    (lastLine (tokenAt column lead)).length = column ∧
      CommentsStand column ((cutLines (tokenAt column lead)).2.map Prod.snd) := by
  obtain ⟨front, br, hbr, he⟩ := exists_eq_append_lastLine hb
  have hblank := all_isBlank_replicate column
  have hline := hasBreak_eq_false_of_all_isBlank hblank
  rw [he, isGap_append_break false front hbr, Bool.and_eq_true] at hg
  rw [he, tokenAt_append_break column front hbr (hasBreak_lastLine lead)]
  constructor
  · rw [lastLine_append_cons _ hbr hline, List.length_replicate]
  · rw [cutLines_append_break _ hbr, cutLines_of_not_hasBreak hline, List.map_append]
    refine List.forall_mem_append.2 ⟨commentsStand_commentsAt column hg.1, ?_⟩
    exact List.forall_mem_singleton.2 fun hm => absurd hm (not_mem_of_all_isBlank hblank)

/-- A kind of node that stands in a column: a scalar or an entry. -/
def Kind.standsInColumn (kind : Kind) : Prop :=
  kind = .scalar ∨ kind = .mappingEntry ∨ kind = .sequenceEntry

theorem inColumn_of {tag : Option Nat} (hk : kind.standsInColumn)
    (h : hasBreak lead → ∃ column, tag = some column ∧ (lastLine lead).length = column ∧
      CommentsStand column ((cutLines lead).2.map Prod.snd)) : InColumn tag kind lead := by
  rcases hk with rfl | rfl | rfl <;> exact h

/-- A node on the line of what is above it may stand in any column. -/
theorem inColumn_inline {tag : Option Nat} (hk : kind.standsInColumn) (hb : hasBreak lead = false) :
    InColumn tag kind lead := by
  refine inColumn_of hk fun h => ?_
  rw [hb] at h
  cases h

theorem standsInColumn_entryKind (head : Head) : head.entryKind.standsInColumn := by
  cases head with
  | item => exact .inr (.inr rfl)
  | key => exact .inr (.inl rfl)

/-- A node of a value stands in the column that its lead is given. -/
theorem inColumn_leadAt {tag : Option Nat} (hk : kind.standsInColumn) (hg : isGap false lead)
    (ht : hasBreak lead → tag = some column) :
    InColumn tag kind (style.leadAt owner column lead) := by
  rw [Style.leadAt]
  by_cases hb : hasBreak lead
  · rw [if_pos hb]
    exact inColumn_of hk fun _ => ⟨column, ht hb, tokenAt_columns column hb hg⟩
  · rw [if_neg hb]
    split
    · exact inColumn_inline hk rfl
    · exact inColumn_inline hk (eq_false_of_ne_true hb)

/-- A node at the top of a document stands where it stood. -/
theorem inColumn_commentsAt {opening : Nat} (hk : kind.standsInColumn) (hg : isGap false lead)
    (hblank : (lastLine lead).all isBlank) : InColumn (some (topColumn opening lead)) kind
      (commentsAt (topColumn opening lead) lead) := by
  refine inColumn_of hk fun hb => ⟨_, rfl, ?_, commentsStand_commentsAt _ hg⟩
  rw [commentsAt_eq _ hg] at hb ⊢
  rw [hasBreak_realign] at hb
  rw [lastLine_realign _ hblank, topColumn, if_pos hb, indentOf, takeWhile_eq_self_of_all hblank]

theorem commentsAt_topColumn (opening : Nat) (hg : isGap false lead) :
    commentsAt (topColumn opening lead) lead = settle lead := by
  rw [commentsAt_eq _ hg, settle, topColumn]
  by_cases hb : hasBreak lead
  · rw [if_pos hb]
  · rw [realign_of_not_hasBreak _ (eq_false_of_ne_true hb),
      realign_of_not_hasBreak _ (eq_false_of_ne_true hb)]

theorem entryKind_eq_sequenceEntry (head : Head) :
    head.entryKind = .sequenceEntry ↔ head = .item := by
  cases head <;> simp [Head.entryKind]

theorem leadAt_of_standsAt (h : StandsAt lead k) (hg : isGap false lead) :
    style.leadAt owner column lead = moveTo column lead := by
  rw [Style.leadAt, if_pos h.1, tokenAt_eq column h hg]

/-- The lead of a value is the one that is laid out, at one step in or at the column below. -/
theorem leadAt_eq_valueLead (h : OnSpaces lead) (hg : isGap false lead) :
    style.leadAt head.entryKind (column + style.step) lead = style.valueLead head column lead := by
  by_cases hb : hasBreak lead
  · obtain ⟨k, hk⟩ := h hb
    rw [leadAt_of_standsAt hk hg, Style.valueLead, if_pos hb]
  · rw [Style.leadAt, Style.valueLead, if_neg hb, if_neg hb]
    simp only [entryKind_eq_sequenceEntry]

theorem leadAt_of_not_hasBreak (c d : Nat) (hb : hasBreak lead = false) :
    style.leadAt owner c lead = style.leadAt owner d lead := by
  rw [Style.leadAt, Style.leadAt, hb, if_neg Bool.false_ne_true, if_neg Bool.false_ne_true]

theorem leadAt_columnBelow (h : OnSpaces lead) (hg : isGap false lead) :
    style.leadAt head.entryKind (style.columnBelow head.entryKind column lead) lead =
      style.valueLead head column lead := by
  rw [← leadAt_eq_valueLead h hg, Style.columnBelow]
  by_cases hb : hasBreak lead
  · rw [if_pos hb]
  · exact leadAt_of_not_hasBreak _ _ (eq_false_of_ne_true hb)

theorem columnBelow_eq_innerColumn (h : OnSpaces lead) (hg : isGap false lead) :
    style.columnBelow head.entryKind column lead =
      innerColumn column (style.valueLead head column lead) := by
  rw [Style.columnBelow]
  by_cases hb : hasBreak lead
  · obtain ⟨k, hk⟩ := h hb
    rw [if_pos hb, Style.valueLead, if_pos hb, innerColumn_of_standsAt (hk.moveTo _)]
  · rw [if_neg hb, innerColumn, h.hasBreak_valueLead, if_neg hb, ← leadAt_eq_valueLead h hg,
      leadAt_of_not_hasBreak column (column + style.step) (eq_false_of_ne_true hb)]

/-! ### Blocks that are arranged -/

theorem arranged_key (text : Text) : Arranged ((Head.scalarNode [] text).mapTag fun _ => none)
    (Head.scalarNode [] text) :=
  .node (inColumn_inline (.inl rfl) hasBreak_nil) .nil

/-- The parts of an entry are arranged once its value is. -/
theorem arrangedAll_parts (lead lead' : Text) {value laid : Tree}
    (h : Arranged (arrangeValue style head.entryKind column value) laid) :
    ArrangedAll (arrangeParts style head.entryKind column (head.entry lead value).children)
      (head.entry lead' laid).children := by
  cases head with
  | item => exact .cons h .nil
  | key text indicator => exact .cons (arranged_key text) (.cons h .nil)

theorem arranged_entry {lead' : Text} {tag : Option Nat} {value laid : Tree}
    (hin : InColumn tag head.entryKind lead')
    (h : Arranged (arrangeValue style head.entryKind column value) laid) :
    Arranged ⟨tag, head.entryKind, lead', (head.entry lead value).text,
      arrangeParts style head.entryKind column (head.entry lead value).children⟩
      (head.entry lead' laid) := by
  have hparts := arrangedAll_parts lead lead' h
  cases head <;> exact .node hin hparts

theorem arrangeEntry_entry (head : Head) (lead : Text) (value : Tree) :
    arrangeEntry style owner column (head.entry lead value) =
      ⟨some column, head.entryKind, style.leadAt owner column lead, (head.entry lead value).text,
        arrangeParts style head.entryKind column (head.entry lead value).children⟩ := by
  cases head <;> rfl

theorem arrangeTopEntry_entry (opening : Nat) (head : Head) (lead : Text) (value : Tree) :
    arrangeTopEntry style opening (head.entry lead value) =
      ⟨some (topColumn opening lead), head.entryKind, commentsAt (topColumn opening lead) lead,
        (head.entry lead value).text, arrangeParts style head.entryKind (topColumn opening lead)
          (head.entry lead value).children⟩ := by
  cases head <;> rfl

theorem arranged_scalar {text : Text} (h : OnSpaces lead) (hg : isGap false lead) :
    Arranged (arrangeValue style head.entryKind column (Head.scalarNode lead text))
      (Head.scalarNode (style.valueLead head column lead) text) := by
  rw [← leadAt_eq_valueLead h hg]
  refine .node (inColumn_leadAt (.inl rfl) hg fun hb => ?_) .nil
  rw [columnOf, if_pos hb]

theorem arranged_empty : Arranged (arrangeValue style head.entryKind column Block.empty.tree)
    (Head.scalarNode [] []) := by
  have hlead : style.valueLead head column [] = [] := by
    rw [Style.valueLead, hasBreak_nil, if_neg Bool.false_ne_true, if_neg fun h => h.2.2 rfl]
  have hspaces : OnSpaces [] := fun hb => absurd hb Bool.false_ne_true
  have h : Arranged (arrangeValue style head.entryKind column (Head.scalarNode [] [])) _ :=
    arranged_scalar hspaces rfl
  rwa [hlead] at h

theorem arrangeValue_entries (es : Entries) :
    arrangeValue style owner column (Block.entries es).tree = ⟨none, es.head.blockKind, [], [],
      arrangeEntries style owner (style.columnBelow owner column es.lead) es.trees⟩ := by
  obtain ⟨value, ts, hes⟩ := es.exists_trees_cons
  rw [Block.tree, hes]
  cases es.head <;> rfl

mutual

/-- The value of an entry that is laid out is arranged. -/
theorem Block.arranged {style : Style} {head : Head} {column : Nat} {after : Text} :
    (v : Block) → v.Spelled after → v.Lined head →
    Arranged (arrangeValue style head.entryKind column v.tree) (v.layout style head column).tree
  | .empty, _, _ => arranged_empty
  | .scalar lead text, hs, hl => by
    rw [Block.Spelled] at hs
    exact arranged_scalar hl hs.2.1.1.1
  | .entries es, hs, hl => by
    rw [Block.Spelled] at hs
    rw [Block.Lined] at hl
    obtain ⟨hlead, -, k, hes⟩ := hl
    have hg := (Entries.spelledAt hs).1.1.1
    rw [arrangeValue_entries, Block.layout, Block.tree, Entries.head_layout,
      ← columnBelow_eq_innerColumn hlead hg]
    refine .node ?_ (Entries.arranged es hs hes (leadAt_columnBelow hlead hg))
    cases es.head <;> trivial

/-- Entries that are laid out are arranged. -/
theorem Entries.arranged {style : Style} {owner : Kind} {column k : Nat} {lead after : Text} :
    (es : Entries) → es.Spelled after → es.Lined k → style.leadAt owner column es.lead = lead →
    ArrangedAll (arrangeEntries style owner column es.trees) (es.layout style column lead).trees
  | .last first head value, hs, hl, he => by
    have hin : InColumn (some column) head.entryKind (style.leadAt owner column first) :=
      inColumn_leadAt (standsInColumn_entryKind head) (Entries.spelledAt hs).1.1.1 fun _ => rfl
    rw [Entries.Spelled] at hs
    rw [Entries.Lined] at hl
    rw [Entries.lead] at he
    rw [he] at hin
    rw [Entries.trees, Entries.layout, Entries.trees, arrangeEntries, arrangeEntry_entry, he]
    exact .cons (arranged_entry hin (Block.arranged value hs.2.2 hl)) .nil
  | .more first head value others, hs, hl, he => by
    have hin : InColumn (some column) head.entryKind (style.leadAt owner column first) :=
      inColumn_leadAt (standsInColumn_entryKind head) (Entries.spelledAt hs).1.1.1 fun _ => rfl
    rw [Entries.Spelled] at hs
    rw [Entries.Lined] at hl
    obtain ⟨-, -, hvalue, hothers⟩ := hs
    rw [Entries.lead] at he
    rw [he] at hin
    have hmoved : style.leadAt owner column others.lead = moveTo column others.lead :=
      leadAt_of_standsAt hl.2.1 (Entries.spelledAt hothers).1.1.1
    rw [Entries.trees, Entries.layout, Entries.trees, arrangeEntries, arrangeEntry_entry, he]
    exact .cons (arranged_entry hin (Block.arranged value hvalue hl.1))
      (Entries.arranged others hothers hl.2.2 hmoved)

end

/-! ### Documents that are arranged -/

variable {opening : Nat}

/-- An entry at the top of a document is arranged where it is laid out. -/
theorem arranged_topEntry {value laid : Tree} (hat : head.SpelledAt lead line)
    (hcolumn : topColumn opening lead = column)
    (h : Arranged (arrangeValue style head.entryKind column value) laid) :
    Arranged (arrangeTopEntry style opening (head.entry lead value))
      (head.entry (settle lead) laid) := by
  have hin : InColumn (some (topColumn opening lead)) head.entryKind _ :=
    inColumn_commentsAt (standsInColumn_entryKind head) hat.1.1.1
      (hat.1.1.all_isBlank_lastLine hat.source_append_ne_nil)
  rw [← hcolumn] at h
  rw [arrangeTopEntry_entry, ← commentsAt_topColumn opening hat.1.1.1]
  exact arranged_entry hin h

theorem topColumn_of_standsAt (opening : Nat) (h : StandsAt lead k) :
    topColumn opening lead = k := by
  rw [topColumn, if_pos h.1, h.indentOf_eq]

/-- The entries at the top of a document that stand at a column stay there. -/
theorem Entries.arrangedTop_of_standsAt : (es : Entries) → es.Spelled after → es.Lined k →
    StandsAt es.lead k → ArrangedAll (es.trees.map (arrangeTopEntry style opening))
      (es.layout style k (moveTo k es.lead)).trees
  | .last first head value, hs, hl, hstands => by
    rw [Spelled] at hs
    rw [Lined] at hl
    have hcolumn := topColumn_of_standsAt opening hstands
    rw [moveTo_eq_settle hstands, trees, layout, trees]
    exact .cons (arranged_topEntry hs.1 hcolumn (value.arranged hs.2.2 hl)) .nil
  | .more first head value others, hs, hl, hstands => by
    rw [Spelled] at hs
    rw [Lined] at hl
    have hcolumn := topColumn_of_standsAt opening hstands
    rw [moveTo_eq_settle hstands, trees, layout, trees]
    exact .cons (arranged_topEntry hs.1 hcolumn (value.arranged hs.2.2.1 hl.1))
      (others.arrangedTop_of_standsAt hs.2.2.2 hl.2.2 hl.2.1)

/-- The entries at the top of a document are arranged where they are laid out. -/
theorem Entries.arrangedTop : (es : Entries) → es.Spelled after → es.Lined k →
    ArrangedAll (es.trees.map (arrangeTopEntry style opening))
      (es.layoutTop style (topColumn opening es.lead)).trees
  | .last first head value, hs, hl => by
    rw [Spelled] at hs
    rw [Lined] at hl
    rw [trees, layoutTop, trees]
    exact .cons (arranged_topEntry hs.1 rfl (value.arranged hs.2.2 hl)) .nil
  | .more first head value others, hs, hl => by
    rw [Spelled] at hs
    rw [Lined] at hl
    rw [trees, layoutTop, trees, hl.2.1.indentOf_eq]
    exact .cons (arranged_topEntry hs.1 rfl (value.arranged hs.2.2.1 hl.1))
      (others.arrangedTop_of_standsAt hs.2.2.2 hl.2.2 hl.2.1)

theorem arrangeTop_entries (es : Entries) :
    arrangeTop style opening (Block.entries es).tree = ⟨none, es.head.blockKind, [], [],
      es.trees.map (arrangeTopEntry style opening)⟩ := by
  rw [Block.tree]
  cases es.head <;> rfl

/-- The block at the top of a document is arranged where it is laid out. -/
theorem Block.arrangedTop (b : Block) (hs : b.Spelled after)
    (hl : ∀ {es}, b = .entries es → ∃ k, es.Lined k) :
    ArrangedAll (b.children.map (arrangeTop style opening))
      (b.layoutTop style (topColumn opening b.lead)).children := by
  cases b with
  | empty => exact .nil
  | scalar lead text =>
    rw [Spelled] at hs
    have hrest := List.append_ne_nil_of_left_ne_nil hs.1 after
    have hg := hs.2.1.1.1
    have hin : InColumn (some (topColumn opening lead)) .scalar _ :=
      inColumn_commentsAt (.inl rfl) hg (hs.2.1.1.all_isBlank_lastLine hrest)
    rw [layoutTop, children, children, Block.tree, Block.tree, ← commentsAt_topColumn opening hg]
    exact .cons (.node hin .nil) .nil
  | entries es =>
    obtain ⟨k, hes⟩ := hl rfl
    rw [layoutTop, children, children, List.map_cons, List.map_nil, arrangeTop_entries, tree,
      es.head_layoutTop]
    refine .cons (.node ?_ (es.arrangedTop hs hes)) .nil
    cases es.head <;> trivial

theorem ArrangedAll.append {cs cs' : List Columned} {ts ts' : List Tree} (h : ArrangedAll cs ts)
    (h' : ArrangedAll cs' ts') : ArrangedAll (cs ++ cs') (ts ++ ts') := by
  obtain ⟨rfl, hc⟩ := h
  induction cs with
  | nil => exact h'
  | cons c cs ih =>
    rw [preorderAll, List.forall_mem_append] at hc
    exact .cons ⟨rfl, hc.1⟩ (ih hc.2)

/-- A document that is laid out is arranged. -/
theorem Document.Laid.arranged {d : Document} (style : Style) (h : d.Laid line after) :
    Arranged (arrangeDocument style d.tree) (d.layout style).tree := by
  have hlead := mapLines_toColumn_zero h.gap.1
  have hcolumn : d.block.layoutTop style (topColumn (topColumn 0 (realignDocument 0 d.lead))
      d.block.lead) = d.block.layoutTop style d.column := by
    by_cases hb : d.block.children = []
    · rw [d.block.children_eq_nil_iff.1 hb]
      rfl
    · rw [topColumn, topColumn, h.lined.indentOf_realignDocument hb, hasBreak_realignDocument]
      rfl
  have hblock : ArrangedAll (d.block.children.map (arrangeTop style
      (topColumn 0 (realignDocument 0 d.lead)))) (d.block.layoutTop style d.column).children := by
    rw [← hcolumn]
    exact d.block.arrangedTop h.spelled h.lined.entries
  have hend : ArrangedAll ([⟨(), .documentEnd, d.endLead, d.endText, []⟩].map (arrangeTop style
      (topColumn 0 (realignDocument 0 d.lead))))
      [⟨(), .documentEnd, settle d.endLead, d.endText, []⟩] := by
    rw [← commentsAt_topColumn (topColumn 0 (realignDocument 0 d.lead)) h.endGap.1]
    exact .cons (.node trivial .nil) .nil
  have hstand : InColumn none .document (realignDocument 0 d.lead) := by
    rw [← hlead]
    exact commentsStand_document h.gap.1
  have hnode : Arranged ⟨none, .document, realignDocument 0 d.lead, d.mark, _⟩
      (d.layout style).tree := .node hstand (hblock.append hend)
  rw [tree, arrangeDocument, hlead, List.map_append]
  exact hnode

theorem arrangedAll_documents (style : Style) : {line : Text} → (ds : List Document) →
    LaidAll line ds → ArrangedAll ((ds.map Document.tree).map (arrangeDocument style))
      ((ds.map (Document.layout style)).map Document.tree)
  | _, [], _ => .nil
  | _, _ :: ds, h => .cons (h.1.arranged style) (arrangedAll_documents style ds h.2.2)

variable {source : Text} {t : Tree}

/-- The pass over the tree of a text gives the tree that is arranged from the top down, where each
entry and scalar that starts a line stands in its column, with its comments. -/
theorem reindent_eq_arrange (style : Style) (h : parse source = .ok t) :
    ∃ v, reindent style t.tagged = .ok v ∧
      v.node.untagged = (arrange style t).mapTag (fun _ => ()) ∧
      ∀ n ∈ (arrange style t).preorder, InColumn n.tag n.kind n.lead := by
  obtain ⟨ds, hds, rfl⟩ := parse_eq_ok_iff.1 h
  obtain ⟨v, hv, htree⟩ := reindent_streamTree style hds.laid
  have harranged : Arranged (arrange style (streamTree ds))
      (streamTree (ds.map (Document.layout style))) :=
    .node trivial (arrangedAll_documents style ds hds.laid)
  exact ⟨v, hv, htree.trans harranged.tree.symm, harranged.columns⟩

/-- A source with compact entries, a value at the column of its key, and comments. -/
theorem reindent_eq_arrange_compact :
    ∃ t v, parse "---\n k:\n # b\n -   - l: 1\n    # c\n     - m:\n        2\n".toList = .ok t ∧
      reindent .standard t.tagged = .ok v ∧
      v.node.untagged = (arrange .standard t).mapTag (fun _ => ()) ∧
      ∀ n ∈ (arrange .standard t).preorder, InColumn n.tag n.kind n.lead := by
  have h : (parse "---\n k:\n # b\n -   - l: 1\n    # c\n     - m:\n        2\n".toList).isOk := by
    decide +kernel
  obtain ⟨t, ht⟩ := exists_eq_ok_of_isOk h
  obtain ⟨v, hv, he, hc⟩ := reindent_eq_arrange .standard ht
  exact ⟨t, v, ht, hv, he, hc⟩

end YamlIndent
