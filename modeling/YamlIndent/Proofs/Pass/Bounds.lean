import YamlIndent.Proofs.Pass.Course
import YamlIndent.Proofs.Shifting

/-!
# How far the pass moves leads

Wherever the pass comes to, the indents above are less than a step left of the margin. Whatever
starts a line goes one step inside of such an indent, and so right of the margin; and a lead that is
moved there loses no more than blanks of its last line. What a pass reports, and what is noted on
its cursors, is in the same bounds.

## Main definitions

* `askedColumn`: the column that a node is moved to.
* `Bounded`: the bounds of a node in place.

## Main results

* `lead_of_placeNode`: a node is moved to the column that is asked for, and to no other.
* `solid_eq_of_moved`: nothing but white space within lines is lost.
* `LeavesFrame.neg_step_lt`: a cursor notes no indent that is a step left of the margin.
* `bounded_of_comesTo`: all indents and columns of a pass are in bounds.
-/

namespace YamlIndent

open Node

variable {style : Style} {stop : Option Nat} {root n : Node Origin} {ns : List (Node Origin)}
  {trail : List (Frame Int)} {carry : Option Int} {placed : Placed}

/-! ### Columns -/

theorem settle_of_not_hasBreak {lead : Text} (h : hasBreak lead = false) : settle lead = lead :=
  realign_of_not_hasBreak _ h

/-- A lead below a trail that goes to a column if it starts a line, but not at the top. -/
def leadBelow (trail : List (Frame Int)) (column : Int) (lead : Text) : Text :=
  if hasBreak lead && !atTop trail then moveTo column lead else settle lead

theorem lead_startItem (style : Style) (trail : List (Frame Int)) (indent : Int)
    (carry : Option Int) (n : Node Origin) : (startItem style trail indent carry n).1.lead =
      leadBelow trail (carry.getD indent + style.step) n.lead := by
  simp only [startItem, leadBelow]
  cases hb : hasBreak n.lead with
  | false => exact (settle_of_not_hasBreak hb).symm
  | true => cases atTop trail <;> exact (withLead_parts _ n).2.1

theorem lead_placePair (style : Style) (trail : List (Frame Int)) (indent : Int)
    (n : Node Origin) : (placePair style trail indent n).1.lead =
      leadBelow trail (indent + style.step) n.lead := by
  simp only [placePair, leadBelow]
  cases hb : hasBreak n.lead with
  | false =>
    have hsettle : n.lead = settle n.lead := (settle_of_not_hasBreak hb).symm
    cases inItem trail with
    | true => exact hsettle
    | false =>
      cases atTop trail with
      | true => exact hsettle
      | false =>
        refine (withLead_parts _ n).2.1.trans ?_
        rw [realign_of_not_hasBreak _ hb]
        exact hsettle
  | true => cases atTop trail <;> exact (withLead_parts _ n).2.1

theorem lead_placeOther (style : Style) (trail : List (Frame Int)) (indent : Int)
    (n : Node Origin) : (placeOther style trail indent n).lead =
      leadBelow trail (indent + style.step) n.lead := by
  simp only [placeOther, leadBelow]
  cases hb : hasBreak n.lead with
  | false => exact (settle_of_not_hasBreak hb).symm
  | true => cases atTop trail <;> exact (withLead_parts _ n).2.1

/-- The column that a node below a trail is moved to, if it is moved to one: a step inside the
indent in effect, or for a sequence entry a step inside the indent that was handed to it. -/
def askedColumn (style : Style) (trail : List (Frame Int)) (carry : Option Int)
    (n : Node Origin) : Option Int :=
  if n.kind = .document then none
  else if hasBreak n.lead && !atTop trail then
    let indent := if n.kind = .sequenceEntry then carry.getD (indentBelow trail) else
      indentBelow trail
    some (indent + style.step)
  else none

/-- The lead of a node that goes to a column, or that keeps its own, but for the comments in it. -/
def placedLead (column : Option Int) (n : Node Origin) : Text :=
  match column with
  | some c => moveTo c n.lead
  | none => if n.kind = .document then realignDocument 0 n.lead else settle n.lead

/-- A node in place has its lead moved to the column that is asked for, and to no other. -/
theorem lead_of_placeNode (hp : placeNode style trail carry n = .ok placed) :
    placed.node.lead = placedLead (askedColumn style trail carry n) n := by
  have hbelow (column : Int) (hk : n.kind ≠ .document)
      (hcolumn : column = (if n.kind = .sequenceEntry then carry.getD (indentBelow trail) else
        indentBelow trail) + style.step)
      (hl : placed.node.lead = leadBelow trail column n.lead) :
      placed.node.lead = placedLead (askedColumn style trail carry n) n := by
    rw [hl, leadBelow, askedColumn, if_neg hk, hcolumn]
    split
    · rfl
    · rw [placedLead, if_neg hk]
  rw [placeNode, placeWith] at hp
  cases hk : n.kind <;> rw [hk] at hp hbelow
  case sequenceEntry =>
    obtain ⟨spaced, hspaced, hp⟩ := exists_of_bind_eq_ok hp
    obtain rfl := Except.ok.inj hp
    refine hbelow _ (by decide) rfl ((lead_of_spaceItem hspaced).trans ?_)
    exact lead_startItem style trail (indentBelow trail) carry n
  case mappingEntry =>
    obtain rfl := Except.ok.inj hp
    exact hbelow _ (by decide) rfl (lead_placePair style trail (indentBelow trail) n)
  case document =>
    obtain rfl := Except.ok.inj hp
    rw [askedColumn, if_pos hk, placedLead, if_pos hk]
    exact (withLead_parts _ n).2.1
  all_goals
    obtain rfl := Except.ok.inj hp
    exact hbelow _ (by decide) rfl (lead_placeOther style trail (indentBelow trail) n)

/-- A column that is asked for is right of the margin. -/
theorem Sound.one_le_askedColumn (h : Sound style trail) (hc : InBounds style carry) {c : Int}
    (hasked : askedColumn style trail carry n = some c) : 1 ≤ c := by
  have hshared := h.neg_step_lt_shared hc
  have hindent := h.neg_step_lt_indentBelow
  rw [askedColumn] at hasked
  split at hasked
  · cases hasked
  · split at hasked
    · obtain rfl := Option.some.inj hasked
      split <;> omega
    · cases hasked

/-! ### Bounds -/

/-- With steps of more than two, the value of an item at the margin notes an indent left of it. -/
theorem exists_negative (stop : Option Nat) (hstep : 2 < style.step) :
    ∃ t : Node Origin, (∀ m ∈ t.preorder, m.Ranked) ∧ ∃ trail carry n ns placed i,
      ComesTo style stop t trail carry (n :: ns) ∧
      placeNode style trail carry n = .ok placed ∧ placed.indent = some i ∧ i < 0 := by
  let value : Node Origin := ⟨some 4, .scalar, [' '], ['a'], []⟩
  let item : Node Origin := ⟨some 3, .sequenceEntry, [], ['-'], [value]⟩
  let items : Node Origin := ⟨some 2, .sequence, [], [], [item]⟩
  let last : Node Origin := ⟨some 5, .documentEnd, ['\n'], [], []⟩
  let document : Node Origin := ⟨some 1, .document, [], [], [items, last]⟩
  let root : Node Origin := ⟨some 0, .stream, [], [], [document]⟩
  have hranked : ∀ m ∈ root.preorder, m.Ranked := by decide
  have hroot : placeNode style [] none root = .ok ⟨root, none, none⟩ := rfl
  have hdocument : placeNode style [⟨.stream, [], none⟩] none document =
      .ok ⟨document, none, none⟩ := rfl
  have hitems : placeNode style [⟨.document, [], none⟩, ⟨.stream, [], none⟩] none items =
      .ok ⟨items, none, none⟩ := rfl
  have hitem : ComesTo style stop root
      [⟨.sequence, [], none⟩, ⟨.document, [], none⟩, ⟨.stream, [], none⟩] none [item] :=
    ((ComesTo.start.inside hroot).inside hdocument).inside hitems
  have hplace : placeNode style [⟨.sequence, [], none⟩, ⟨.document, [], none⟩,
      ⟨.stream, [], none⟩] none item = .ok ⟨item, some (2 - style.step), none⟩ := by
    obtain ⟨step, gap, hpos⟩ := style
    cases gap <;> rfl
  exact ⟨root, hranked, _, none, item, [], _, _, hitem, hplace, rfl, by omega⟩

/-- A node in place, and the indents and columns that the pass goes by. -/
structure Bounded (style : Style) (trail : List (Frame Int)) (carry : Option Int)
    (n : Node Origin) (placed : Placed) : Prop where
  /-- What is noted at the node, or measured there, is less than a step left of the margin. -/
  recorded : InBounds style (Frame.recorded? ⟨n.kind, placed.node.lead, placed.indent⟩)
  /-- The node is moved to no column but the one that is asked for. -/
  lead_eq : placed.node.lead = placedLead (askedColumn style trail carry n) n
  /-- That column is right of the margin. Where comments are at it, the lead gets more spaces at its
  end or loses blanks of its last line, and in all it keeps what is no white space of a line. -/
  asked : ∀ c, askedColumn style trail carry n = some c → 1 ≤ c ∧
    ShiftsEnd (realign c n.lead) placed.node.lead ∧ solid placed.node.lead = solid n.lead

theorem Orderly.bounded (h : Orderly style trail carry (n :: ns))
    (hp : placeNode style trail carry n = .ok placed) : Bounded style trail carry n placed := by
  have hlead := lead_of_placeNode hp
  refine ⟨(h.inside hp).sound.inBounds_recorded, hlead, fun c hc => ?_⟩
  have hone := h.sound.one_le_askedColumn h.carried hc
  have hshift := shiftsEnd_moveTo (show 0 ≤ c by omega) n.lead
  rw [hc] at hlead
  rw [hlead]
  exact ⟨hone, hshift, hshift.solid_eq.trans (solid_realign c n.lead)⟩

/-- A pass reports no lead to lose anything but white space within lines. -/
theorem solid_eq_of_moved (h : ∀ m ∈ root.preorder, m.Ranked) {v : Visited}
    (hv : reindent style root stop = .ok v) {kind : Kind} {old new : Text}
    (he : Event.moved kind old new ∈ v.log) : solid new = solid old := by
  obtain ⟨trail, carry, n, ns, placed, hc, hp, -, rfl, rfl⟩ := movesIn_of_reindent hv he
  have hbounded := (hc.orderly h).bounded hp
  cases hasked : askedColumn style trail carry n with
  | some c => exact (hbounded.asked c hasked).2.2
  | none =>
    rw [hbounded.lead_eq, hasked, placedLead]
    split
    · exact solid_realignDocument 0 n.lead
    · exact solid_realign _ n.lead

/-- A cursor that stands for a node where an orderly pass comes to notes an indent in bounds. -/
theorem LeavesFrame.neg_step_lt {frame : Frame Int} (hframe : LeavesFrame style stop root frame)
    (h : ∀ m ∈ root.preorder, m.Ranked) {c : Cursor} (hstands : c.StandsFor frame) {note : Note}
    (hnote : c.indent? = some note) : ∃ i, note = .int i ∧ -style.step < i := by
  obtain ⟨trail, carry, n, ns, placed, hc, hp, rfl⟩ := hframe
  obtain ⟨i, hi, rfl⟩ := hstands.recorded?_of_noted hnote
  exact ⟨i, rfl, ((hc.orderly h).bounded hp).recorded i hi⟩

/-- Throughout a pass over a tree whose kinds are those of a source, with any leads and texts, all
indents are less than a step left of the margin and all columns right of it, so that a move takes no
more than blanks off the end of a lead; but an indent may be left of the margin.

The course of a pass is all that there is to it. The pass gives a node, and so does the pass over
cursors; what is reported is moved in its course, and loses no more than white space; and every
cursor stands for a node in its course, and notes an indent in bounds if it notes one. -/
theorem bounded_of_comesTo (h : ∀ m ∈ root.preorder, m.Ranked) :
    (∀ trail carry n ns, ComesTo style stop root trail carry (n :: ns) →
      ∃ placed, placeNode style trail carry n = .ok placed ∧ Bounded style trail carry n placed) ∧
    (2 < style.step → ∃ t : Node Origin, (∀ m ∈ t.preorder, m.Ranked) ∧
      ∃ trail carry n ns placed i, ComesTo style stop t trail carry (n :: ns) ∧
        placeNode style trail carry n = .ok placed ∧ placed.indent = some i ∧ i < 0) ∧
    ∃ v w, reindent style root stop = .ok v ∧ ByCursor.reindent style root stop = .ok w ∧
      w.node = v.node ∧ w.log = v.log ∧
      (∀ kind old new, Event.moved kind old new ∈ v.log →
        MovesIn style stop root kind old new ∧ solid new = solid old) ∧
      ∀ k c, w.forest.get? k = some c →
        (∃ frame, LeavesFrame style stop root frame ∧ c.StandsFor frame) ∧
        ∀ note, c.indent? = some note → ∃ i, note = .int i ∧ -style.step < i := by
  refine ⟨fun trail carry n ns hc => ?_, exists_negative stop, ?_⟩
  · have horder := hc.orderly h
    obtain ⟨placed, hp⟩ := horder.exists_placed
    exact ⟨placed, hp, horder.bounded hp⟩
  · obtain ⟨v, hv⟩ := exists_reindent style stop h
    obtain ⟨w, hw, hnode, hlog⟩ := ByCursor.exists_reindent hv
    refine ⟨v, w, hv, hw, hnode, hlog, fun kind old new he => ?_, fun k c hc => ?_⟩
    · exact ⟨movesIn_of_reindent hv he, solid_eq_of_moved h hv he⟩
    · obtain ⟨frame, hframe, hstands⟩ := standsFor_of_reindent hw k c hc
      exact ⟨⟨frame, hframe, hstands⟩, fun note => hframe.neg_step_lt h hstands⟩

/-- Entries behind a `-` and on later lines, in leads that are no gaps, and a stop. -/
theorem bounded_of_comesTo_loose :
    let style : Style := ⟨4, true, by decide⟩
    let key : Tree := ⟨(), .scalar, [], ['k'], []⟩
    let value : Tree := ⟨(), .scalar, "x\n  # c\r         ".toList, ['v'], []⟩
    let pair (lead : String) : Tree := ⟨(), .mappingEntry, lead.toList, [':'], [key, value]⟩
    let inner : Tree := ⟨(), .mapping, ['\n'], [], [pair " ", pair "\n y \n            "]⟩
    let item (lead : String) : Tree := ⟨(), .sequenceEntry, lead.toList, ['-'], [inner]⟩
    let last : Tree := ⟨(), .documentEnd, "\n    ".toList, "...".toList, []⟩
    let document : Tree := ⟨(), .document, "\n   ".toList, [],
      [⟨(), .sequence, [], [], [item "", item "\n "]⟩, last]⟩
    let root : Node Origin := (⟨(), .stream, "\n  ".toList, [], [document, document]⟩ : Tree).tagged
    (∀ m ∈ root.preorder, m.Ranked) ∧ 2 < style.step ∧
      (∀ trail carry n ns, ComesTo style (some 4) root trail carry (n :: ns) →
        ∃ placed, placeNode style trail carry n = .ok placed ∧
          Bounded style trail carry n placed) ∧
      (2 < style.step → ∃ t : Node Origin, (∀ m ∈ t.preorder, m.Ranked) ∧
        ∃ trail carry n ns placed i, ComesTo style (some 4) t trail carry (n :: ns) ∧
          placeNode style trail carry n = .ok placed ∧ placed.indent = some i ∧ i < 0) ∧
      ∃ v w, reindent style root (some 4) = .ok v ∧
        ByCursor.reindent style root (some 4) = .ok w ∧ w.node = v.node ∧ w.log = v.log ∧
        (∀ kind old new, Event.moved kind old new ∈ v.log →
          MovesIn style (some 4) root kind old new ∧ solid new = solid old) ∧
        ∀ k c, w.forest.get? k = some c →
          (∃ frame, LeavesFrame style (some 4) root frame ∧ c.StandsFor frame) ∧
          ∀ note, c.indent? = some note → ∃ i, note = .int i ∧ -style.step < i := by
  intro style key value pair inner item last document root
  have hranked : ∀ m ∈ root.preorder, m.Ranked := by decide +kernel
  exact ⟨hranked, by decide, bounded_of_comesTo hranked⟩

end YamlIndent
