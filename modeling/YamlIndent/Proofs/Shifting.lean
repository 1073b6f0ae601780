import YamlIndent.Proofs.Lead

/-!
# What a move takes off a lead

Moving a lead puts its comments at the column and then makes its end longer or shorter. The width
that it is changed by is measured before the comments are moved, and cut off after; the blanks at
the end are those that were measured, unless the lead ends inside a comment and is not cut at all.

## Main definitions

* `ShiftsEnd`: a text with more spaces at its end or fewer blanks.
* `solid`: what stands in a text besides white space within lines.

## Main results

* `shiftsEnd_moveTo`: what a move does to a lead when its comments are moved.
* `solid_realign`, `ShiftsEnd.solid_eq`: neither step loses more than white space within lines.
-/

namespace YamlIndent

/-! ### White space within lines -/

/-- What stands in a text besides white space that is no break. -/
def solid (t : Text) : Text :=
  t.filter fun c => !isInlineSpace c

theorem solid_append (a b : Text) : solid (a ++ b) = solid a ++ solid b :=
  List.filter_append a b

theorem solid_of_all_isBlank {t : Text} (h : t.all isBlank) : solid t = [] := by
  rw [solid, List.filter_eq_nil_iff]
  intro c hc
  rw [isInlineSpace_of_isBlank (List.all_eq_true.1 h c hc)]
  exact Bool.false_ne_true

theorem solid_placeComment (column : Int) (line : Text) :
    solid (placeComment column line) = solid line := by
  have hspan : solid (line.takeWhile isInlineSpace) = [] := by
    rw [solid, List.filter_eq_nil_iff]
    intro c hc
    rw [List.all_eq_true.1 List.all_takeWhile c hc]
    exact Bool.false_ne_true
  rw [placeComment]
  split
  · rename_i comment hline
    have hcut := List.takeWhile_append_dropWhile (p := isInlineSpace) (l := line)
    rw [hline] at hcut
    have hspaces : solid (spaces column) = [] := solid_of_all_isBlank (all_isBlank_replicate _)
    rw [solid_append, hspaces, ← hcut, solid_append, hspan]
  · rfl

theorem solid_joinLines (first : Text) (later : List (Char × Text)) :
    solid (joinLines first later) = solid first ++ later.flatMap fun l => solid (l.1 :: l.2) := by
  rw [joinLines, solid_append, solid, solid, List.filter_flatMap]
  rfl

theorem solid_placeComments (column : Int) {first : Text} {lead : Text}
    (hf : solid first = solid (cutLines lead).1) :
    solid (joinLines first (placeComments column (cutLines lead).2)) = solid lead := by
  have hline (b : Char) (line : Text) :
      solid (b :: placeComment column line) = solid (b :: line) := by
    rw [← List.singleton_append, solid_append, solid_placeComment, ← solid_append]
    rfl
  have hcut : solid lead = solid (joinLines (cutLines lead).1 (cutLines lead).2) := by
    rw [joinLines_cutLines]
  rw [hcut, solid_joinLines, solid_joinLines, hf, placeComments, List.flatMap_map]
  simp only [hline]

theorem solid_realign (column : Int) (lead : Text) : solid (realign column lead) = solid lead :=
  solid_placeComments column rfl

theorem solid_realignDocument (column : Int) (lead : Text) :
    solid (realignDocument column lead) = solid lead :=
  solid_placeComments column (solid_placeComment 0 _)

/-! ### The end of a lead -/

/-- A text with some spaces behind it, or without some blanks of its last line. -/
def ShiftsEnd (old new : Text) : Prop :=
  (∃ k, new = old ++ List.replicate k ' ') ∨
    ∃ cut, old = new ++ cut ∧ cut <:+ lastLine old ∧ cut.all isBlank

/-- The last line of a lead that ends on blanks where its comments are moved is as it was. -/
theorem lastLine_eq_of_realign {c : Int} {lead : Text} (hb : hasBreak lead)
    (h : (lastLine (realign c lead)).all isBlank) : lastLine (realign c lead) = lastLine lead := by
  obtain ⟨front, br, hbr, he⟩ := exists_eq_append_lastLine hb
  have hl := hasBreak_lastLine lead
  have hlast : lastLine (realign c lead) = placeComment c (lastLine lead) := by
    have hcut : realign c lead = realign c (front ++ br :: lastLine lead) := congrArg _ he
    rw [hcut, realign_eq_mapLines, mapLines_append_break _ _ front hbr,
      mapLines_of_not_hasBreak _ _ hl, lastLine_append_cons _ hbr (hasBreak_placeComment c _ hl)]
  rw [hlast] at h ⊢
  rcases placeComment_cases (lastLine lead) with ⟨front, comment, -, hp⟩ | hp
  · rw [hp, List.all_append, List.all_cons] at h
    simp [isBlank] at h
  · exact hp c

/-- A move to a column that is not left of the margin moves comments and blanks at the end. -/
theorem shiftsEnd_moveTo {c : Int} (hc : 0 ≤ c) (lead : Text) :
    ShiftsEnd (realign c lead) (moveTo c lead) := by
  have hself (t : Text) : ShiftsEnd t t := .inl ⟨0, (List.append_nil t).symm⟩
  by_cases hb : hasBreak lead = true
  · simp only [moveTo, hb, Bool.not_true, Bool.false_eq_true, if_false]
    split
    · rename_i hblank
      have hlast := lastLine_eq_of_realign hb hblank
      rw [shiftEnd]
      split
      · exact .inl ⟨_, rfl⟩
      · rename_i hneg
        -- The cut is by what the lead is too wide, and so within its last line.
        obtain ⟨front, he, -⟩ := exists_lines_append_lastLine (realign c lead)
        have hwidth : indentOf lead ≤ (lastLine (realign c lead)).length := by
          rw [hlast]
          exact (List.takeWhile_sublist _).length_le
        have hle : (-(c - indentOf lead)).toNat ≤ (lastLine (realign c lead)).length := by omega
        have hsuffix : (realign c lead).drop ((realign c lead).length -
            (-(c - indentOf lead)).toNat) <:+ lastLine (realign c lead) := by
          refine List.suffix_of_suffix_length_le (List.drop_suffix _ _) ⟨front, he.symm⟩ ?_
          rw [List.length_drop]
          omega
        refine .inr ⟨_, (List.take_append_drop _ _).symm, hsuffix, ?_⟩
        exact List.all_eq_true.2 fun d hd => List.all_eq_true.1 hblank d (hsuffix.subset hd)
    · exact hself _
  · have hb' := eq_false_of_ne_true hb
    rw [moveTo, hb', realign_of_not_hasBreak _ hb']
    exact hself lead

/-- Such a move keeps all but white space that is no break. -/
theorem ShiftsEnd.solid_eq {old new : Text} (h : ShiftsEnd old new) : solid new = solid old := by
  rcases h with ⟨k, rfl⟩ | ⟨cut, rfl, -, hblank⟩
  · rw [solid_append, solid_of_all_isBlank (all_isBlank_replicate k), List.append_nil]
  · rw [solid_append, solid_of_all_isBlank hblank, List.append_nil]

end YamlIndent
