import YamlIndent.Proofs.Blanks

/-!
# Blanks behind ink

Most of the blanks that formatting changes stand in front of all ink of their line. Of those that
stand behind ink there are never more in the formatted text than in the text: a gap behind a `-` may
be cut to one blank, and a comment that a document begins with loses its gap.

## Main definitions

* `innerBlanks`: how many blanks of a text stand behind ink on their line.

## Main results

* `innerBlanks_moveTo`: a lead that is moved has as many such blanks as before.
* `innerBlanks_valueLead_le`: the lead of a value that is laid out has no more of them.
* `innerBlanks_realignDocument_lt`: the lead of a document that begins with a comment has fewer.
-/

namespace YamlIndent

variable {style : Style} {head : Head} {column k : Nat} {lead rest : Text} {b : Bool}

/-- Whether a line has ink behind a text, if it has ink in front of the text or has none. -/
def inked : Bool → Text → Bool
  | b, [] => b
  | b, c :: t => inked (if isBlank c then b else !isBreak c) t

/-- How many blanks of a text stand behind ink on their line, if the line has ink in front of the
text or has none. -/
def innerBlanks : Bool → Text → Nat
  | _, [] => 0
  | b, c :: t => (isBlank c && b).toNat + innerBlanks (if isBlank c then b else !isBreak c) t

/-- Behind a break no blank stands behind ink until ink follows. -/
theorem innerBlanks_cons_break {br : Char} (h : isBreak br) (b : Bool) (t : Text) :
    innerBlanks b (br :: t) = innerBlanks false t := by
  have hblank : isBlank br = false := by
    rw [← Bool.not_eq_true]
    intro hb
    rw [isBreak_eq_false_of_isBlank hb] at h
    cases h
  rw [innerBlanks, hblank, h]
  exact Nat.zero_add _

/-- How many blanks stand behind ink on some later lines. -/
def laterBlanks : List (Char × Text) → Nat
  | [] => 0
  | l :: later => innerBlanks false l.2 + laterBlanks later

theorem inked_append (b : Bool) (s t : Text) : inked b (s ++ t) = inked (inked b s) t := by
  induction s generalizing b with
  | nil => rfl
  | cons c s ih => exact ih _

theorem innerBlanks_append (b : Bool) (s t : Text) :
    innerBlanks b (s ++ t) = innerBlanks b s + innerBlanks (inked b s) t := by
  induction s generalizing b with
  | nil => exact (Nat.zero_add _).symm
  | cons c s ih =>
    rw [List.cons_append, innerBlanks, innerBlanks, ih, Nat.add_assoc]
    rfl

/-- Whether a line has ink is told by the ink. -/
theorem inked_ink (b : Bool) (t : Text) : inked b (ink t) = inked b t := by
  induction t generalizing b with
  | nil => rfl
  | cons c t ih =>
    cases hc : isBlank c with
    | true =>
      rw [ink, List.filter_cons_of_neg (by simp [hc]), inked, hc, if_pos rfl]
      exact ih b
    | false =>
      rw [ink, List.filter_cons_of_pos (by simp [hc]), inked, inked, hc]
      exact ih _

theorem inked_eq_of_ink_eq {s t : Text} (h : ink s = ink t) (b : Bool) : inked b s = inked b t := by
  rw [← inked_ink, h, inked_ink]

theorem innerBlanks_of_all_isBlank {t : Text} (h : t.all isBlank) (b : Bool) :
    innerBlanks b t = b.toNat * t.length := by
  induction t with
  | nil => rfl
  | cons c t ih =>
    rw [List.all_cons, Bool.and_eq_true] at h
    rw [innerBlanks, h.1, if_pos rfl, ih h.2, Bool.true_and, List.length_cons, Nat.mul_add_one,
      Nat.add_comm]

theorem innerBlanks_append_comment {blanks : Text} (h : blanks.all isBlank) (b : Bool)
    (comment : Text) : innerBlanks b (blanks ++ '#' :: comment) =
      b.toNat * blanks.length + innerBlanks true comment := by
  rw [innerBlanks_append, innerBlanks_of_all_isBlank h, innerBlanks]
  exact congrArg _ (Nat.zero_add _)

/-! ### Lines -/

theorem innerBlanks_later {later : List (Char × Text)} (h : ∀ l ∈ later, isBreak l.1) (b : Bool) :
    innerBlanks b (later.flatMap fun (c, line) => c :: line) = laterBlanks later := by
  induction later generalizing b with
  | nil => rfl
  | cons l later ih =>
    obtain ⟨hl, hlater⟩ := List.forall_mem_cons.1 h
    rw [List.flatMap_cons, innerBlanks_append, ih hlater, laterBlanks]
    exact congrArg (· + _) (innerBlanks_cons_break hl b l.2)

/-- The blanks behind ink are counted line by line. -/
theorem innerBlanks_eq_add (b : Bool) (t : Text) :
    innerBlanks b t = innerBlanks b (cutLines t).1 + laterBlanks (cutLines t).2 := by
  conv_lhs => rw [← joinLines_cutLines t]
  rw [joinLines, innerBlanks_append, innerBlanks_later fun l hl => ((cutLines_lines t).2 l hl).1]

theorem innerBlanks_mapLines {f g : Text → Text}
    (hf : ∀ l, hasBreak l = false → hasBreak (f l) = false)
    (hg : ∀ l, hasBreak l = false → hasBreak (g l) = false) (b : Bool) (t : Text) :
    innerBlanks b (mapLines f g t) = innerBlanks b (f (cutLines t).1) +
      laterBlanks ((cutLines t).2.map fun l => (l.1, g l.2)) := by
  rw [innerBlanks_eq_add, cutLines_mapLines hf hg]

/-- A comment that starts a line has no blanks behind ink in front of it. -/
theorem innerBlanks_placeComment {line : Text} (hb : hasBreak line = false) (hg : isGap false line)
    (column : Int) : innerBlanks false (placeComment column line) = innerBlanks false line := by
  rcases isGap_line_cases hb hg with ⟨h, -⟩ | ⟨blanks, comment, h, -, rfl⟩
  · rw [placeComment_of_all_isBlank h]
  · rw [placeComment_append_comment h, spaces,
      innerBlanks_append_comment (all_isBlank_replicate _), innerBlanks_append_comment h]
    exact congrArg (· + _) ((Nat.zero_mul _).trans (Nat.zero_mul _).symm)

theorem laterBlanks_placeComment {later : List (Char × Text)}
    (h : ∀ l ∈ later, hasBreak l.2 = false ∧ isGap false l.2) (column : Int) :
    laterBlanks (later.map fun l => (l.1, placeComment column l.2)) = laterBlanks later := by
  induction later with
  | nil => rfl
  | cons l later ih =>
    obtain ⟨hl, hlater⟩ := List.forall_mem_cons.1 h
    rw [List.map_cons, laterBlanks, laterBlanks, ih hlater, innerBlanks_placeComment hl.1 hl.2]

theorem laterBlanks_cutLines (h : isGap false lead) (column : Int) :
    laterBlanks ((cutLines lead).2.map fun l => (l.1, placeComment column l.2)) =
      laterBlanks (cutLines lead).2 :=
  laterBlanks_placeComment
    (fun l hl => ⟨((cutLines_lines lead).2 l hl).2, (isGap_cutLines h).2 l hl⟩) column

/-! ### Leads -/

theorem innerBlanks_realign (column : Int) (h : isGap false lead) (b : Bool) :
    innerBlanks b (realign column lead) = innerBlanks b lead := by
  rw [realign_eq_mapLines,
    innerBlanks_mapLines (f := id) (fun _ hl => hl) (hasBreak_placeComment column),
    laterBlanks_cutLines h, innerBlanks_eq_add b lead]
  rfl

theorem innerBlanks_moveTo (h : StandsAt lead k) (hg : isGap false lead) (d : Nat) (b : Bool) :
    innerBlanks b (moveTo d lead) = innerBlanks b lead := by
  obtain ⟨front, br, hbr, rfl⟩ := h.exists_eq_append
  rw [isGap_append_break false front hbr, Bool.and_eq_true] at hg
  have hlast (n : Nat) (b : Bool) : innerBlanks b (br :: List.replicate n ' ') = 0 := by
    rw [innerBlanks_cons_break hbr, innerBlanks_of_all_isBlank (all_isBlank_replicate n)]
    exact Nat.zero_mul _
  rw [moveTo_append hbr, innerBlanks_append, innerBlanks_append, innerBlanks_realign d hg.1, hlast,
    hlast]

theorem innerBlanks_valueLead_le (style : Style) (head : Head) (column : Nat) (h : OnSpaces lead)
    (hg : GapBefore lead rest) (hr : rest ≠ []) (b : Bool) :
    innerBlanks b (style.valueLead head column lead) ≤ innerBlanks b lead := by
  rw [Style.valueLead]
  by_cases hb : hasBreak lead
  · obtain ⟨k, hk⟩ := h hb
    rw [if_pos hb]
    exact Nat.le_of_eq (innerBlanks_moveTo hk hg.1 _ b)
  · rw [if_neg hb]
    split
    · rename_i hs
      have hblank := hg.all_isBlank_lastLine hr
      rw [lastLine_of_not_hasBreak (eq_false_of_ne_true hb)] at hblank
      rw [innerBlanks_of_all_isBlank hblank, innerBlanks_of_all_isBlank rfl]
      exact Nat.mul_le_mul_left _ (List.length_pos_iff.2 hs.2.2)
    · exact Nat.le_refl _

/-- What the first line of the lead of a document loses. -/
theorem innerBlanks_realignDocument (h : isGap false lead) (b : Bool) :
    innerBlanks b (realignDocument 0 lead) =
      innerBlanks b (placeComment 0 (cutLines lead).1) + laterBlanks (cutLines lead).2 := by
  rw [realignDocument_eq_mapLines,
    innerBlanks_mapLines (hasBreak_placeComment 0) (hasBreak_placeComment 0),
    laterBlanks_cutLines h]

theorem innerBlanks_realignDocument_le (h : isGap false lead) (b : Bool) :
    innerBlanks b (realignDocument 0 lead) ≤ innerBlanks b lead := by
  rw [innerBlanks_realignDocument h, innerBlanks_eq_add b lead]
  refine Nat.add_le_add_right ?_ _
  rcases isGap_line_cases (cutLines_lines lead).1 (isGap_cutLines h).1 with
    ⟨hb, -⟩ | ⟨blanks, comment, hb, -, he⟩
  · exact Nat.le_of_eq (congrArg _ (placeComment_of_all_isBlank hb _))
  · rw [he, placeComment_append_comment hb, spaces,
      innerBlanks_append_comment (all_isBlank_replicate _), innerBlanks_append_comment hb]
    exact Nat.add_le_add_right (Nat.mul_le_mul_left _ (Nat.zero_le _)) _

/-- The lead of a document that begins with a comment behind a gap loses the gap, which is behind
ink if the line has any. -/
theorem innerBlanks_realignDocument_lt (h : isGap false lead) (hc : '#' ∈ firstLine lead)
    (he : endsToken lead) : innerBlanks true (realignDocument 0 lead) < innerBlanks true lead := by
  rw [innerBlanks_realignDocument h, innerBlanks_eq_add true lead]
  refine Nat.add_lt_add_right ?_ _
  rcases isGap_line_cases (cutLines_lines lead).1 (isGap_cutLines h).1 with
    ⟨hb, -⟩ | ⟨blanks, comment, hb, -, hfirst⟩
  · exact absurd hc (not_mem_of_all_isBlank hb)
  · have hpos : 0 < blanks.length := by
      rw [List.length_pos_iff]
      rintro rfl
      rw [← joinLines_cutLines lead, joinLines, hfirst] at he
      cases he
    rw [hfirst, placeComment_append_comment hb, spaces,
      innerBlanks_append_comment (all_isBlank_replicate _), innerBlanks_append_comment hb]
    simpa using hpos

end YamlIndent
