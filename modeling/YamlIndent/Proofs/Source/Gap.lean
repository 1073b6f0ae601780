import YamlIndent.Proofs.Text.Line
import YamlIndent.Source.Place

/-!
# Gaps

What stands in front of a token is a gap: blanks, breaks and comments. A gap that ends inside a
comment has nothing behind it; any other is followed by a token, or by the end of the source.

## Main definitions

* `isGap`, `inComment`: gaps, and whether one ends inside a comment.
* `startsToken`: a text that begins with a token.
* `GapBefore`: a gap that goes just as far as the text behind it lets it.

## Main results

* `splitGap_append_iff`: a gap is split from the text behind it just where they were put together.
* `gapBefore_of_splitGap`: what is split off is a gap.
* `GapBefore.all_isBlank_lastLine`: the last line in front of a token is blank.
-/

namespace YamlIndent

/-- Whether a text is a gap; `comment` says that a comment has begun already. -/
def isGap (comment : Bool) : Text → Bool
  | [] => true
  | c :: cs =>
    if isBreak c then isGap false cs
    else (comment || isBlank c || c == '#') && isGap (comment || c == '#') cs

/-- Whether a gap ends inside a comment. -/
def inComment (comment : Bool) : Text → Bool
  | [] => comment
  | c :: cs => inComment (!isBreak c && (comment || c == '#')) cs

/-- A text that begins with a token: no blank, no break and no comment. -/
def startsToken : Text → Bool
  | [] => false
  | c :: _ => !(isBlank c || isBreak c || c == '#')

/-- A gap in front of a text goes on to the token there, or to the end of the source. -/
def GapBefore (gap rest : Text) : Prop :=
  isGap false gap ∧ (rest = [] ∨ inComment false gap = false ∧ startsToken rest)

variable {comment : Bool} {gap rest : Text}

theorem isGap_append (comment : Bool) (a b : Text) :
    isGap comment (a ++ b) = (isGap comment a && isGap (inComment comment a) b) := by
  induction a generalizing comment with
  | nil => rfl
  | cons c a ih =>
    rw [List.cons_append, isGap, isGap, inComment]
    by_cases hc : isBreak c
    · rw [if_pos hc, if_pos hc, ih, hc]
      rfl
    · rw [if_neg hc, if_neg hc, ih, eq_false_of_ne_true hc, Bool.and_assoc]
      rfl

theorem inComment_append (comment : Bool) (a b : Text) :
    inComment comment (a ++ b) = inComment (inComment comment a) b := by
  induction a generalizing comment with
  | nil => rfl
  | cons c a ih => exact ih _

theorem isGap_of_all_isBlank (comment : Bool) {t : Text} (h : t.all isBlank) :
    isGap comment t := by
  induction t generalizing comment with
  | nil => rfl
  | cons c t ih =>
    rw [List.all_cons, Bool.and_eq_true] at h
    rw [isGap, isBreak_eq_false_of_isBlank h.1, if_neg Bool.false_ne_true, h.1, ih _ h.2]
    simp

theorem inComment_of_all_isBlank (comment : Bool) {t : Text} (h : t.all isBlank) :
    inComment comment t = comment := by
  induction t generalizing comment with
  | nil => rfl
  | cons c t ih =>
    rw [List.all_cons, Bool.and_eq_true] at h
    have hc : (c == '#') = false := by
      rw [beq_eq_false_iff_ne]
      rintro rfl
      cases h.1
    rw [inComment, isBreak_eq_false_of_isBlank h.1, hc, ih _ h.2, Bool.or_false]
    rfl

/-- Breaks belong to the gap they are in, and end its comment. -/
theorem isGap_of_all_isBreak (comment : Bool) {b : Char} {breaks : Text} (hb : isBreak b)
    (h : breaks.all isBreak) :
    isGap comment (b :: breaks) ∧ inComment comment (b :: breaks) = false := by
  rw [isGap, if_pos hb, inComment, hb]
  induction breaks with
  | nil => exact ⟨rfl, rfl⟩
  | cons c breaks ih =>
    rw [List.all_cons, Bool.and_eq_true] at h
    rw [isGap, if_pos h.1, inComment, h.1]
    exact ih h.2

/-! ### Splitting gaps off -/

theorem splitGap_of_isGap (h : isGap comment gap) (rest : Text) :
    splitGap comment (gap ++ rest) = (gap ++ (splitGap (inComment comment gap) rest).1,
      (splitGap (inComment comment gap) rest).2) := by
  induction gap generalizing comment with
  | nil => rfl
  | cons c gap ih =>
    rw [isGap] at h
    rw [List.cons_append, splitGap, inComment]
    by_cases hc : isBreak c
    · rw [if_pos hc] at h
      rw [if_pos hc, ih h, hc]
      rfl
    · rw [if_neg hc, Bool.and_eq_true] at h
      rw [if_neg hc, if_pos h.1, eq_false_of_ne_true hc]
      simp only [ih h.2]
      rfl

/-- A gap ends inside of a text, whatever is behind it, or goes on to what is behind. -/
theorem splitGap_append_cases (comment : Bool) (t : Text) :
    (∃ gap rest, t = gap ++ rest ∧ rest ≠ [] ∧
      ∀ next, splitGap comment (t ++ next) = (gap, rest ++ next)) ∨ isGap comment t := by
  induction t generalizing comment with
  | nil => exact .inr rfl
  | cons c t ih =>
    have hcons (comment' : Bool) (hs : ∀ next, splitGap comment (c :: (t ++ next)) =
        (c :: (splitGap comment' (t ++ next)).1, (splitGap comment' (t ++ next)).2))
        (hg : isGap comment' t → isGap comment (c :: t)) :
        (∃ gap rest, c :: t = gap ++ rest ∧ rest ≠ [] ∧
          ∀ next, splitGap comment (c :: t ++ next) = (gap, rest ++ next)) ∨
          isGap comment (c :: t) := by
      rcases ih comment' with ⟨gap, rest, rfl, hr, h⟩ | h
      · refine .inl ⟨c :: gap, rest, rfl, hr, fun next => ?_⟩
        rw [List.cons_append, hs, h]
      · exact .inr (hg h)
    by_cases hc : isBreak c
    · refine hcons false (fun next => by rw [splitGap, if_pos hc]) fun h => ?_
      rwa [isGap, if_pos hc]
    · by_cases hg : (comment || isBlank c || c == '#') = true
      · refine hcons _ (fun next => by rw [splitGap, if_neg hc, if_pos hg]) fun h => ?_
        rw [isGap, if_neg hc, hg]
        exact h
      · refine .inl ⟨[], c :: t, rfl, List.cons_ne_nil _ _, fun next => ?_⟩
        rw [List.cons_append, splitGap, if_neg hc, if_neg hg]

theorem splitGap_of_startsToken {t : Text} (h : startsToken t) : splitGap false t = ([], t) := by
  cases t with
  | nil => cases h
  | cons c t =>
    simp only [startsToken, Bool.not_eq_true', Bool.or_eq_false_iff] at h
    simp [splitGap, h.1.1, h.1.2, h.2]

/-- What is split off in front of a token is a gap. -/
theorem isGap_of_splitGap {t : Text} (h : splitGap comment t = (gap, rest)) :
    isGap comment gap ∧ (rest = [] ∨ inComment comment gap = false ∧ startsToken rest) := by
  induction t generalizing comment gap with
  | nil =>
    cases h
    exact ⟨rfl, .inl rfl⟩
  | cons c t ih =>
    rw [splitGap] at h
    by_cases hc : isBreak c
    · rw [if_pos hc] at h
      cases h
      rw [isGap, inComment, if_pos hc, hc]
      exact ih rfl
    · rw [if_neg hc] at h
      by_cases hg : (comment || isBlank c || c == '#') = true
      · rw [if_pos hg] at h
        cases h
        rw [isGap, inComment, if_neg hc, hg, Bool.true_and, eq_false_of_ne_true hc]
        exact ih rfl
      · rw [if_neg hg] at h
        cases h
        simp only [Bool.or_eq_true, not_or, Bool.not_eq_true] at hg hc
        refine ⟨rfl, .inr ⟨hg.1.1, ?_⟩⟩
        simp [startsToken, hc, hg.1.2, hg.2]

theorem gapBefore_of_splitGap {t : Text} (h : splitGap false t = (gap, rest)) :
    GapBefore gap rest :=
  isGap_of_splitGap h

/-- A gap is split from the text behind it just where the two were put together. -/
theorem splitGap_append_iff : splitGap false (gap ++ rest) = (gap, rest) ↔ GapBefore gap rest := by
  constructor
  · exact gapBefore_of_splitGap
  · rintro ⟨hg, rfl | ⟨hc, ht⟩⟩
    · rw [splitGap_of_isGap hg, splitGap, List.append_nil]
    · rw [splitGap_of_isGap hg, hc, splitGap_of_startsToken ht, List.append_nil]

namespace GapBefore

theorem isGap_eq (h : GapBefore gap rest) : isGap false gap = true := h.1

theorem startsToken (h : GapBefore gap rest) (hr : rest ≠ []) : startsToken rest := by
  rcases h.2 with rfl | ⟨-, ht⟩
  · exact absurd rfl hr
  · exact ht

theorem inComment_eq (h : GapBefore gap rest) (hr : rest ≠ []) :
    YamlIndent.inComment false gap = false := by
  rcases h.2 with rfl | ⟨hc, -⟩
  · exact absurd rfl hr
  · exact hc

theorem append (h : GapBefore gap rest) (hr : rest ≠ []) (more : Text) :
    GapBefore gap (rest ++ more) := by
  cases rest with
  | nil => exact absurd rfl hr
  | cons c rest => exact ⟨h.1, .inr ⟨h.inComment_eq hr, h.startsToken hr⟩⟩

/-- One text splits into a gap and the rest in one way only. -/
theorem unique {gap' rest' : Text} (h : GapBefore gap rest) (h' : GapBefore gap' rest')
    (he : gap ++ rest = gap' ++ rest') : gap = gap' ∧ rest = rest' := by
  have hs := splitGap_append_iff.2 h
  rw [he, splitGap_append_iff.2 h', Prod.mk.injEq] at hs
  exact ⟨hs.1.symm, hs.2.symm⟩

end GapBefore

/-- A gap in front of a token is empty if a token begins with it. -/
theorem eq_nil_of_isGap {gap rest : Text} (hg : isGap false gap) (ht : startsToken (gap ++ rest)) :
    gap = [] := by
  cases gap with
  | nil => rfl
  | cons c gap =>
    rw [List.cons_append, startsToken, Bool.not_eq_true', Bool.or_eq_false_iff,
      Bool.or_eq_false_iff] at ht
    rw [isGap, ht.1.2, if_neg Bool.false_ne_true, ht.1.1, ht.2] at hg
    cases hg

/-! ### The lines of a gap -/

/-- A comment goes on to the end of its line. -/
theorem isGap_true_of_not_hasBreak {t : Text} (h : hasBreak t = false) :
    isGap true t ∧ inComment true t = true := by
  induction t with
  | nil => exact ⟨rfl, rfl⟩
  | cons c t ih =>
    rw [hasBreak_cons, Bool.or_eq_false_iff] at h
    rw [isGap, inComment, h.1]
    exact ih h.2

theorem isGap_comment {blanks comment : Text} (hb : blanks.all isBlank)
    (hc : hasBreak comment = false) :
    isGap false (blanks ++ '#' :: comment) ∧
      inComment false (blanks ++ '#' :: comment) = true := by
  rw [isGap_append, inComment_append, inComment_of_all_isBlank false hb,
    isGap_of_all_isBlank false hb]
  exact isGap_true_of_not_hasBreak hc

/-- A line of a gap is blank, or blanks and a comment. -/
theorem isGap_line_cases {line : Text} (hb : hasBreak line = false) (hg : isGap false line) :
    (line.all isBlank ∧ inComment false line = false) ∨ ∃ blanks comment, blanks.all isBlank ∧
      hasBreak comment = false ∧ line = blanks ++ '#' :: comment := by
  induction line with
  | nil => exact .inl ⟨rfl, rfl⟩
  | cons c line ih =>
    rw [hasBreak_cons, Bool.or_eq_false_iff] at hb
    by_cases hh : c = '#'
    · subst hh
      exact .inr ⟨[], line, rfl, hb.2, rfl⟩
    · have hh' : (c == '#') = false := beq_eq_false_iff_ne.2 hh
      rw [isGap, hb.1, hh', if_neg Bool.false_ne_true] at hg
      simp only [Bool.false_or, Bool.or_false, Bool.and_eq_true] at hg
      rcases ih hb.2 hg.2 with ⟨h1, h2⟩ | ⟨blanks, comment, h1, h2, rfl⟩
      · refine .inl ⟨by rw [List.all_cons, hg.1, h1]; rfl, ?_⟩
        rw [inComment, hb.1, hh']
        exact h2
      · exact .inr ⟨c :: blanks, comment, by rw [List.all_cons, hg.1, h1]; rfl, h2, rfl⟩

theorem all_isBlank_of_isGap {line : Text} (hb : hasBreak line = false) (hg : isGap false line)
    (hc : inComment false line = false) : line.all isBlank := by
  rcases isGap_line_cases hb hg with ⟨h, -⟩ | ⟨blanks, comment, h1, h2, rfl⟩
  · exact h
  · rw [(isGap_comment h1 h2).2] at hc
    cases hc

theorem isGap_append_break (comment : Bool) (front : Text) {c : Char} (hc : isBreak c) (t : Text) :
    isGap comment (front ++ c :: t) = (isGap comment front && isGap false t) := by
  rw [isGap_append, isGap, if_pos hc]

theorem inComment_append_break (comment : Bool) (front : Text) {c : Char} (hc : isBreak c)
    (t : Text) : inComment comment (front ++ c :: t) = inComment false t := by
  rw [inComment_append, inComment, hc]
  rfl

/-- The last line of a gap in front of a token holds blanks only. -/
theorem GapBefore.all_isBlank_lastLine (h : GapBefore gap rest) (hr : rest ≠ []) :
    (lastLine gap).all isBlank := by
  have hg := h.isGap_eq
  have hc := h.inComment_eq hr
  by_cases hb : hasBreak gap
  · obtain ⟨front, c, hbr, he⟩ := exists_eq_append_lastLine hb
    rw [he, isGap_append_break false front hbr, Bool.and_eq_true] at hg
    rw [he, inComment_append_break false front hbr] at hc
    exact all_isBlank_of_isGap (hasBreak_lastLine gap) hg.2 hc
  · have hb' : hasBreak gap = false := by simpa using hb
    rw [lastLine_of_not_hasBreak hb']
    exact all_isBlank_of_isGap hb' hg hc

theorem not_mem_of_all_isBlank {t : Text} (h : t.all isBlank) : '#' ∉ t :=
  fun hm => absurd (List.all_eq_true.1 h _ hm) (by decide)

/-- No comment is open in front of a token. -/
theorem GapBefore.not_mem_lastLine (h : GapBefore gap rest) (hr : rest ≠ []) :
    '#' ∉ lastLine gap :=
  not_mem_of_all_isBlank (h.all_isBlank_lastLine hr)

end YamlIndent
