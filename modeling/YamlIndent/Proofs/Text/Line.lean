import YamlIndent.Lead

/-!
# The first and the last line of a text

Two texts put behind one another share a line: the last of the one and the first of the other. What
a token is depends on the rest of its line only, and the column it stands at on the line before it,
so these two lines are all that the text around a token decides.

## Main definitions

* `startsLine`: a text that starts with a break or is empty.
* `firstLine`: a text up to its first break.
* `SameLine`: two texts with one first line.

## Main results

* `lineAfter_eq`: the line that a reader stands on is the last line of what was read.
* `SameLine.append_left`: texts with one first line have one behind any text.
* `firstLine_append_rest`: a text is its first line and what starts the next.
-/

namespace YamlIndent

variable {a b : Text}

@[simp] theorem hasBreak_nil : hasBreak [] = false := rfl

@[simp] theorem hasBreak_append (a b : Text) :
    hasBreak (a ++ b) = (hasBreak a || hasBreak b) :=
  List.any_append

theorem hasBreak_cons (c : Char) (t : Text) : hasBreak (c :: t) = (isBreak c || hasBreak t) :=
  List.any_cons

theorem isBreak_eq_false_of_isBlank {c : Char} (h : isBlank c) : isBreak c = false := by
  simp only [isBlank, Bool.or_eq_true, beq_iff_eq] at h
  rcases h with rfl | rfl <;> rfl

theorem hasBreak_eq_false_of_all_isBlank {t : Text} (h : t.all isBlank) : hasBreak t = false := by
  simp only [hasBreak, List.any_eq_false]
  intro c hc
  rw [isBreak_eq_false_of_isBlank (List.all_eq_true.1 h c hc)]
  exact Bool.false_ne_true

/-! ### The last line -/

/-- The line that a reader stands on is the last line of what was read, with the line read before
in front of it if nothing broke that line off. -/
theorem lineAfter_eq (line t : Text) :
    lineAfter line t = if hasBreak t then (lastLine t).reverse else t.reverse ++ line := by
  have hopen (line t : Text) (h : hasBreak t = false) :
      lineAfter line t = t.reverse ++ line := by
    induction t generalizing line with
    | nil => rfl
    | cons c t ih =>
      rw [hasBreak_cons, Bool.or_eq_false_iff] at h
      rw [lineAfter, h.1, if_neg Bool.false_ne_true, ih _ h.2, List.reverse_cons,
        List.append_assoc]
      rfl
  -- A break makes the line that was read before it forgotten.
  have hbroken (line line' t : Text) (h : hasBreak t) : lineAfter line t = lineAfter line' t := by
    induction t generalizing line line' with
    | nil => cases h
    | cons c t ih =>
      rw [lineAfter, lineAfter]
      by_cases hc : isBreak c
      · rw [if_pos hc, if_pos hc]
      · exact ih _ _ (by simpa [hasBreak_cons, hc] using h)
  by_cases h : hasBreak t
  · rw [if_pos h, lastLine, List.reverse_reverse, hbroken line [] t h]
  · rw [if_neg h, hopen line t (by simpa using h)]

theorem lineAfter_of_hasBreak {line t : Text} (h : hasBreak t) :
    lineAfter line t = (lastLine t).reverse := by
  rw [lineAfter_eq, if_pos h]

theorem lineAfter_of_not_hasBreak {line t : Text} (h : hasBreak t = false) :
    lineAfter line t = t.reverse ++ line := by
  rw [lineAfter_eq, h, if_neg Bool.false_ne_true]

theorem lineAfter_of_all_isBreak {b : Char} {breaks : Text} (hb : isBreak b)
    (h : breaks.all isBreak) (line : Text) : lineAfter line (b :: breaks) = [] := by
  rw [lineAfter, if_pos hb]
  induction breaks with
  | nil => rfl
  | cons c breaks ih =>
    rw [List.all_cons, Bool.and_eq_true] at h
    rw [lineAfter, if_pos h.1, ih h.2]

theorem lastLine_of_not_hasBreak {t : Text} (h : hasBreak t = false) : lastLine t = t := by
  rw [lastLine, lineAfter_of_not_hasBreak h, List.append_nil, List.reverse_reverse]

theorem lastLine_append_of_hasBreak (a : Text) (h : hasBreak b) :
    lastLine (a ++ b) = lastLine b := by
  rw [lastLine, lineAfter_append, lineAfter_of_hasBreak h, List.reverse_reverse]

theorem lastLine_cons_of_isBreak {c : Char} (h : isBreak c) (t : Text) :
    lastLine (c :: t) = lastLine t := by
  rw [lastLine, lineAfter, if_pos h]
  rfl

/-- The last line of a text holds no break. -/
theorem hasBreak_lastLine (t : Text) : hasBreak (lastLine t) = false := by
  have h (line t : Text) (hl : hasBreak line = false) : hasBreak (lineAfter line t) = false := by
    induction t generalizing line with
    | nil => exact hl
    | cons c t ih =>
      rw [lineAfter]
      by_cases hc : isBreak c
      · rw [if_pos hc]
        exact ih _ rfl
      · rw [if_neg hc]
        exact ih _ (by simp [hasBreak_cons, hc, hl])
  have := h [] t rfl
  simpa [lastLine, hasBreak] using this

/-- A text with a break is what stands in front of its last break, that break, and its last line. -/
theorem exists_eq_append_lastLine {t : Text} (h : hasBreak t) :
    ∃ front c, isBreak c ∧ t = front ++ c :: lastLine t := by
  induction t with
  | nil => cases h
  | cons c t ih =>
    by_cases ht : hasBreak t
    · obtain ⟨front, d, hd, he⟩ := ih ht
      refine ⟨c :: front, d, hd, ?_⟩
      rw [← List.singleton_append, lastLine_append_of_hasBreak [c] ht, List.singleton_append,
        List.cons_append, ← he]
    · have ht' : hasBreak t = false := by simpa using ht
      have hc : isBreak c := by simpa [hasBreak_cons, ht'] using h
      refine ⟨[], c, hc, ?_⟩
      rw [lastLine_cons_of_isBreak hc, lastLine_of_not_hasBreak ht', List.nil_append]

theorem lastLine_append_cons (front : Text) {c : Char} (hc : isBreak c) {t : Text}
    (ht : hasBreak t = false) : lastLine (front ++ c :: t) = t := by
  rw [lastLine_append_of_hasBreak front (by simp [hasBreak_cons, hc]),
    lastLine_cons_of_isBreak hc, lastLine_of_not_hasBreak ht]

/-- Behind whole lines, a text on one line is the last line. -/
theorem lastLine_append_of_lastLine_eq_nil {front t : Text} (hf : lastLine front = [])
    (ht : hasBreak t = false) : lastLine (front ++ t) = t := by
  rw [lastLine, List.reverse_eq_nil_iff] at hf
  rw [lastLine, lineAfter_append, hf, lineAfter_of_not_hasBreak ht, List.append_nil,
    List.reverse_reverse]

/-- A text is some whole lines and its last line. -/
theorem exists_lines_append_lastLine (t : Text) :
    ∃ front, t = front ++ lastLine t ∧ lastLine front = [] := by
  by_cases h : hasBreak t
  · obtain ⟨front, c, hc, he⟩ := exists_eq_append_lastLine h
    refine ⟨front ++ [c], by rw [List.append_assoc]; exact he, ?_⟩
    exact lastLine_append_cons front hc rfl
  · exact ⟨[], by rw [lastLine_of_not_hasBreak (eq_false_of_ne_true h)]; rfl, rfl⟩

/-! ### The first line -/

/-- A text that starts with a break or is empty, as what follows a line does. -/
def startsLine : Text → Bool
  | [] => true
  | c :: _ => isBreak c

/-- A text up to its first break. -/
def firstLine (t : Text) : Text :=
  (cutLines t).1

theorem firstLine_cons (c : Char) (t : Text) :
    firstLine (c :: t) = if isBreak c then [] else c :: firstLine t := by
  by_cases h : isBreak c <;> simp [firstLine, cutLines, h]

theorem firstLine_of_startsLine {t : Text} (h : startsLine t) : firstLine t = [] := by
  cases t with
  | nil => rfl
  | cons c t => rw [firstLine_cons, if_pos (show isBreak c = true from h)]

theorem firstLine_append_of_not_hasBreak (h : hasBreak a = false) (b : Text) :
    firstLine (a ++ b) = a ++ firstLine b := by
  induction a with
  | nil => rfl
  | cons c a ih =>
    rw [hasBreak_cons, Bool.or_eq_false_iff] at h
    rw [List.cons_append, firstLine_cons, h.1, if_neg Bool.false_ne_true, ih h.2,
      List.cons_append]

theorem firstLine_append_of_hasBreak (h : hasBreak a) (b : Text) :
    firstLine (a ++ b) = firstLine a := by
  induction a with
  | nil => cases h
  | cons c a ih =>
    rw [List.cons_append, firstLine_cons, firstLine_cons]
    by_cases hc : isBreak c
    · rw [if_pos hc, if_pos hc]
    · rw [if_neg hc, if_neg hc, ih (by simpa [hasBreak_cons, hc] using h)]

/-- The first line of a text holds no break. -/
theorem hasBreak_firstLine (t : Text) : hasBreak (firstLine t) = false := by
  induction t with
  | nil => rfl
  | cons c t ih =>
    rw [firstLine_cons]
    by_cases hc : isBreak c
    · rw [if_pos hc]
      rfl
    · rw [if_neg hc, hasBreak_cons, ih]
      simpa using hc

/-- A text is its first line and a text that starts the next. -/
theorem firstLine_append_rest (t : Text) :
    ∃ rest, startsLine rest ∧ t = firstLine t ++ rest := by
  induction t with
  | nil => exact ⟨[], rfl, rfl⟩
  | cons c t ih =>
    by_cases hc : isBreak c
    · exact ⟨c :: t, hc, by rw [firstLine_cons, if_pos hc, List.nil_append]⟩
    · obtain ⟨rest, hr, ht⟩ := ih
      refine ⟨rest, hr, ?_⟩
      rw [firstLine_cons, if_neg hc, List.cons_append, ← ht]

/-- What begins a text and has no break is not longer than the line of that text. -/
theorem exists_of_append_eq_append {t r a rest : Text} (ht : hasBreak t = false)
    (hr : startsLine rest) (h : t ++ r = a ++ rest) : ∃ s, a = t ++ s ∧ r = s ++ rest := by
  rcases List.append_eq_append_iff.1 h with ⟨s, ha, hrest⟩ | ⟨s, hts, hrest⟩
  · exact ⟨s, ha, hrest⟩
  · cases s with
    | nil => exact ⟨[], by rw [hts, List.append_nil, List.append_nil], hrest.symm⟩
    | cons c s =>
      rw [hrest] at hr
      rw [hts, hasBreak_append, hasBreak_cons, show isBreak c = true from hr, Bool.true_or,
        Bool.or_true] at ht
      cases ht

/-- Two texts that go on alike up to the end of their first line. -/
def SameLine (a b : Text) : Prop :=
  firstLine a = firstLine b

namespace SameLine

theorem refl (a : Text) : SameLine a a := Eq.refl _

theorem symm (h : SameLine a b) : SameLine b a := Eq.symm h

theorem of_startsLine (ha : startsLine a) (hb : startsLine b) : SameLine a b :=
  (firstLine_of_startsLine ha).trans (firstLine_of_startsLine hb).symm

theorem append_left (t : Text) (h : SameLine a b) : SameLine (t ++ a) (t ++ b) := by
  by_cases ht : hasBreak t
  · rw [SameLine, firstLine_append_of_hasBreak ht, firstLine_append_of_hasBreak ht]
  · have ht' : hasBreak t = false := by simpa using ht
    rw [SameLine, firstLine_append_of_not_hasBreak ht', firstLine_append_of_not_hasBreak ht', h]

theorem append_of_hasBreak (ha : hasBreak a) (hb : hasBreak b) (h : SameLine a b)
    (s t : Text) : SameLine (a ++ s) (b ++ t) := by
  rw [SameLine, firstLine_append_of_hasBreak ha, firstLine_append_of_hasBreak hb, h]

/-- Two texts with one first line are that line and two texts that start the next. -/
theorem exists_rest (h : SameLine a b) :
    ∃ line s t, hasBreak line = false ∧ startsLine s ∧ startsLine t ∧ a = line ++ s ∧
      b = line ++ t := by
  obtain ⟨s, hs, ha⟩ := firstLine_append_rest a
  obtain ⟨t, ht, hb⟩ := firstLine_append_rest b
  exact ⟨firstLine a, s, t, hasBreak_firstLine a, hs, ht, ha, by rw [h, ← hb]⟩

/-- A token may end in front of both of two texts, or of none, that go on alike. -/
theorem endsToken_eq (h : SameLine a b) : endsToken a = endsToken b := by
  obtain ⟨line, s, t, -, hs, ht, rfl, rfl⟩ := h.exists_rest
  cases line with
  | cons c line => rfl
  | nil =>
    have hend {t : Text} (ht : startsLine t) : endsToken t = true := by
      cases t with
      | nil => rfl
      | cons c t => rw [endsToken, show isBreak c = true from ht, Bool.or_true]
    rw [List.nil_append, List.nil_append, hend hs, hend ht]

end SameLine

end YamlIndent
