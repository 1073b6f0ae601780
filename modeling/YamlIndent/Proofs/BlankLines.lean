import YamlIndent.Proofs.Source.Fork
import YamlIndent.Proofs.Tree.Offset

/-!
# Blank and comment lines do not matter

A line of blanks, with or without a comment, may be put in front of any line of a source. The source
is read as before, and its tree is the same but for one lead, which has the line put into it.

## Main definitions

* `Padded`: a lead with a text put into it, or left as it is.

## Main results

* `likeness_padded`: the places of the two sources are alike.
* `exists_of_padded`: by their lengths, just one lead is padded.
* `parse_insert_line`: what is read of a source with a line put into it.
-/

namespace YamlIndent

/-! ### Lines without a token -/

/-- A line of blanks, with or without a comment behind them, and the line feed at its end. -/
def BlankLine (line : Text) : Prop :=
  ∃ blanks comment, blanks.all isBlank ∧
    (comment = [] ∨ ∃ t, comment = '#' :: t ∧ hasBreak t = false) ∧
    line = blanks ++ (comment ++ ['\n'])

/-- A gap that leaves the reader at the start of a line, outside of a comment. -/
structure GapLine (line : Text) : Prop where
  gap : isGap false line
  closed : inComment false line = false
  start : lineAfter [] line = []

theorem BlankLine.gapLine {line : Text} (h : BlankLine line) : GapLine line := by
  obtain ⟨blanks, comment, hb, hc, rfl⟩ := h
  have hgap : isGap false (blanks ++ comment) := by
    rcases hc with rfl | ⟨t, rfl, ht⟩
    · rw [List.append_nil]
      exact isGap_of_all_isBlank false hb
    · exact (isGap_comment hb ht).1
  rw [← List.append_assoc]
  refine ⟨?_, inComment_append_break false _ rfl [], ?_⟩
  · rw [isGap_append_break false _ rfl, hgap]
    rfl
  · rw [lineAfter_append]
    rfl

theorem BlankLine.ne_nil {line : Text} (h : BlankLine line) : line ≠ [] := by
  obtain ⟨blanks, comment, -, -, rfl⟩ := h
  simp

variable {line : Text}

theorem splitGap_append_break {comment : Bool} {gap : Text} (h : isGap comment gap) {c : Char}
    (hc : isBreak c) (t : Text) : splitGap comment (gap ++ c :: t) =
      (gap ++ c :: (splitGap false t).1, (splitGap false t).2) := by
  rw [splitGap_of_isGap h, splitGap, if_pos hc]

theorem GapLine.splitGap_append (h : GapLine line) (t : Text) :
    splitGap false (line ++ t) = (line ++ (splitGap false t).1, (splitGap false t).2) := by
  rw [splitGap_of_isGap h.gap, h.closed]

theorem GapLine.lineAfter_append (h : GapLine line) (t : Text) :
    lineAfter [] (line ++ t) = lineAfter [] t := by
  rw [YamlIndent.lineAfter_append, h.start]

/-! ### Reading in step -/

/-- A lead with `line` put into it, or left as it is. -/
def Padded (line lead lead' : Text) : Prop :=
  lead = lead' ∨ ∃ u v, lead = u ++ v ∧ lead' = u ++ (line ++ v)

/-- A gap ends in front of the line that is put in, or is padded with it and ends where it ended. -/
theorem GapLine.gap_cases (h : GapLine line) {c : Char} (hc : isBreak c) {after : Text}
    {p p' : Place} (hp : Fork (c :: after) (c :: (line ++ after)) p p') :
    (p.gap.1 = p'.gap.1 ∧ Fork (c :: after) (c :: (line ++ after)) p.gap.2 p'.gap.2) ∨
      ∃ u v, hasBreak u ∧ p.gap.1 = u ++ v ∧ p'.gap.1 = u ++ (line ++ v) ∧ p.gap.2 = p'.gap.2 := by
  rcases hp.gap_cases with ⟨hlead, hfork, -⟩ | ⟨gap, hg, hr, hr'⟩
  · exact .inl ⟨hlead, hfork⟩
  · have hline (front t : Text) : lineAfter front (gap ++ c :: t) = lineAfter [] t := by
      rw [YamlIndent.lineAfter_append, lineAfter, if_pos hc]
    refine .inr ⟨gap ++ [c], (splitGap false after).1, by simp [hasBreak_cons, hc], ?_, ?_, ?_⟩
    · simp only [Place.gap, hr, splitGap_append_break hg hc, List.append_assoc,
        List.singleton_append]
    · simp only [Place.gap, hr', splitGap_append_break hg hc, h.splitGap_append, List.append_assoc,
        List.singleton_append]
    · simp only [Place.gap, Place.past, hr, hr', splitGap_append_break hg hc, h.splitGap_append,
        hline, h.lineAfter_append]

/-- Places in front of the line that is put in fork, and the places behind it are the same. -/
theorem likeness_padded (h : GapLine line) {c : Char} (hc : isBreak c) (after : Text) :
    Likeness 0 (fun p p' => p = p' ∨ Fork (c :: after) (c :: (line ++ after)) p p')
      (Padded line) where
  line_eq := by
    rintro p p' (rfl | hp)
    · rfl
    · exact hp.line_eq
  sameLine := by
    rintro p p' (rfl | hp)
    · exact .refl _
    · exact hp.sameLine hc hc
  atEnd_eq := by
    rintro p p' (rfl | hp) -
    · rfl
    · obtain ⟨t, ht, ht'⟩ := hp.ahead
      rw [Place.atEnd, Place.atEnd, ht, ht']
      cases t <;> rfl
  past := by
    rintro p p' t r r' (rfl | hp) ht hr hr'
    · exact .inl (by rw [List.append_cancel_left (hr.trans hr'.symm)])
    · exact .inr (hp.past hc ht hr hr')
  lead := by
    rintro p p' (rfl | hp) -
    · exact .inl rfl
    · rcases h.gap_cases hc hp with ⟨hlead, -⟩ | ⟨u, v, -, hu, hu', -⟩
      · exact .inl hlead
      · exact .inr ⟨u, v, hu, hu'⟩
  breaks := by
    rintro p p' (rfl | hp) -
    · rfl
    · rcases h.gap_cases hc hp with ⟨hlead, -⟩ | ⟨u, v, hb, hu, hu', -⟩
      · rw [hlead]
      · rw [hu, hu', hasBreak_append, hasBreak_append, hb, Bool.true_or, Bool.true_or]
  gap := by
    rintro p p' (rfl | hp) -
    · exact .inl rfl
    · rcases h.gap_cases hc hp with ⟨-, hfork⟩ | ⟨u, v, -, -, -, hq⟩
      · exact .inr hfork
      · exact .inl hq
  nil := .inl rfl

/-- A source with a line put into it is read in step with the source. -/
theorem GapLine.inStep (h : GapLine line) {front : Text} (hf : lastLine front = [])
    (after : Text) : ∃ R, InStep 0 R sourceEnd (Node.Alike (Padded line)) (parse (front ++ after))
      (parse (front ++ (line ++ after))) := by
  by_cases hb : hasBreak front
  · obtain ⟨t, c, hc, he⟩ := exists_eq_append_lastLine hb
    rw [hf] at he
    have hlike := likeness_padded h hc after
    have hstart : Fork (c :: after) (c :: (line ++ after)) (.start (front ++ after))
        (.start (front ++ (line ++ after))) := by
      refine ⟨rfl, t, ?_, ?_⟩ <;> simp [Place.start, he]
    exact ⟨_, hlike.parse (hlike.lead (.inr hstart) (Nat.zero_le _))
      (hlike.gap (.inr hstart) (Nat.zero_le _))⟩
  · have hf' : front = [] := by
      rwa [lastLine_of_not_hasBreak (eq_false_of_ne_true hb)] at hf
    subst hf'
    have hlike := likeness_padded h (c := '\n') rfl after
    refine ⟨_, hlike.parse (.inr ⟨[], (splitGap false after).1, rfl, ?_⟩) (.inl ?_)⟩
    · simp only [Place.gap, Place.start, List.nil_append, h.splitGap_append]
    · simp only [Place.gap, Place.start, Place.past, List.nil_append, h.splitGap_append,
        h.lineAfter_append]

/-! ### The lead that is padded -/

/-- The number of characters of some texts. -/
def totalLength (ts : List Text) : Nat :=
  ts.flatten.length

theorem totalLength_cons (t : Text) (ts : List Text) :
    totalLength (t :: ts) = t.length + totalLength ts := by
  rw [totalLength, List.flatten_cons, List.length_append, totalLength]

theorem totalLength_append (ts us : List Text) :
    totalLength (ts ++ us) = totalLength ts + totalLength us := by
  rw [totalLength, List.flatten_append, List.length_append, totalLength, totalLength]

namespace Node

mutual

/-- A tree is as wide as its leads, and as it is without them. -/
theorem width_eq_bare {α : Type} : (n : Node α) →
    n.width = totalLength (n.preorder.map (·.lead)) + n.bare.width
  | ⟨_, _, lead, text, children⟩ => by
    have := widthAll_eq_bare children
    rw [preorder, List.map_cons, totalLength_cons, bare, width, width, List.length_nil]
    dsimp only
    omega

theorem widthAll_eq_bare {α : Type} : (ns : List (Node α)) →
    widthAll ns = totalLength ((preorderAll ns).map (·.lead)) + widthAll (bareAll ns)
  | [] => rfl
  | n :: ns => by
    have hn := width_eq_bare n
    have hns := widthAll_eq_bare ns
    rw [preorderAll, List.map_append, totalLength_append, bareAll, widthAll, widthAll]
    omega

end

end Node

theorem Padded.length_eq {lead lead' : Text} (h : Padded line lead lead') :
    lead = lead' ∨ lead'.length = lead.length + line.length := by
  rcases h with rfl | ⟨u, v, rfl, rfl⟩
  · exact .inl rfl
  · right
    simp only [List.length_append]
    omega

/-- Leads that are padded are as wide as before, or wider. -/
theorem totalLength_le_of_padded {as bs : List Text} (h : List.Forall₂ (Padded line) as bs) :
    totalLength as ≤ totalLength bs := by
  induction h with
  | nil => exact Nat.le_refl _
  | cons hab _ ih =>
    rw [totalLength_cons, totalLength_cons]
    rcases hab.length_eq with rfl | hlen <;> omega

/-- Leads that are as wide as before are not padded. -/
theorem eq_of_padded (hl : line ≠ []) {as bs : List Text} (h : List.Forall₂ (Padded line) as bs)
    (hlen : totalLength bs = totalLength as) : as = bs := by
  have hpos := List.length_pos_iff.2 hl
  induction h with
  | nil => rfl
  | cons hab h ih =>
    have hle := totalLength_le_of_padded h
    rw [totalLength_cons, totalLength_cons] at hlen
    rcases hab.length_eq with rfl | hlen'
    · rw [ih (by omega)]
    · omega

/-- Of leads that are wider by one line, just one is padded with it. -/
theorem exists_of_padded (hl : line ≠ []) {as bs : List Text}
    (h : List.Forall₂ (Padded line) as bs)
    (hlen : totalLength bs = totalLength as + line.length) :
    ∃ xs u v ys, as = xs ++ (u ++ v) :: ys ∧ bs = xs ++ (u ++ (line ++ v)) :: ys := by
  have hpos := List.length_pos_iff.2 hl
  induction h with
  | nil =>
    rw [Nat.left_eq_add] at hlen
    omega
  | cons hab h ih =>
    rw [totalLength_cons, totalLength_cons] at hlen
    rcases hab with rfl | ⟨u, v, rfl, rfl⟩
    · obtain ⟨xs, u, v, ys, rfl, rfl⟩ := ih (by omega)
      exact ⟨_ :: xs, u, v, ys, rfl, rfl⟩
    · simp only [List.length_append] at hlen
      rw [eq_of_padded hl h (by omega)]
      exact ⟨[], u, v, _, rfl, rfl⟩

/-! ### The source with the line -/

/-- A line of blanks, with or without a comment behind them, may be put in front of any line: the
source is read to the same tree but for one lead, which has the line put into it, or is rejected for
the same fault. -/
theorem parse_insert_line (front : Text) {line : Text} (hf : lastLine front = [])
    (hl : BlankLine line) (after : Text) :
    (parse (front ++ (line ++ after))).isOk = (parse (front ++ after)).isOk ∧
      (∀ t, parse (front ++ after) = .ok t → ∃ t', parse (front ++ (line ++ after)) = .ok t' ∧
        t'.bare = t.bare ∧ ∃ xs u v ys, t.preorder.map (·.lead) = xs ++ (u ++ v) :: ys ∧
          t'.preorder.map (·.lead) = xs ++ (u ++ (line ++ v)) :: ys) ∧
      ∀ r, parse (front ++ after) = .error r → ∃ r', parse (front ++ (line ++ after)) = .error r' ∧
        r'.fault.message = r.fault.message := by
  obtain ⟨R, hstep⟩ := hl.gapLine.inStep hf after
  cases h : parse (front ++ after) with
  | ok t =>
    obtain ⟨t', ht', halike⟩ := hstep.exists_ok h
    refine ⟨by rw [ht']; rfl, ?_, fun r hr => by cases hr⟩
    rintro _ ⟨⟩
    refine ⟨t', ht', halike.bare_eq.symm, exists_of_padded hl.ne_nil halike.leads ?_⟩
    have hw := Node.width_of_print t (print_of_parse h)
    have hw' := Node.width_of_print t' (print_of_parse ht')
    rw [Node.width_eq_bare] at hw hw'
    rw [halike.bare_eq] at hw
    simp only [List.length_append] at hw hw'
    omega
  | error r =>
    obtain ⟨r', hr', hfault, -⟩ := hstep.exists_error h (Nat.zero_le _)
    refine ⟨by rw [hr']; rfl, (fun t ht => by cases ht), ?_⟩
    rintro _ ⟨⟩
    exact ⟨r', hr', by rw [hfault]⟩

/-- A comment between a key and its value, further out than both, and blanks in front of a token
that opens no block. -/
theorem parse_insert_line_comment :
    (BlankLine "\t# c\n".toList ∧ ∃ t t', parse "- a:\n    b\n".toList = .ok t ∧
      parse "- a:\n\t# c\n    b\n".toList = .ok t' ∧ t'.bare = t.bare) ∧
    BlankLine "  \n".toList ∧ ∃ r r', parse "a: 1\n b\n".toList = .error r ∧
      parse "a: 1\n  \n b\n".toList = .error r' ∧ r'.fault.message = r.fault.message := by
  have hcomment : BlankLine "\t# c\n".toList :=
    ⟨['\t'], "# c".toList, rfl, .inr ⟨" c".toList, rfl, rfl⟩, rfl⟩
  have hblanks : BlankLine "  \n".toList := ⟨[' ', ' '], [], rfl, .inl rfl, rfl⟩
  refine ⟨⟨hcomment, ?_⟩, hblanks, ?_⟩
  · have h : (parse ("- a:\n".toList ++ "    b\n".toList)).isOk := by decide +kernel
    obtain ⟨t, ht⟩ := exists_eq_ok_of_isOk h
    obtain ⟨-, hread, -⟩ := parse_insert_line "- a:\n".toList rfl hcomment "    b\n".toList
    obtain ⟨t', ht', hbare, -⟩ := hread t ht
    exact ⟨t, t', ht, ht', hbare⟩
  · have h : (parse ("a: 1\n".toList ++ " b\n".toList)).isOk = false := by decide +kernel
    obtain ⟨r, hr⟩ := exists_eq_error_of_isOk_eq_false h
    obtain ⟨-, -, hread⟩ := parse_insert_line "a: 1\n".toList rfl hblanks " b\n".toList
    obtain ⟨r', hr', hmessage⟩ := hread r hr
    exact ⟨r, r', hr, hr', hmessage⟩

end YamlIndent
