import YamlIndent.Proofs.Text.Line
import YamlIndent.Source.Scalar

/-!
# Scanners stay on their line

The scanners of quotes, plain text, flow collections and keys go through a text character by
character, and stop in front of a break. So what they take has no break, and what starts the next
line is handed on untouched.

## Main definitions

* `before`, `FlowSplit.before`: what a scanner gives, with more text behind it.

## Main results

* `splitQuoted_append_next`, `splitPlain_append_next`, `splitFlow_append_next`,
  `splitKey_append_next`: a scanner reads the line alone.
* `hasBreak_of_splitQuoted`, `hasBreak_splitPlain`, `hasBreak_of_splitFlow`, `hasBreak_of_splitKey`:
  what it takes is on one line.
-/

namespace YamlIndent

variable {line next : Text}

/-! ### Scanners where the line ends -/

theorem endsToken_append_next (line : Text) (hn : startsLine next) :
    endsToken (line ++ next) = endsToken line :=
  SameLine.endsToken_eq (by
    simpa using (SameLine.of_startsLine hn (b := []) rfl).append_left line)

theorem ne_cons_of_startsLine {c : Char} {t : Text} (hn : startsLine next)
    (hc : isBreak c = false) : next ≠ c :: t := by
  rintro rfl
  rw [startsLine, hc] at hn
  cases hn

theorem isBreak_eq_false_of_isQuote {c : Char} (h : isQuote c) : isBreak c = false := by
  simp only [isQuote, Bool.or_eq_true, beq_iff_eq] at h
  rcases h with rfl | rfl <;> rfl

theorem isQuote_eq_false_of_isBreak {c : Char} (h : isBreak c) : isQuote c = false := by
  rw [← Bool.not_eq_true]
  intro hq
  rw [isBreak_eq_false_of_isQuote hq] at h
  cases h

theorem splitSingleQuoted_of_startsLine (hn : startsLine next) : splitSingleQuoted next = none := by
  cases next with
  | nil => rfl
  | cons c cs =>
    have hc : c ≠ '\'' := by
      rintro rfl
      cases hn
    rw [splitSingleQuoted.eq_4 _ _ (fun _ h _ => hc h) hc]
    exact if_pos hn

theorem splitDoubleQuoted_of_startsLine (hn : startsLine next) : splitDoubleQuoted next = none := by
  cases next with
  | nil => rfl
  | cons c cs =>
    have hs : c ≠ '\\' := by
      rintro rfl
      cases hn
    have hc : c ≠ '"' := by
      rintro rfl
      cases hn
    rw [splitDoubleQuoted.eq_5 _ _ (fun h _ => hs h) (fun _ _ h _ => hs h) hc]
    exact if_pos hn

theorem splitPlain_of_startsLine (afterBlank : Bool) (hn : startsLine next) :
    splitPlain afterBlank next = ([], next) := by
  cases next with
  | nil => rfl
  | cons c cs =>
    have hc : isBreak c = true := hn
    rw [splitPlain, hc, Bool.true_or, if_pos rfl]

theorem splitFlow_of_startsLine (afterBlank : Bool) (hn : startsLine next) :
    splitFlow afterBlank next = .ok ⟨[], next, 0⟩ := by
  cases next with
  | nil => rw [splitFlow]
  | cons c cs =>
    have hc : isBreak c = true := hn
    rw [splitFlow, hc, Bool.true_or, if_pos rfl]

theorem splitAtColon_of_startsLine (afterBlank : Bool) (hn : startsLine next) :
    splitAtColon afterBlank next = none := by
  cases next with
  | nil => rfl
  | cons c cs => exact if_pos hn

theorem splitKey_of_startsLine (hn : startsLine next) : splitKey next = none := by
  cases next with
  | nil => rfl
  | cons c cs =>
    rw [splitKey, isQuote_eq_false_of_isBreak hn, splitAtColon_of_startsLine false hn]
    split <;> rfl

/-! ### Scanners and the start of the next line -/

/-- A split of a text, with more text behind it. -/
def before (next : Text) (split : Text × Text) : Text × Text :=
  (split.1, split.2 ++ next)

theorem splitSingleQuoted_append_next (hl : hasBreak line = false) (hn : startsLine next) :
    splitSingleQuoted (line ++ next) = (splitSingleQuoted line).map (before next) := by
  fun_induction splitSingleQuoted line with
  | case1 => exact splitSingleQuoted_of_startsLine hn
  | case2 cs ih =>
    simp only [hasBreak_cons, Bool.or_eq_false_iff] at hl
    rw [List.cons_append, List.cons_append, splitSingleQuoted, ih hl.2.2, Option.map_map,
      Option.map_map]
    rfl
  | case3 cs hcs =>
    rw [List.cons_append, splitSingleQuoted.eq_3]
    · rfl
    · intro t ht
      cases cs with
      | nil => exact ne_cons_of_startsLine hn rfl ht
      | cons c cs =>
        rw [List.cons_append, List.cons.injEq] at ht
        exact hcs cs (by rw [ht.1])
  | case4 c cs _ _ hc => simp [hasBreak_cons, hc] at hl
  | case5 c cs _ hq hc ih =>
    rw [hasBreak_cons, Bool.or_eq_false_iff] at hl
    rw [List.cons_append, splitSingleQuoted.eq_4 _ _ (fun _ h _ => hq h) hq, if_neg hc, ih hl.2,
      Option.map_map, Option.map_map]
    rfl

theorem splitDoubleQuoted_append_next (hl : hasBreak line = false) (hn : startsLine next) :
    splitDoubleQuoted (line ++ next) = (splitDoubleQuoted line).map (before next) := by
  fun_induction splitDoubleQuoted line with
  | case1 => exact splitDoubleQuoted_of_startsLine hn
  | case2 =>
    cases next with
    | nil => rfl
    | cons c cs =>
      have hc : isBreak c := hn
      rw [List.singleton_append, splitDoubleQuoted, if_pos hc]
      rfl
  | case3 c cs hc => simp [hasBreak_cons, hc] at hl
  | case4 c cs hc ih =>
    simp only [hasBreak_cons, Bool.or_eq_false_iff] at hl
    rw [List.cons_append, List.cons_append, splitDoubleQuoted, if_neg hc, ih hl.2.2,
      Option.map_map, Option.map_map]
    rfl
  | case5 cs => rfl
  | case6 c cs _ _ _ hc => simp [hasBreak_cons, hc] at hl
  | case7 c cs hlast hmore hq hc ih =>
    rw [hasBreak_cons, Bool.or_eq_false_iff] at hl
    have hs : c ≠ '\\' := by
      rintro rfl
      cases cs with
      | nil => exact hlast rfl rfl
      | cons d cs => exact hmore d cs rfl rfl
    rw [List.cons_append, splitDoubleQuoted.eq_5 _ _ (fun h _ => hs h) (fun _ _ h _ => hs h) hq,
      if_neg hc, ih hl.2, Option.map_map, Option.map_map]
    rfl

theorem splitQuoted_append_next (quote : Char) (hl : hasBreak line = false)
    (hn : startsLine next) :
    splitQuoted quote (line ++ next) = (splitQuoted quote line).map (before next) := by
  unfold splitQuoted
  split
  · exact splitSingleQuoted_append_next hl hn
  · exact splitDoubleQuoted_append_next hl hn

theorem hasBreak_rest_of_splitQuoted {quote : Char} {t q r : Text}
    (h : splitQuoted quote t = some (q, r)) (ht : hasBreak t = false) : hasBreak r = false := by
  rw [← splitQuoted_append h, hasBreak_append, Bool.or_eq_false_iff] at ht
  exact ht.2

theorem splitPlain_append_next (afterBlank : Bool) (hl : hasBreak line = false)
    (hn : startsLine next) :
    splitPlain afterBlank (line ++ next) = before next (splitPlain afterBlank line) := by
  induction line generalizing afterBlank with
  | nil => exact splitPlain_of_startsLine afterBlank hn
  | cons c cs ih =>
    rw [hasBreak_cons, Bool.or_eq_false_iff] at hl
    rw [List.cons_append, splitPlain, splitPlain, hl.1, ih _ hl.2]
    split <;> rfl

/-- A flow collection, with more text behind it. -/
def FlowSplit.before (next : Text) (s : FlowSplit) : FlowSplit :=
  { s with rest := s.rest ++ next }

theorem splitFlow_append_next (afterBlank : Bool) (hl : hasBreak line = false)
    (hn : startsLine next) :
    splitFlow afterBlank (line ++ next) =
      ((splitFlow afterBlank line).mapError (· ++ next)).map (.before next) := by
  fun_induction splitFlow afterBlank line with
  | case1 b => exact splitFlow_of_startsLine b hn
  | case2 b c cs hc =>
    rw [List.cons_append, splitFlow, if_pos hc]
    rfl
  | case3 b c cs hc hq hs =>
    rw [hasBreak_cons, Bool.or_eq_false_iff] at hl
    rw [List.cons_append, splitFlow, if_neg hc, if_pos hq]
    split
    · rfl
    · rename_i hs'
      rw [splitQuoted_append_next c hl.2 hn, hs] at hs'
      cases hs'
  | case4 b c cs hc hq q r hs ih =>
    rw [hasBreak_cons, Bool.or_eq_false_iff] at hl
    rw [List.cons_append, splitFlow, if_neg hc, if_pos hq]
    split
    · rename_i hs'
      rw [splitQuoted_append_next c hl.2 hn, hs] at hs'
      cases hs'
    · rename_i hs'
      rw [splitQuoted_append_next c hl.2 hn, hs] at hs'
      cases hs'
      rw [ih (hasBreak_rest_of_splitQuoted hs hl.2)]
      cases splitFlow false r <;> rfl
  | case5 b c cs hc hq ih =>
    rw [hasBreak_cons, Bool.or_eq_false_iff] at hl
    rw [List.cons_append, splitFlow, if_neg hc, if_neg hq, ih hl.2]
    cases splitFlow (isBlank c) cs <;> rfl

theorem splitAtColon_append_next (afterBlank : Bool) (hl : hasBreak line = false)
    (hn : startsLine next) :
    splitAtColon afterBlank (line ++ next) = (splitAtColon afterBlank line).map (before next) := by
  induction line generalizing afterBlank with
  | nil => exact splitAtColon_of_startsLine afterBlank hn
  | cons c cs ih =>
    rw [hasBreak_cons, Bool.or_eq_false_iff] at hl
    rw [List.cons_append, splitAtColon, splitAtColon, hl.1, endsToken_append_next cs hn, ih _ hl.2]
    split
    · rfl
    · split
      · rfl
      · split
        · rfl
        · rw [Option.map_map, Option.map_map]
          rfl

theorem splitKey_append_next (hl : hasBreak line = false) (hn : startsLine next) :
    splitKey (line ++ next) = (splitKey line).map (before next) := by
  cases line with
  | nil => exact splitKey_of_startsLine hn
  | cons c cs =>
    have hl' := hl
    rw [hasBreak_cons, Bool.or_eq_false_iff] at hl'
    rw [List.cons_append, splitKey, splitKey]
    split
    · rfl
    · split
      · rw [splitQuoted_append_next c hl'.2 hn]
        cases hq : splitQuoted c cs with
        | none => rfl
        | some qr =>
          obtain ⟨q, r⟩ := qr
          simp only [Option.map_some, before, Option.bind_eq_bind, Option.bind_some,
            splitAtColon_append_next false (hasBreak_rest_of_splitQuoted hq hl'.2) hn]
          cases splitAtColon false r <;> rfl
      · rw [← List.cons_append, splitAtColon_append_next false hl hn]
        cases splitAtColon false (c :: cs) with
        | none => rfl
        | some kr =>
          obtain ⟨k, r⟩ := kr
          cases k <;> rfl

/-! ### What scanners take -/

theorem hasBreak_of_splitSingleQuoted {t q r : Text} (h : splitSingleQuoted t = some (q, r)) :
    hasBreak q = false := by
  fun_induction splitSingleQuoted t generalizing q r with
  | case1 => cases h
  | case2 cs ih =>
    obtain ⟨⟨q', r'⟩, hq, he⟩ := Option.map_eq_some_iff.1 h
    cases he
    rw [hasBreak_cons, hasBreak_cons, ih hq]
    rfl
  | case3 cs => cases h; rfl
  | case4 => cases h
  | case5 c cs _ _ hc ih =>
    obtain ⟨⟨q', r'⟩, hq, he⟩ := Option.map_eq_some_iff.1 h
    cases he
    rw [hasBreak_cons, ih hq, eq_false_of_ne_true hc]
    rfl

theorem hasBreak_of_splitDoubleQuoted {t q r : Text} (h : splitDoubleQuoted t = some (q, r)) :
    hasBreak q = false := by
  fun_induction splitDoubleQuoted t generalizing q r with
  | case1 => cases h
  | case2 => cases h
  | case3 => cases h
  | case4 c cs hc ih =>
    obtain ⟨⟨q', r'⟩, hq, he⟩ := Option.map_eq_some_iff.1 h
    cases he
    rw [hasBreak_cons, hasBreak_cons, ih hq, eq_false_of_ne_true hc]
    rfl
  | case5 cs => cases h; rfl
  | case6 => cases h
  | case7 c cs _ _ _ hc ih =>
    obtain ⟨⟨q', r'⟩, hq, he⟩ := Option.map_eq_some_iff.1 h
    cases he
    rw [hasBreak_cons, ih hq, eq_false_of_ne_true hc]
    rfl

theorem hasBreak_of_splitQuoted {quote : Char} {t q r : Text}
    (h : splitQuoted quote t = some (q, r)) : hasBreak q = false := by
  unfold splitQuoted at h
  split at h
  · exact hasBreak_of_splitSingleQuoted h
  · exact hasBreak_of_splitDoubleQuoted h

theorem hasBreak_splitPlain (afterBlank : Bool) (t : Text) :
    hasBreak (splitPlain afterBlank t).1 = false := by
  induction t generalizing afterBlank with
  | nil => rfl
  | cons c t ih =>
    rw [splitPlain]
    split
    · rfl
    · rename_i h
      rw [Bool.or_eq_true, not_or] at h
      rw [hasBreak_cons, ih, eq_false_of_ne_true h.1]
      rfl

theorem hasBreak_of_splitFlow {afterBlank : Bool} {t : Text} {s : FlowSplit}
    (h : splitFlow afterBlank t = .ok s) : hasBreak s.taken = false := by
  fun_induction splitFlow afterBlank t generalizing s with
  | case1 => cases h; rfl
  | case2 => cases h; rfl
  | case3 => cases h
  | case4 b c cs _ hc q r hq ih =>
    obtain ⟨s', hr, rfl⟩ := exists_of_map_eq_ok h
    rw [FlowSplit.after, hasBreak_append, hasBreak_cons, isBreak_eq_false_of_isQuote hc,
      hasBreak_of_splitQuoted hq, ih hr]
    rfl
  | case5 b c cs hc _ ih =>
    obtain ⟨s', hr, rfl⟩ := exists_of_map_eq_ok h
    rw [Bool.or_eq_true, not_or] at hc
    rw [FlowSplit.after, hasBreak_append, hasBreak_cons, eq_false_of_ne_true hc.1, ih hr]
    rfl

theorem hasBreak_of_splitAtColon {afterBlank : Bool} {t k r : Text}
    (h : splitAtColon afterBlank t = some (k, r)) : hasBreak k = false := by
  induction t generalizing afterBlank k with
  | nil => cases h
  | cons c cs ih =>
    rw [splitAtColon] at h
    split at h
    · cases h
    · rename_i hc
      split at h
      · cases h
        rfl
      · split at h
        · cases h
        · obtain ⟨⟨k', r'⟩, hk, he⟩ := Option.map_eq_some_iff.1 h
          cases he
          rw [hasBreak_cons, ih hk, eq_false_of_ne_true hc]
          rfl

theorem hasBreak_of_splitKey {t k r : Text} (h : splitKey t = some (k, r)) :
    hasBreak k = false := by
  rcases splitKey_cases h with ⟨c, cs, q, rest, k', -, hc, hq, hk, rfl⟩ | ⟨hk, -⟩
  · rw [hasBreak_append, hasBreak_cons, isBreak_eq_false_of_isQuote hc,
      hasBreak_of_splitQuoted hq, hasBreak_of_splitAtColon hk]
    rfl
  · exact hasBreak_of_splitAtColon hk

end YamlIndent
