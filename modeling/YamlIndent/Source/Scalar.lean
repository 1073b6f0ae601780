import YamlIndent.Results
import YamlIndent.Source.Fault

/-!
# Scalars and keys

Every scalar stands on one line: plain, quoted, or a flow collection in brackets. A comment begins
at a `#` that follows a blank, and a key ends at a colon that ends a token.

## Main definitions

* `splitQuoted`: the rest of a quoted scalar, up to its closing quote.
* `splitPlain`, `splitFlow`: a line up to its comment, without and with regard to brackets.
* `splitKey`: a key and the text after its colon.
* `Place.scalar`: the scalar that stands at a place.

## Main results

* `splitQuoted_append`, `splitPlain_append`, `splitFlow_append`, `splitKey_append`: the splits lose
  nothing.
* `Place.reaches_scalar`: a scalar's text leads to the place after it.
-/

namespace YamlIndent

/-! ### Quotes -/

/-- Splits after the closing single quote; a quote written twice stands for itself. -/
def splitSingleQuoted : Text → Option (Text × Text)
  | [] => none
  | '\'' :: '\'' :: cs => (splitSingleQuoted cs).map fun (q, r) => ('\'' :: '\'' :: q, r)
  | '\'' :: cs => some (['\''], cs)
  | c :: cs =>
    if isBreak c then none else (splitSingleQuoted cs).map fun (q, r) => (c :: q, r)

/-- Splits after the closing double quote; a backslash takes the next character of the line with
it. -/
def splitDoubleQuoted : Text → Option (Text × Text)
  | [] => none
  | '\\' :: [] => none
  | '\\' :: c :: cs =>
    if isBreak c then none else (splitDoubleQuoted cs).map fun (q, r) => ('\\' :: c :: q, r)
  | '"' :: cs => some (['"'], cs)
  | c :: cs =>
    if isBreak c then none else (splitDoubleQuoted cs).map fun (q, r) => (c :: q, r)

/-- A character that opens a quoted scalar. -/
def isQuote (c : Char) : Bool :=
  c == '"' || c == '\''

/-- Splits what follows an opening quote after the quote that closes it, if that is on the line. -/
def splitQuoted (quote : Char) (t : Text) : Option (Text × Text) :=
  if quote == '\'' then splitSingleQuoted t else splitDoubleQuoted t

theorem splitSingleQuoted_append {t q r : Text} (h : splitSingleQuoted t = some (q, r)) :
    q ++ r = t := by
  fun_induction splitSingleQuoted t generalizing q r <;> simp_all <;> grind

theorem splitDoubleQuoted_append {t q r : Text} (h : splitDoubleQuoted t = some (q, r)) :
    q ++ r = t := by
  fun_induction splitDoubleQuoted t generalizing q r <;> simp_all <;> grind

theorem splitQuoted_append {quote : Char} {t q r : Text} (h : splitQuoted quote t = some (q, r)) :
    q ++ r = t := by
  unfold splitQuoted at h
  split at h
  · exact splitSingleQuoted_append h
  · exact splitDoubleQuoted_append h

theorem splitQuoted_length_le {quote : Char} {t q r : Text}
    (h : splitQuoted quote t = some (q, r)) : r.length ≤ t.length := by
  simp [← splitQuoted_append h]

/-! ### Lines up to their comment -/

/-- Splits a line at its comment or its end; `afterBlank` says that a blank stands in front. -/
def splitPlain (afterBlank : Bool) : Text → Text × Text
  | [] => ([], [])
  | c :: cs =>
    if isBreak c || (c == '#' && afterBlank) then ([], c :: cs)
    else (c :: (splitPlain (isBlank c) cs).1, (splitPlain (isBlank c) cs).2)

theorem splitPlain_append (afterBlank : Bool) (t : Text) :
    (splitPlain afterBlank t).1 ++ (splitPlain afterBlank t).2 = t := by
  induction t generalizing afterBlank with
  | nil => rfl
  | cons c cs ih => rw [splitPlain]; split <;> simp [ih]

/-- What a bracket adds to the number of open brackets. -/
def bracketDepth (c : Char) : Int :=
  if c == '[' || c == '\x7b' then 1 else if c == ']' || c == '\x7d' then -1 else 0

/-- A flow collection up to the comment or the end of its line, what follows it, and how many of its
brackets are open there. -/
structure FlowSplit where
  taken : Text
  rest : Text
  depth : Int
  deriving DecidableEq, Repr

/-- A flow collection that goes on after `text`, which opens its brackets `depth` deep. -/
def FlowSplit.after (text : Text) (depth : Int) (s : FlowSplit) : FlowSplit :=
  ⟨text ++ s.taken, s.rest, depth + s.depth⟩

/-- Splits a line at its comment or its end, counting the brackets outside of quotes. An unclosed
quote gives the text from that quote on. -/
def splitFlow (afterBlank : Bool) : Text → Except Text FlowSplit
  | [] => .ok ⟨[], [], 0⟩
  | c :: cs =>
    if isBreak c || (c == '#' && afterBlank) then .ok ⟨[], c :: cs, 0⟩
    else if isQuote c then
      match _h : splitQuoted c cs with
      | none => .error (c :: cs)
      | some (q, r) => (splitFlow false r).map (.after (c :: q) 0)
    else (splitFlow (isBlank c) cs).map (.after [c] (bracketDepth c))
termination_by t => t.length
decreasing_by
  · have := splitQuoted_length_le _h
    simp only [List.length_cons]
    omega
  · simp

theorem splitFlow_append {afterBlank : Bool} {t : Text} {s : FlowSplit}
    (h : splitFlow afterBlank t = .ok s) : s.taken ++ s.rest = t := by
  fun_induction splitFlow afterBlank t generalizing s with
  | case1 => cases h; rfl
  | case2 => cases h; rfl
  | case3 => cases h
  | case4 b c cs _ _ q r hq ih =>
    obtain ⟨s', hr, rfl⟩ := exists_of_map_eq_ok h
    simp [FlowSplit.after, ih hr, splitQuoted_append hq]
  | case5 b c cs _ _ ih =>
    obtain ⟨s', hr, rfl⟩ := exists_of_map_eq_ok h
    simp [FlowSplit.after, ih hr]

/-! ### Keys -/

/-- Splits a line around the first colon that ends a token, if one comes before the comment. -/
def splitAtColon (afterBlank : Bool) : Text → Option (Text × Text)
  | [] => none
  | c :: cs =>
    if isBreak c then none
    else if c == ':' && endsToken cs then some ([], cs)
    else if c == '#' && afterBlank then none
    else (splitAtColon (isBlank c) cs).map fun (k, r) => (c :: k, r)

/-- Characters with which no key begins. -/
def barsKey (c : Char) : Bool :=
  c == '[' || c == '\x7b' || c == '|' || c == '>' || c == '#'

/-- A key, blanks before its colon included, and the text after the colon. -/
def splitKey : Text → Option (Text × Text)
  | [] => none
  | c :: cs =>
    if barsKey c then none
    else if isQuote c then do
      let (q, r) ← splitQuoted c cs
      let (k, rest) ← splitAtColon false r
      return (c :: q ++ k, rest)
    else
      match splitAtColon false (c :: cs) with
      | some (k :: ks, rest) => some (k :: ks, rest)
      | some ([], _) | none => none

theorem splitAtColon_append {afterBlank : Bool} {t k r : Text}
    (h : splitAtColon afterBlank t = some (k, r)) : k ++ ':' :: r = t := by
  induction t generalizing afterBlank k with
  | nil => cases h
  | cons c cs ih =>
    rw [splitAtColon] at h
    split at h
    · cases h
    · split at h
      · rename_i hc
        simp only [Bool.and_eq_true, beq_iff_eq] at hc
        cases h
        simp [hc.1]
      · split at h
        · cases h
        · obtain ⟨⟨k', r'⟩, hk, he⟩ := Option.map_eq_some_iff.1 h
          cases he
          simp [ih hk]

/-- A key begins with a quoted scalar, or it is plain and not empty. -/
theorem splitKey_cases {t k r : Text} (h : splitKey t = some (k, r)) :
    (∃ c cs q rest k', t = c :: cs ∧ isQuote c ∧ splitQuoted c cs = some (q, rest) ∧
      splitAtColon false rest = some (k', r) ∧ k = c :: q ++ k') ∨
    splitAtColon false t = some (k, r) ∧ k ≠ [] := by
  cases t with
  | nil => cases h
  | cons c cs =>
    rw [splitKey] at h
    split at h
    · cases h
    · split at h
      · rename_i hc
        obtain ⟨⟨q, rest⟩, hq, h⟩ := Option.bind_eq_some_iff.1 h
        obtain ⟨⟨k', r'⟩, hk, h⟩ := Option.bind_eq_some_iff.1 h
        cases h
        exact .inl ⟨c, cs, q, rest, k', rfl, hc, hq, hk, rfl⟩
      · split at h
        · rename_i hk
          cases h
          exact .inr ⟨hk, List.cons_ne_nil _ _⟩
        · cases h
        · cases h

theorem splitKey_append {t k r : Text} (h : splitKey t = some (k, r)) : k ++ ':' :: r = t := by
  rcases splitKey_cases h with ⟨c, cs, q, rest, k', rfl, -, hq, hk, rfl⟩ | ⟨hk, -⟩
  · rw [List.append_assoc, splitAtColon_append hk, List.cons_append, splitQuoted_append hq]
  · exact splitAtColon_append hk

/-! ### Scalars -/

namespace Place

/-- A scalar in `taken`, its blanks at the end left to what follows. -/
def closeScalar (p : Place) (taken rest : Text) : Text × Place :=
  let split := splitTrailing taken
  (split.1, p.past split.1 (split.2 ++ rest))

/-- The scalar that stands here, and the place after it. -/
def scalar (p : Place) : Except Rejection (Text × Place) :=
  match p.rest with
  | [] => .ok ([], p)
  | c :: cs =>
    if c == '|' || c == '>' then .error ⟨.blockScalar, p⟩
    else if isQuote c then
      match splitQuoted c cs with
      | none => .error ⟨.openQuote, p⟩
      | some (q, r) =>
        let tail := splitPlain false r
        .ok (p.closeScalar (c :: q ++ tail.1) tail.2)
    else if c == '[' || c == '\x7b' then
      match splitFlow false (c :: cs) with
      | .error left =>
        .error ⟨.openQuote, p.past (p.rest.take (p.rest.length - left.length)) left⟩
      | .ok ⟨taken, rest, depth⟩ =>
        if 0 < depth then .error ⟨.openFlow, p⟩ else .ok (p.closeScalar taken rest)
    else
      let line := splitPlain false (c :: cs)
      .ok (p.closeScalar line.1 line.2)

theorem reaches_closeScalar {p : Place} {taken rest : Text} (h : taken ++ rest = p.rest) :
    p.Reaches (p.closeScalar taken rest).1 (p.closeScalar taken rest).2 :=
  reaches_past (by
    change (splitTrailing taken).1 ++ ((splitTrailing taken).2 ++ rest) = p.rest
    rw [← List.append_assoc, splitTrailing_append, h])

theorem reaches_scalar {p q : Place} {t : Text} (h : p.scalar = .ok (t, q)) : p.Reaches t q := by
  have close {taken rest : Text} (hc : p.closeScalar taken rest = (t, q))
      (hr : taken ++ rest = p.rest) : p.Reaches t q := by
    simpa [hc] using reaches_closeScalar hr
  unfold scalar at h
  split at h
  · cases h
    exact .refl p
  · rename_i c cs hr
    split at h
    · cases h
    · split at h
      · split at h
        · cases h
        · rename_i q' r hq
          refine close (Except.ok.inj h) ?_
          rw [List.append_assoc, splitPlain_append, List.cons_append, splitQuoted_append hq, hr]
      · split at h
        · split at h
          · cases h
          · rename_i hf
            split at h
            · cases h
            · exact close (Except.ok.inj h) ((splitFlow_append hf).trans hr.symm)
        · exact close (Except.ok.inj h) ((splitPlain_append false (c :: cs)).trans hr.symm)

end Place

end YamlIndent
