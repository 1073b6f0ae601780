import Mathlib.Data.List.Induction
import YamlIndent.Proofs.Source.Documents

/-!
# Scanning by offsets

A second reader of sources goes by offsets into one text, and looks every character up. A look-up
behind the end of the text is a failure of its own, as is a step that does not lead on. Here are its
lines, gaps and columns, and the shapes of its tokens. Each is what the reader of places has there,
and none of them fails, but for a tab in the indentation.

## Main definitions

* `Failure`: how reading by offsets may fail.
* `ByOffset.charAt`: the character at an offset, which has to be there.
* `ByOffset.skip`, `ByOffset.column`: the offset of the next token, and the column of an offset.
* `ByOffset.isItemAt`, `ByOffset.isMarkAt`: a `-` and a mark of a document at an offset.

## Main results

* `ByOffset.skip_eq`: the next token is behind the gap.
* `ByOffset.column_append`, `ByOffset.isItemAt_append`, `ByOffset.isMarkAt_append`: an offset is
  like the place behind the text in front of it.
-/

namespace YamlIndent

/-- How reading by offsets may fail. Only a rejection is a fault of the source. -/
inductive Failure where
  /-- The source has a fault at an offset. -/
  | rejected (fault : Fault) (offset : Nat)
  /-- There is no character at an offset. -/
  | outOfRange (offset : Nat)
  /-- There is no key at an offset where an entry of a mapping was seen. -/
  | missingKey (offset : Nat)
  /-- Reading does not lead on from an offset. -/
  | stuck (offset : Nat)
  deriving DecidableEq, Repr

/-- A rejection by its offset in a source. -/
def Rejection.failure (source : Text) (r : Rejection) : Failure :=
  .rejected r.fault (source.length - r.place.rest.length)

namespace ByOffset

/-! ### Characters and lines -/

/-- The character at an offset, which has to be there. -/
def charAt (s : Text) (i : Nat) : Except Failure Char :=
  match s[i]? with
  | some c => .ok c
  | none => .error (.outOfRange i)

/-- The text from one offset to another. -/
def slice (s : Text) (i j : Nat) : Text :=
  (s.drop i).take (j - i)

/-- The offset behind the last break in front of an offset. -/
def lineStart (s : Text) : Nat → Nat
  | 0 => 0
  | i + 1 => if s[i]?.any isBreak then i + 1 else lineStart s i

/-- The offset of the next break, or of the end. -/
def lineEnd (s : Text) (i : Nat) : Except Failure Nat :=
  if i < s.length then do
    let c ← charAt s i
    if isBreak c then return i else lineEnd s (i + 1)
  else return i
termination_by s.length - i

theorem charAt_append (a : Text) (c : Char) (t : Text) : charAt (a ++ c :: t) a.length = .ok c := by
  simp [charAt]

theorem lt_length_append_cons (a : Text) (c : Char) (t : Text) :
    a.length < (a ++ c :: t).length := by
  simp

theorem charAt_append_append (a b : Text) (c : Char) (t : Text) :
    charAt (a ++ (b ++ c :: t)) (a ++ b).length = .ok c := by
  rw [← List.append_assoc]
  exact charAt_append (a ++ b) c t

theorem lt_length_append_append_cons (a b : Text) (c : Char) (t : Text) :
    (a ++ b).length < (a ++ (b ++ c :: t)).length := by
  simp

theorem slice_append (a b t : Text) : slice (a ++ (b ++ t)) a.length (a ++ b).length = b := by
  simp [slice]

theorem lineStart_append (a t : Text) :
    lineStart (a ++ t) a.length + (lineAfter [] a).length = a.length := by
  induction a using List.reverseRecOn generalizing t with
  | nil => rfl
  | append_singleton a c ih =>
    have hc : (a ++ [c] ++ t)[a.length]? = some c := by simp
    rw [List.length_append, List.length_singleton, lineStart, hc, Option.any_some, lineAfter_append]
    by_cases hb : isBreak c
    · simp [hb, lineAfter]
    · have h := ih ([c] ++ t)
      simp only [hb, lineAfter, List.append_assoc, Bool.false_eq_true, if_false,
        List.length_cons] at h ⊢
      omega

theorem lineEnd_append (a t : Text) :
    lineEnd (a ++ t) a.length = .ok (a ++ firstLine t).length := by
  induction t generalizing a with
  | nil =>
    rw [lineEnd, List.append_nil, if_neg (Nat.lt_irrefl _)]
    exact congrArg _ (congrArg _ (List.append_nil a).symm)
  | cons c t ih =>
    have h := ih (a ++ [c])
    rw [lineEnd, if_pos (by simp), charAt_append, ok_bind, firstLine_cons]
    by_cases hc : isBreak c
    · simp [hc, pure, Except.pure]
    · simp only [hc, Bool.false_eq_true, if_false]
      simpa using h

/-! ### Gaps -/

/-- The offset of the next token. -/
def skip (s : Text) (i : Nat) : Except Failure Nat :=
  if i < s.length then do
    let c ← charAt s i
    if isBlank c || isBreak c then skip s (i + 1)
    else if c == '#' then do
      let j ← lineEnd s i
      if i < j then skip s j else throw (.stuck i)
    else return i
  else return i
termination_by s.length - i

/-- A comment goes on to the end of its line, and the gap behind it with the next line. -/
theorem splitGap_comment (t : Text) : ∃ rest, t = firstLine t ++ rest ∧
    splitGap true t = (firstLine t ++ (splitGap false rest).1, (splitGap false rest).2) := by
  obtain ⟨rest, hr, ht⟩ := firstLine_append_rest t
  have hskip : splitGap true rest = splitGap false rest := by
    cases rest with
    | nil => rfl
    | cons b rest =>
      have hb : isBreak b = true := hr
      rw [splitGap, splitGap, if_pos hb, if_pos hb]
  have hg := isGap_true_of_not_hasBreak (hasBreak_firstLine t)
  refine ⟨rest, ht, ?_⟩
  conv_lhs => rw [ht]
  rw [splitGap_of_isGap hg.1, hg.2, hskip]

/-- A blank or a break is part of the gap that goes on behind it. -/
theorem splitGap_of_isBlank_or_isBreak {c : Char} (h : (isBlank c || isBreak c) = true) (t : Text) :
    (splitGap false (c :: t)).1 = c :: (splitGap false t).1 := by
  rw [splitGap]
  by_cases hb : isBreak c
  · rw [if_pos hb]
  · have hblank : isBlank c = true := by simpa [hb] using h
    have hhash : (c == '#') = false := by
      rw [beq_eq_false_iff_ne]
      rintro rfl
      cases hblank
    rw [if_neg hb, if_pos (by simp [hblank]), hhash]
    rfl

/-- No gap stands in front of any other character than a blank, a break or a `#`. -/
theorem splitGap_eq_nil {c : Char} (h : ¬(isBlank c || isBreak c) = true) (hh : c ≠ '#')
    (t : Text) : (splitGap false (c :: t)).1 = [] := by
  simp only [Bool.or_eq_true, not_or, Bool.not_eq_true] at h
  simp [splitGap, h.1, h.2, hh]

/-- The next token is behind the gap. -/
theorem skip_eq (a t : Text) : skip (a ++ t) a.length = .ok (a ++ (splitGap false t).1).length := by
  cases t with
  | nil =>
    rw [skip, List.append_nil, if_neg (Nat.lt_irrefl _), splitGap, List.append_nil]
    rfl
  | cons c t =>
    rw [skip, if_pos (lt_length_append_cons a c t), charAt_append, ok_bind]
    by_cases hg : (isBlank c || isBreak c) = true
    · have h := skip_eq (a ++ [c]) t
      rw [if_pos hg, splitGap_of_isBlank_or_isBreak hg]
      simpa using h
    · rw [if_neg hg]
      by_cases hh : c = '#'
      · subst hh
        -- The comment is left at once, so the induction goes on behind its line.
        obtain ⟨rest, ht, hs⟩ := splitGap_comment t
        have hlt : rest.length < t.length + 1 := by
          have := congrArg List.length ht
          rw [List.length_append] at this
          omega
        have h := skip_eq (a ++ '#' :: firstLine t) rest
        rw [List.append_assoc, List.cons_append, ← ht] at h
        rw [if_pos (beq_self_eq_true _), lineEnd_append, firstLine_cons, ok_bind]
        change (if a.length < (a ++ '#' :: firstLine t).length then
          skip (a ++ '#' :: t) (a ++ '#' :: firstLine t).length else _) =
            Except.ok (a ++ '#' :: (splitGap true t).1).length
        rw [if_pos (lt_length_append_cons _ _ _), h, hs, List.append_assoc, List.cons_append]
      · rw [if_neg (by simpa using hh), splitGap_eq_nil hg hh, List.append_nil]
        rfl
termination_by t.length

/-! ### Columns -/

/-- The column of an offset, unless a tab stands among the blanks that lead to it. -/
def column (s : Text) (i : Nat) : Except Failure Nat :=
  let start := lineStart s i
  let run := slice s start i
  if run.contains '\t' && run.all isBlank then throw (.rejected .tabInIndentation i)
  else return i - start

/-- The place behind a text and in front of another. -/
def between (a t : Text) : Place :=
  ⟨lineAfter [] a, t⟩

theorem slice_lineStart (a t : Text) :
    slice (a ++ t) (lineStart (a ++ t) a.length) a.length = lastLine a := by
  obtain ⟨front, he, -⟩ := exists_lines_append_lastLine a
  have hlen := lineStart_append a t
  have hlast : (lineAfter [] a).length = (lastLine a).length := by simp [lastLine]
  have hstart : lineStart (a ++ t) a.length = front.length := by
    have := congrArg List.length he
    rw [List.length_append] at this
    omega
  rw [hstart]
  conv_lhs => rw [he, List.append_assoc]
  exact slice_append front (lastLine a) t

theorem column_append (a t : Text) : column (a ++ t) a.length =
    (between a t).checkedColumn.mapError (Rejection.failure (a ++ t)) := by
  have hlen := lineStart_append a t
  have htab : ((lastLine a).contains '\t' && (lastLine a).all isBlank) = (between a t).tabbed := by
    simp [lastLine, between, Place.tabbed]
  have hcolumn : a.length - lineStart (a ++ t) a.length = (between a t).column := by
    change _ = (lineAfter [] a).length
    omega
  simp only [column, slice_lineStart, htab, hcolumn]
  rw [Place.checkedColumn]
  split
  · simp [Except.mapError, Rejection.failure, between, throw, throwThe, MonadExceptOf.throw]
  · rfl

/-! ### Shapes of tokens -/

/-- A token may end at an offset. -/
def endsTokenAt (s : Text) (i : Nat) : Except Failure Bool :=
  if i = s.length then return true
  else do
    let c ← charAt s i
    return isBlank c || isBreak c

/-- A `-` that ends a token stands at an offset. -/
def isItemAt (s : Text) (i : Nat) : Except Failure Bool :=
  if ['-'].isPrefixOf (s.drop i) then endsTokenAt s (i + 1) else return false

/-- A mark stands at an offset. -/
def isMarkAt (mark s : Text) (i : Nat) : Except Failure Bool :=
  if mark.isPrefixOf (s.drop i) && i == lineStart s i then endsTokenAt s (i + mark.length)
  else return false

/-- Either mark of a document stands at an offset. -/
def isDocumentMarkAt (s : Text) (i : Nat) : Except Failure Bool := do
  if ← isMarkAt Place.startMark s i then return true else isMarkAt Place.endMark s i

theorem endsTokenAt_append (a t : Text) : endsTokenAt (a ++ t) a.length = .ok (endsToken t) := by
  rw [endsTokenAt]
  cases t with
  | nil => rw [List.append_nil, if_pos rfl]; rfl
  | cons c t =>
    rw [if_neg (Nat.ne_of_lt (lt_length_append_cons a c t)), charAt_append]
    rfl

theorem isItemAt_append (a t : Text) :
    isItemAt (a ++ t) a.length = .ok (between a t).atItem := by
  rw [isItemAt, List.drop_left]
  cases t with
  | nil => rfl
  | cons c t =>
    by_cases hc : c = '-'
    · subst hc
      have h := endsTokenAt_append (a ++ ['-']) t
      rw [List.append_assoc] at h
      simpa [between, Place.atItem] using h
    · have hc' : ('-' == c) = false := by simpa using fun h => hc h.symm
      simp [between, Place.atItem, hc, hc', List.isPrefixOf]
      rfl

theorem isMarkAt_append (mark a t : Text) :
    isMarkAt mark (a ++ t) a.length = .ok ((between a t).atMark mark) := by
  have hlen := lineStart_append a t
  have hstart : (a.length == lineStart (a ++ t) a.length) = (lineAfter [] a).isEmpty := by
    rw [Bool.eq_iff_iff, beq_iff_eq, List.isEmpty_iff, ← List.length_eq_zero_iff]
    omega
  rw [isMarkAt, List.drop_left, between, Place.atMark_eq, hstart]
  by_cases hp : mark.isPrefixOf t
  · obtain ⟨t, rfl⟩ := List.isPrefixOf_iff_prefix.1 hp
    have h := endsTokenAt_append (a ++ mark) t
    rw [List.append_assoc, List.length_append] at h
    rw [hp, h, List.drop_left]
    cases (lineAfter [] a).isEmpty <;> rfl
  · rw [eq_false_of_ne_true hp, Bool.false_and, Bool.false_and, Bool.and_false]
    rfl

theorem isDocumentMarkAt_append (a t : Text) :
    isDocumentMarkAt (a ++ t) a.length = .ok (between a t).atDocumentMark := by
  rw [isDocumentMarkAt, isMarkAt_append, ok_bind, isMarkAt_append, Place.atDocumentMark]
  cases (between a t).atMark Place.startMark <;> rfl

end ByOffset

end YamlIndent
