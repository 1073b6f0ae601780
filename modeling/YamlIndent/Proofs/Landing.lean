import Mathlib.Data.List.Forall2
import YamlIndent.Proofs.Columns
import YamlIndent.Proofs.Shape

/-!
# Where a moved lead lands

A lead that is moved is told line by line. Its last line, blanks or blanks and a comment, gets its
column in front; so does every other line with a comment, and the lines without one stay. What the
column replaces is the blanks of these lines, so nothing is left of the column that they had.

## Main definitions

* `Landed`: a lead that lands at a column, next to the lead that it was.

## Main results

* `moveTo_front`: a moved lead by what stands in front of its last line and by that line.
* `landed_moveTo`: a lead lands where it is moved to, and forgets where it was.
-/

namespace YamlIndent

/-- A lead at a column, and the lead it was before: it ends at the column, its comment lines stand
there, and but for the blanks in front of them all lines are as before. -/
structure Landed (column : Nat) (lead moved : Text) : Prop where
  indent : indentOf moved = column
  comments : CommentsStand column ((cutLines moved).2.map Prod.snd)
  /-- What trails the text in front stays. -/
  trailing : firstLine moved = firstLine lead
  /-- The breaks stay, and of a line what follows its blanks. -/
  lines : List.Forall₂ (fun l l' => l'.1 = l.1 ∧ l'.2.dropWhile isBlank = l.2.dropWhile isBlank)
    (cutLines lead).2 (cutLines moved).2
  /-- Blank lines stay. The last line is none: the node that follows is on it. -/
  blank : List.Forall₂ (fun l l' => l.2.all isBlank → l' = l)
    (cutLines lead).2.dropLast (cutLines moved).2.dropLast

/-- What ends a lead behind the blanks of its last line: nothing, or a comment. -/
def IsTail (tail : Text) : Prop :=
  tail = [] ∨ ∃ comment, hasBreak comment = false ∧ tail = '#' :: comment

variable {front blanks tail lead : Text} {br : Char} {column : Nat}

theorem IsTail.hasBreak_append (h : IsTail tail) (hb : blanks.all isBlank) :
    hasBreak (blanks ++ tail) = false := by
  rw [YamlIndent.hasBreak_append, hasBreak_eq_false_of_all_isBlank hb]
  rcases h with rfl | ⟨comment, hc, rfl⟩
  · rfl
  · exact hc

/-- The blanks in front of a tail are where the line stands. -/
theorem IsTail.span_append (h : IsTail tail) (hb : blanks.all isBlank) :
    (blanks ++ tail).takeWhile isBlank = blanks ∧ (blanks ++ tail).dropWhile isBlank = tail := by
  have hblank := List.all_eq_true.1 hb
  have htail : tail.takeWhile isBlank = [] ∧ tail.dropWhile isBlank = tail := by
    rcases h with rfl | ⟨comment, -, rfl⟩ <;> exact ⟨rfl, rfl⟩
  rw [List.takeWhile_append_of_pos hblank, List.dropWhile_append_of_pos hblank, htail.1, htail.2,
    List.append_nil]
  exact ⟨rfl, rfl⟩

/-- A lead is moved in front of its last line by its comments, and on that line by its blanks. -/
theorem moveTo_front (hbr : isBreak br) (hb : blanks.all isBlank) (ht : IsTail tail)
    (hs : tail = [] → '\t' ∉ blanks) (c : Nat) :
    moveTo c (front ++ br :: (blanks ++ tail)) =
      realign c front ++ br :: (List.replicate c ' ' ++ tail) := by
  rcases ht with rfl | ⟨comment, hc, rfl⟩
  · have hspaces : blanks = List.replicate blanks.length ' ' := by
      refine List.eq_replicate_iff.2 ⟨rfl, fun d hd => ?_⟩
      have hblank := List.all_eq_true.1 hb d hd
      simp only [isBlank, Bool.or_eq_true, beq_iff_eq] at hblank
      exact hblank.resolve_right fun he => hs rfl (he ▸ hd)
    rw [List.append_nil, List.append_nil, hspaces, moveTo_append hbr]
  · -- The lead ends inside a comment, which is moved with the other comments.
    have hline {b : Text} (hb : b.all isBlank) : hasBreak (b ++ '#' :: comment) = false :=
      IsTail.hasBreak_append (.inr ⟨comment, hc, rfl⟩) hb
    have hr : realign c (front ++ br :: (blanks ++ '#' :: comment)) =
        realign c front ++ br :: (List.replicate c ' ' ++ '#' :: comment) := by
      rw [realign_eq_mapLines, mapLines_append_break _ _ front hbr,
        mapLines_of_not_hasBreak _ _ (hline hb), placeComment_append_comment hb]
      rfl
    have hbreak : hasBreak (front ++ br :: (blanks ++ '#' :: comment)) := by
      rw [hasBreak_append, hasBreak_cons, hbr, Bool.true_or, Bool.or_true]
    have hlast : (lastLine (realign c (front ++ br :: (blanks ++ '#' :: comment)))).all isBlank =
        false := by
      rw [hr, lastLine_append_cons _ hbr (hline (all_isBlank_replicate c)), List.all_append,
        List.all_cons]
      simp [isBlank]
    rw [moveTo, hbreak]
    simp only [Bool.not_true, Bool.false_eq_true, if_false, hlast]
    exact hr

/-- A gap with a break is cut in front of its last line, which is blanks and a tail. -/
theorem exists_front_of_isGap (hb : hasBreak lead) (hg : isGap false lead) :
    ∃ front br blanks tail, isBreak br ∧ isGap false front ∧ blanks.all isBlank ∧ IsTail tail ∧
      lead = front ++ br :: (blanks ++ tail) ∧ lastLine lead = blanks ++ tail := by
  obtain ⟨front, br, hbr, he⟩ := exists_eq_append_lastLine hb
  have hfront : isGap false front := by
    rw [he, isGap_append_break false front hbr, Bool.and_eq_true] at hg
    exact hg.1
  rcases lastLine_cases hg with hl | ⟨blanks, comment, hl, hc, hlast⟩
  · exact ⟨front, br, lastLine lead, [], hbr, hfront, hl, .inl rfl,
      by rw [List.append_nil, ← he], (List.append_nil _).symm⟩
  · exact ⟨front, br, blanks, _, hbr, hfront, hl, .inr ⟨comment, hc, rfl⟩, by rw [← hlast, ← he],
      hlast⟩

/-- The lines of a gap are the same behind their blanks when comments are put at a column, and the
blank ones stay. -/
theorem toColumn_line (column : Nat) {line : Text} (hb : hasBreak line = false)
    (hg : isGap false line) : (toColumn column line).dropWhile isBlank = line.dropWhile isBlank ∧
      (line.all isBlank → toColumn column line = line) := by
  refine ⟨?_, toColumn_of_all_isBlank column⟩
  rcases isGap_line_cases hb hg with ⟨h, -⟩ | ⟨blanks, comment, h, hc, rfl⟩
  · rw [toColumn_of_all_isBlank column h]
  · have ht : IsTail ('#' :: comment) := .inr ⟨comment, hc, rfl⟩
    rw [toColumn_append_comment column h, (ht.span_append h).2,
      (ht.span_append (all_isBlank_replicate column)).2]

/-- The later lines of a gap whose comments are put at a column. -/
theorem cutLines_realign (column : Nat) (hg : isGap false front) :
    cutLines (realign column front) =
      ((cutLines front).1, (cutLines front).2.map fun (b, line) => (b, toColumn column line)) := by
  rw [← commentsAt_eq column hg, commentsAt,
    cutLines_mapLines (f := id) (fun _ h => h) (hasBreak_toColumn column)]
  rfl

/-- A lead lands where its last line and its comments are put. -/
theorem landed_front (column : Nat) (hbr : isBreak br) (hg : isGap false front)
    (hb : blanks.all isBlank) (ht : IsTail tail) : Landed column (front ++ br :: (blanks ++ tail))
      (realign column front ++ br :: (List.replicate column ' ' ++ tail)) := by
  have hspaces := all_isBlank_replicate column
  have hline := ht.hasBreak_append hb
  have hline' := ht.hasBreak_append hspaces
  have hgaps := isGap_laterLines hg
  have hlater (l : Char × Text) (hl : l ∈ (cutLines front).2) :
      hasBreak l.2 = false ∧ isGap false l.2 := hgaps _ (List.mem_map_of_mem hl)
  have hcut := cutLines_append_break front hbr (blanks ++ tail)
  have hcut' := cutLines_append_break (realign column front) hbr
    (List.replicate column ' ' ++ tail)
  rw [cutLines_of_not_hasBreak hline] at hcut
  rw [cutLines_of_not_hasBreak hline', cutLines_realign column hg] at hcut'
  refine ⟨?_, ?_, ?_, ?_, ?_⟩
  · rw [indentOf, lastLine_append_cons _ hbr hline', (ht.span_append hspaces).1,
      List.length_replicate]
  · rw [hcut', List.map_append, List.map_map]
    refine List.forall_mem_append.2 ⟨?_, List.forall_mem_singleton.2 fun hm => ?_⟩
    · have h := commentsStand_toColumn column hgaps
      rwa [List.map_map] at h
    · rcases ht with rfl | ⟨comment, -, rfl⟩
      · rw [List.append_nil] at hm
        exact absurd hm (not_mem_of_all_isBlank hspaces)
      · exact ⟨comment, rfl⟩
  · rw [firstLine, firstLine, hcut, hcut']
  · rw [hcut, hcut']
    refine List.rel_append (List.forall₂_map_right_iff.2 (List.forall₂_same.2 fun l hl => ?_))
      (.cons ⟨rfl, ?_⟩ .nil)
    · obtain ⟨hlb, hlg⟩ := hlater l hl
      exact ⟨rfl, (toColumn_line column hlb hlg).1⟩
    · rw [(ht.span_append hb).2, (ht.span_append hspaces).2]
  · rw [hcut, hcut', List.dropLast_concat, List.dropLast_concat]
    refine List.forall₂_map_right_iff.2 (List.forall₂_same.2 fun l hl hblank => ?_)
    obtain ⟨hlb, hlg⟩ := hlater l hl
    exact congrArg (Prod.mk l.1) ((toColumn_line column hlb hlg).2 hblank)

/-- A lead of blanks, breaks and comments, with a break and with no tab in front of what follows it,
lands at the column that it is moved to, and forgets the column that it was moved to before. -/
theorem landed_moveTo (hb : hasBreak lead) (hg : Trivia lead)
    (hs : (lastLine lead).all isBlank → '\t' ∉ lastLine lead) (a b : Nat) :
    Landed a lead (moveTo a lead) ∧ moveTo b (moveTo a lead) = moveTo b lead := by
  obtain ⟨front, br, blanks, tail, hbr, hfront, hblanks, ht, rfl, hlast⟩ :=
    exists_front_of_isGap hb hg.isGap
  have htab : tail = [] → '\t' ∉ blanks := by
    rintro rfl
    rw [hlast, List.append_nil] at hs
    exact hs hblanks
  have hspaces : tail = [] → '\t' ∉ List.replicate a ' ' :=
    fun _ hm => absurd (List.eq_of_mem_replicate hm) (by decide)
  rw [moveTo_front hbr hblanks ht htab a, moveTo_front hbr hblanks ht htab b,
    moveTo_front hbr (all_isBlank_replicate a) ht hspaces b, realign_realign]
  exact ⟨landed_front a hbr hfront hblanks ht, rfl⟩

/-- A trailing comment, a comment behind a tab, a blank line, and pairs of breaks. -/
theorem landed_moveTo_comments :
    let lead := " # a\r\n\t# b\r\n \t\n\r   # c # d\r     ".toList
    hasBreak lead ∧ Trivia lead ∧ ((lastLine lead).all isBlank → '\t' ∉ lastLine lead) ∧
      Landed 2 lead (moveTo 2 lead) ∧ moveTo 4 (moveTo 2 lead) = moveTo 4 lead := by
  intro lead
  have hb : hasBreak lead := by decide
  have hg : Trivia lead := by decide
  have hs : (lastLine lead).all isBlank → '\t' ∉ lastLine lead := by decide
  exact ⟨hb, hg, hs, landed_moveTo hb hg hs 2 4⟩

end YamlIndent
