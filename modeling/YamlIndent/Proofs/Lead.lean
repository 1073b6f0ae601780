import YamlIndent.Proofs.Source.Gap

/-!
# Moving leads

To realign a lead is to move its comment lines, and to move a lead to a column is to move its
comment lines and the blanks at its end. Both leave the lines of a lead, what trails the text in
front of it, and whether it is a gap as they were; and where the comments or the blanks stood before
does not matter.

## Main definitions

* `mapLines`: a text with its lines changed one by one.
* `StandsAt`: a lead that puts what follows at the start of a line, behind so many spaces.
* `settle`: a lead with its comments in line with its end.

## Main results

* `realign_realign`, `StandsAt.moveTo_moveTo`: of two columns the later one counts.
* `StandsAt.moveTo`: a moved lead puts its token at the column it is moved to.
* `gapBefore_realign`, `gapBefore_moveTo`: a moved gap is a gap.
-/

namespace YamlIndent

/-! ### Lines one by one -/

/-- A text with its first line changed by `f` and its later lines by `g`. -/
def mapLines (f g : Text → Text) (t : Text) : Text :=
  joinLines (f (cutLines t).1) ((cutLines t).2.map fun (b, line) => (b, g line))

theorem realign_eq_mapLines (column : Int) (t : Text) :
    realign column t = mapLines id (placeComment column) t := rfl

theorem realignDocument_eq_mapLines (column : Int) (t : Text) :
    realignDocument column t = mapLines (placeComment 0) (placeComment column) t := rfl

/-- The first line of a text holds no break, and each later line begins behind one. -/
theorem cutLines_lines (t : Text) :
    hasBreak (cutLines t).1 = false ∧
      ∀ l ∈ (cutLines t).2, isBreak l.1 ∧ hasBreak l.2 = false := by
  induction t with
  | nil => exact ⟨rfl, fun _ h => absurd h List.not_mem_nil⟩
  | cons c t ih =>
    rw [cutLines]
    by_cases hc : isBreak c
    · rw [if_pos hc]
      refine ⟨rfl, fun l hl => ?_⟩
      rcases List.mem_cons.1 hl with rfl | hl
      · exact ⟨hc, ih.1⟩
      · exact ih.2 l hl
    · rw [if_neg hc]
      exact ⟨by simp [hasBreak_cons, hc, ih.1], ih.2⟩

/-- Lines that are joined are cut apart again where they were joined. -/
theorem cutLines_joinLines {first : Text} {later : List (Char × Text)}
    (hf : hasBreak first = false) (hl : ∀ l ∈ later, isBreak l.1 ∧ hasBreak l.2 = false) :
    cutLines (joinLines first later) = (first, later) := by
  induction first with
  | cons c first ih =>
    rw [hasBreak_cons, Bool.or_eq_false_iff] at hf
    have := ih hf.2
    rw [joinLines] at this ⊢
    rw [List.cons_append, cutLines, hf.1, this]
    rfl
  | nil =>
    induction later with
    | nil => rfl
    | cons l later ih =>
      obtain ⟨b, line⟩ := l
      obtain ⟨hb, hline⟩ := hl (b, line) List.mem_cons_self
      have hrest := ih fun l h => hl l (List.mem_cons_of_mem _ h)
      rw [joinLines, List.nil_append] at hrest ⊢
      have hcut (line : Text) (h : hasBreak line = false) :
          cutLines (line ++ later.flatMap fun (b, line) => b :: line) = (line, later) := by
        induction line with
        | nil => exact hrest
        | cons c line ih =>
          rw [hasBreak_cons, Bool.or_eq_false_iff] at h
          rw [List.cons_append, cutLines, h.1, ih h.2]
          rfl
      rw [List.flatMap_cons, List.cons_append, cutLines, if_pos hb, hcut line hline]

theorem cutLines_mapLines {f g : Text → Text}
    (hf : ∀ l, hasBreak l = false → hasBreak (f l) = false)
    (hg : ∀ l, hasBreak l = false → hasBreak (g l) = false) (t : Text) :
    cutLines (mapLines f g t) =
      (f (cutLines t).1, (cutLines t).2.map fun (b, line) => (b, g line)) := by
  obtain ⟨h1, h2⟩ := cutLines_lines t
  refine cutLines_joinLines (hf _ h1) fun l hl => ?_
  obtain ⟨⟨b, line⟩, hm, rfl⟩ := List.mem_map.1 hl
  exact ⟨(h2 _ hm).1, hg _ (h2 _ hm).2⟩

theorem cutLines_append_break (front : Text) {c : Char} (hc : isBreak c) (t : Text) :
    cutLines (front ++ c :: t) =
      ((cutLines front).1, (cutLines front).2 ++ (c, (cutLines t).1) :: (cutLines t).2) := by
  induction front with
  | nil =>
    rw [List.nil_append, cutLines.eq_2, if_pos hc]
    rfl
  | cons d front ih =>
    rw [List.cons_append, cutLines, cutLines, ih]
    by_cases hd : isBreak d
    · rw [if_pos hd, if_pos hd]
      rfl
    · rw [if_neg hd, if_neg hd]

/-- The lines of a text in front of a break are changed apart from those behind it. -/
theorem mapLines_append_break (f g : Text → Text) (front : Text) {c : Char} (hc : isBreak c)
    (t : Text) : mapLines f g (front ++ c :: t) = mapLines f g front ++ c :: mapLines g g t := by
  rw [mapLines, cutLines_append_break front hc, mapLines, mapLines, joinLines, joinLines,
    joinLines, List.map_append, List.flatMap_append, List.append_assoc]
  rfl

theorem cutLines_of_not_hasBreak {t : Text} (h : hasBreak t = false) : cutLines t = (t, []) := by
  have hl : ∀ l ∈ ([] : List (Char × Text)), isBreak l.1 ∧ hasBreak l.2 = false :=
    fun _ h => absurd h List.not_mem_nil
  have := cutLines_joinLines h hl
  rwa [joinLines, List.flatMap_nil, List.append_nil] at this

theorem mapLines_of_not_hasBreak (f g : Text → Text) {t : Text} (h : hasBreak t = false) :
    mapLines f g t = f t := by
  rw [mapLines, cutLines_of_not_hasBreak h]
  exact List.append_nil _

theorem hasBreak_eq_isEmpty_later (t : Text) : hasBreak t = !(cutLines t).2.isEmpty := by
  induction t with
  | nil => rfl
  | cons c t ih =>
    rw [hasBreak_cons, cutLines]
    by_cases hc : isBreak c
    · rw [if_pos hc, hc]
      rfl
    · rw [if_neg hc, eq_false_of_ne_true hc, ih, Bool.false_or]

theorem hasBreak_mapLines {f g : Text → Text}
    (hf : ∀ l, hasBreak l = false → hasBreak (f l) = false)
    (hg : ∀ l, hasBreak l = false → hasBreak (g l) = false) (t : Text) :
    hasBreak (mapLines f g t) = hasBreak t := by
  rw [hasBreak_eq_isEmpty_later, cutLines_mapLines hf hg, hasBreak_eq_isEmpty_later,
    List.isEmpty_map]

theorem firstLine_mapLines {f g : Text → Text}
    (hf : ∀ l, hasBreak l = false → hasBreak (f l) = false)
    (hg : ∀ l, hasBreak l = false → hasBreak (g l) = false) (t : Text) :
    firstLine (mapLines f g t) = f (firstLine t) := by
  rw [firstLine, cutLines_mapLines hf hg]
  rfl

/-- Changes of lines that keep gaps gaps, and comments open, keep so the gap that the lines make. -/
theorem isGap_mapLines {f g : Text → Text}
    (hf : ∀ l, hasBreak l = false → isGap false l → hasBreak (f l) = false ∧
      isGap false (f l) ∧ inComment false (f l) = inComment false l)
    (hg : ∀ l, hasBreak l = false → isGap false l → hasBreak (g l) = false ∧
      isGap false (g l) ∧ inComment false (g l) = inComment false l)
    {t : Text} (h : isGap false t) :
    isGap false (mapLines f g t) ∧ inComment false (mapLines f g t) = inComment false t := by
  by_cases hb : hasBreak t
  · obtain ⟨front, c, hc, he⟩ := exists_eq_append_lastLine hb
    rw [he, isGap_append_break false front hc, Bool.and_eq_true] at h
    have hl := hg _ (hasBreak_lastLine t) h.2
    have hfront := isGap_mapLines hf hg h.1
    rw [he, mapLines_append_break f g front hc, mapLines_of_not_hasBreak g g (hasBreak_lastLine t),
      isGap_append_break false _ hc, inComment_append_break false _ hc,
      inComment_append_break false _ hc, hfront.1, hl.2.1, hl.2.2]
    exact ⟨rfl, rfl⟩
  · have hb' : hasBreak t = false := by simpa using hb
    rw [mapLines_of_not_hasBreak f g hb']
    exact (hf t hb' h).2
termination_by t.length
decreasing_by
  have := congrArg List.length he
  simp only [List.length_append, List.length_cons] at this
  omega

/-- The lines of a gap are gaps. -/
theorem isGap_cutLines {comment : Bool} {t : Text} (h : isGap comment t) :
    isGap comment (cutLines t).1 ∧ ∀ l ∈ (cutLines t).2, isGap false l.2 := by
  induction t generalizing comment with
  | nil => exact ⟨rfl, fun _ hl => absurd hl List.not_mem_nil⟩
  | cons c t ih =>
    rw [isGap] at h
    rw [cutLines]
    by_cases hc : isBreak c
    · rw [if_pos hc] at h ⊢
      exact ⟨rfl, List.forall_mem_cons.2 (ih h)⟩
    · rw [if_neg hc, Bool.and_eq_true] at h
      rw [if_neg hc, isGap, if_neg hc, h.1]
      exact ih h.2

/-- Changes of lines that agree on the lines of gaps agree on gaps. -/
theorem mapLines_congr {f g f' g' : Text → Text}
    (hf : ∀ l, hasBreak l = false → isGap false l → f l = f' l)
    (hg : ∀ l, hasBreak l = false → isGap false l → g l = g' l) {t : Text}
    (h : isGap false t) : mapLines f g t = mapLines f' g' t := by
  obtain ⟨hb, hbs⟩ := cutLines_lines t
  obtain ⟨hgap, hgaps⟩ := isGap_cutLines h
  have hlater : (cutLines t).2.map (fun (b, line) => (b, g line)) =
      (cutLines t).2.map fun (b, line) => (b, g' line) :=
    List.map_congr_left fun (b, l) hl =>
      congrArg (Prod.mk b) (hg l (hbs (b, l) hl).2 (hgaps (b, l) hl))
  rw [mapLines, mapLines, hf _ hb hgap, hlater]

theorem mapLines_mapLines {f g : Text → Text}
    (hf : ∀ l, hasBreak l = false → hasBreak (f l) = false)
    (hg : ∀ l, hasBreak l = false → hasBreak (g l) = false) (f' g' : Text → Text) (t : Text) :
    mapLines f' g' (mapLines f g t) = mapLines (f' ∘ f) (g' ∘ g) t := by
  rw [mapLines, cutLines_mapLines hf hg, mapLines, List.map_map]
  rfl

/-- Nothing is changed between breaks. -/
theorem mapLines_breaks_append {f : Text → Text} (hf : f [] = []) {breaks : Text}
    (h : breaks.all isBreak) (t : Text) :
    mapLines f f (breaks ++ t) = breaks ++ mapLines f f t := by
  induction breaks with
  | nil => rfl
  | cons b breaks ih =>
    rw [List.all_cons, Bool.and_eq_true] at h
    have := mapLines_append_break f f [] h.1 (breaks ++ t)
    rw [List.nil_append, mapLines_of_not_hasBreak f f hasBreak_nil, hf, ih h.2] at this
    exact this

theorem mapLines_append_breaks (f : Text → Text) {g : Text → Text} (hg : g [] = [])
    (front : Text) {breaks : Text} (h : breaks.all isBreak) :
    mapLines f g (front ++ breaks) = mapLines f g front ++ breaks := by
  cases breaks with
  | nil => rw [List.append_nil, List.append_nil]
  | cons b breaks =>
    rw [List.all_cons, Bool.and_eq_true] at h
    have hbreaks := mapLines_breaks_append hg h.2 []
    rw [List.append_nil, mapLines_of_not_hasBreak g g hasBreak_nil, hg, List.append_nil] at hbreaks
    rw [mapLines_append_break f g front h.1, hbreaks]

/-! ### Comments -/

theorem placeComment_nil (column : Int) : placeComment column [] = [] := rfl

theorem isInlineSpace_of_isBlank {c : Char} (h : isBlank c) : isInlineSpace c := by
  rw [isInlineSpace, isSpace_of_isBlank h, isBreak_eq_false_of_isBlank h]
  rfl

theorem all_isBlank_replicate (n : Nat) : (List.replicate n ' ').all isBlank := by
  rw [List.all_eq_true]
  intro c hc
  rw [List.eq_of_mem_replicate hc]
  rfl

theorem dropWhile_isInlineSpace_of_all_isBlank {t : Text} (h : t.all isBlank) (rest : Text) :
    (t ++ '#' :: rest).dropWhile isInlineSpace = '#' :: rest := by
  induction t with
  | nil => rfl
  | cons c t ih =>
    rw [List.all_cons, Bool.and_eq_true] at h
    rw [List.cons_append, List.dropWhile_cons_of_pos (isInlineSpace_of_isBlank h.1), ih h.2]

theorem placeComment_of_all_isBlank {line : Text} (h : line.all isBlank) (column : Int) :
    placeComment column line = line := by
  have hd (t : Text) (ht : t.all isBlank) : t.dropWhile isInlineSpace = [] := by
    induction t with
    | nil => rfl
    | cons c t ih =>
      rw [List.all_cons, Bool.and_eq_true] at ht
      rw [List.dropWhile_cons_of_pos (isInlineSpace_of_isBlank ht.1), ih ht.2]
  rw [placeComment, hd line h]

theorem placeComment_append_comment {blanks : Text} (h : blanks.all isBlank) (comment : Text)
    (column : Int) :
    placeComment column (blanks ++ '#' :: comment) = spaces column ++ '#' :: comment := by
  rw [placeComment, dropWhile_isInlineSpace_of_all_isBlank h]
  rfl

/-- A line is a comment behind white space, or has no comment to place. -/
theorem placeComment_cases (line : Text) :
    (∃ front comment, line = front ++ '#' :: comment ∧
      ∀ column, placeComment column line = spaces column ++ '#' :: comment) ∨
    ∀ column, placeComment column line = line := by
  by_cases h : ∃ comment, line.dropWhile isInlineSpace = '#' :: comment
  · obtain ⟨comment, hc⟩ := h
    refine .inl ⟨line.takeWhile isInlineSpace, comment, ?_, fun column => ?_⟩
    · rw [← hc, List.takeWhile_append_dropWhile]
    · rw [placeComment, hc]
      rfl
  · refine .inr fun column => ?_
    unfold placeComment
    split
    · rename_i comment hc
      exact absurd ⟨comment, hc⟩ h
    · rfl

theorem placeComment_eq_nil_iff (column : Int) (line : Text) :
    placeComment column line = [] ↔ line = [] := by
  rcases placeComment_cases line with ⟨front, comment, rfl, h⟩ | h
  · rw [h]
    simp
  · rw [h]

theorem placeComment_placeComment (c d : Int) (line : Text) :
    placeComment c (placeComment d line) = placeComment c line := by
  rcases placeComment_cases line with ⟨front, comment, -, h⟩ | h
  · rw [h, h]
    exact placeComment_append_comment (all_isBlank_replicate _) comment c
  · rw [h]

theorem hasBreak_spaces (column : Int) : hasBreak (spaces column) = false :=
  hasBreak_eq_false_of_all_isBlank (all_isBlank_replicate _)

theorem hasBreak_placeComment (column : Int) (line : Text) (h : hasBreak line = false) :
    hasBreak (placeComment column line) = false := by
  rcases placeComment_cases line with ⟨front, comment, hl, hp⟩ | hp
  · rw [hp, hasBreak_append, hasBreak_spaces]
    rw [hl, hasBreak_append, Bool.or_eq_false_iff] at h
    exact h.2
  · rw [hp, h]

theorem isGap_placeComment (column : Int) (line : Text) (hb : hasBreak line = false)
    (hg : isGap false line) :
    hasBreak (placeComment column line) = false ∧ isGap false (placeComment column line) ∧
      inComment false (placeComment column line) = inComment false line := by
  refine ⟨hasBreak_placeComment column line hb, ?_⟩
  rcases isGap_line_cases hb hg with ⟨h, -⟩ | ⟨blanks, comment, h1, h2, rfl⟩
  · rw [placeComment_of_all_isBlank h]
    exact ⟨hg, rfl⟩
  · rw [placeComment_append_comment h1, (isGap_comment h1 h2).2]
    exact isGap_comment (all_isBlank_replicate _) h2

/-! ### Realigned leads -/

theorem realign_realign (c d : Int) (lead : Text) :
    realign c (realign d lead) = realign c lead := by
  rw [realign_eq_mapLines, realign_eq_mapLines, realign_eq_mapLines,
    mapLines_mapLines (f := id) (fun _ h => h) (hasBreak_placeComment d)]
  congr 1
  funext line
  exact placeComment_placeComment c d line

theorem realignDocument_realignDocument (c : Int) (lead : Text) :
    realignDocument c (realignDocument c lead) = realignDocument c lead := by
  rw [realignDocument_eq_mapLines, realignDocument_eq_mapLines,
    mapLines_mapLines (hasBreak_placeComment 0) (hasBreak_placeComment c)]
  congr 1
  · funext line
    exact placeComment_placeComment 0 0 line
  · funext line
    exact placeComment_placeComment c c line

theorem hasBreak_realign (c : Int) (lead : Text) : hasBreak (realign c lead) = hasBreak lead :=
  hasBreak_mapLines (fun _ h => h) (hasBreak_placeComment c) lead

theorem hasBreak_realignDocument (c : Int) (lead : Text) :
    hasBreak (realignDocument c lead) = hasBreak lead :=
  hasBreak_mapLines (hasBreak_placeComment 0) (hasBreak_placeComment c) lead

theorem realign_of_not_hasBreak (c : Int) {lead : Text} (h : hasBreak lead = false) :
    realign c lead = lead :=
  mapLines_of_not_hasBreak id _ h

theorem sameLine_realign (c : Int) (lead : Text) : SameLine (realign c lead) lead :=
  firstLine_mapLines (fun _ h => h) (hasBreak_placeComment c) lead

theorem gapBefore_realign (c : Int) {lead rest : Text} (h : GapBefore lead rest) :
    GapBefore (realign c lead) rest := by
  have hg := isGap_mapLines (fun l hb hl => ⟨hb, hl, rfl⟩) (isGap_placeComment c) h.1
  exact ⟨hg.1, h.2.imp_right fun hr => ⟨hg.2.trans hr.1, hr.2⟩⟩

theorem gapBefore_realignDocument (c : Int) {lead rest : Text} (h : GapBefore lead rest) :
    GapBefore (realignDocument c lead) rest := by
  have hg := isGap_mapLines (isGap_placeComment 0) (isGap_placeComment c) h.1
  exact ⟨hg.1, h.2.imp_right fun hr => ⟨hg.2.trans hr.1, hr.2⟩⟩

/-- The blanks that a lead ends on stay where its comments are moved. -/
theorem lastLine_mapLines_placeComment {f : Text → Text} {c : Int}
    (hf : ∀ l, l.all isBlank → f l = l) {lead : Text} (h : (lastLine lead).all isBlank) :
    lastLine (mapLines f (placeComment c) lead) = lastLine lead := by
  by_cases hb : hasBreak lead
  · obtain ⟨front, br, hbr, he⟩ := exists_eq_append_lastLine hb
    have hl := hasBreak_lastLine lead
    rw [he, mapLines_append_break _ _ front hbr, mapLines_of_not_hasBreak _ _ hl,
      placeComment_of_all_isBlank h, lastLine_append_cons _ hbr hl, ← he]
  · have hb' : hasBreak lead = false := by simpa using hb
    rw [lastLine_of_not_hasBreak hb'] at h
    rw [mapLines_of_not_hasBreak _ _ hb', hf lead h]

theorem lastLine_realign (c : Int) {lead : Text} (h : (lastLine lead).all isBlank) :
    lastLine (realign c lead) = lastLine lead :=
  lastLine_mapLines_placeComment (fun _ _ => rfl) h

theorem lastLine_realignDocument (c : Int) {lead : Text} (h : (lastLine lead).all isBlank) :
    lastLine (realignDocument c lead) = lastLine lead :=
  lastLine_mapLines_placeComment (fun _ hl => placeComment_of_all_isBlank hl 0) h

/-- A text leads to the same line as another if both break or not, and their last lines agree. -/
theorem lineAfter_congr {s t : Text} (hb : hasBreak s = hasBreak t) (hl : lastLine s = lastLine t)
    (line : Text) : lineAfter line s = lineAfter line t := by
  by_cases h : hasBreak t
  · rw [lineAfter_of_hasBreak h, lineAfter_of_hasBreak (hb.trans h), hl]
  · have ht : hasBreak t = false := by simpa using h
    rw [lastLine_of_not_hasBreak ht, lastLine_of_not_hasBreak (hb.trans ht)] at hl
    rw [hl]

theorem lineAfter_realign (c : Int) {lead : Text} (h : (lastLine lead).all isBlank)
    (line : Text) : lineAfter line (realign c lead) = lineAfter line lead :=
  lineAfter_congr (hasBreak_realign c lead) (lastLine_realign c h) line

theorem lineAfter_realignDocument (c : Int) {lead : Text} (h : (lastLine lead).all isBlank)
    (line : Text) : lineAfter line (realignDocument c lead) = lineAfter line lead :=
  lineAfter_congr (hasBreak_realignDocument c lead) (lastLine_realignDocument c h) line

/-- A lead that is realigned begins as before. -/
theorem head?_realign (c : Int) (lead : Text) : (realign c lead).head? = lead.head? := by
  cases lead with
  | nil => rfl
  | cons b lead =>
    by_cases hb : isBreak b
    · rw [realign, cutLines, if_pos hb]
      rfl
    · rw [realign, cutLines, if_neg hb]
      rfl

/-! ### Leads at a column -/

/-- The lead puts what follows at a column of a new line, behind spaces only. -/
def StandsAt (lead : Text) (column : Nat) : Prop :=
  hasBreak lead ∧ lastLine lead = List.replicate column ' '

theorem takeWhile_eq_self_of_all {p : Char → Bool} {t : Text} (h : t.all p) :
    t.takeWhile p = t := by
  induction t with
  | nil => rfl
  | cons c t ih =>
    rw [List.all_cons, Bool.and_eq_true] at h
    rw [List.takeWhile_cons_of_pos h.1, ih h.2]

namespace StandsAt

variable {lead : Text} {column : Nat}

theorem all_isBlank (h : StandsAt lead column) : (lastLine lead).all isBlank := by
  rw [h.2]
  exact all_isBlank_replicate column

theorem indentOf_eq (h : StandsAt lead column) : indentOf lead = column := by
  rw [indentOf, takeWhile_eq_self_of_all h.all_isBlank, h.2, List.length_replicate]

/-- A lead puts what follows at one column only. -/
theorem unique {column' : Nat} (h : StandsAt lead column) (h' : StandsAt lead column') :
    column = column' := by
  rw [← h.indentOf_eq, h'.indentOf_eq]

theorem exists_eq_append (h : StandsAt lead column) :
    ∃ front br, isBreak br ∧ lead = front ++ br :: List.replicate column ' ' := by
  obtain ⟨front, br, hbr, he⟩ := exists_eq_append_lastLine h.1
  exact ⟨front, br, hbr, by rw [← h.2, ← he]⟩

/-- A lead that stands at a column is whole lines, and spaces up to there. -/
theorem exists_lines_append (h : StandsAt lead column) :
    ∃ lines, hasBreak lines ∧ lastLine lines = [] ∧ lead = lines ++ List.replicate column ' ' := by
  obtain ⟨front, br, hbr, rfl⟩ := h.exists_eq_append
  refine ⟨front ++ [br], ?_, lastLine_append_cons front hbr rfl, by rw [List.append_assoc]; rfl⟩
  rw [hasBreak_append, hasBreak_cons, hbr, Bool.true_or, Bool.or_true]

theorem of_eq_append {front : Text} {br : Char} (hbr : isBreak br) :
    StandsAt (front ++ br :: List.replicate column ' ') column := by
  refine ⟨by simp [hasBreak_cons, hbr], lastLine_append_cons front hbr ?_⟩
  exact hasBreak_eq_false_of_all_isBlank (all_isBlank_replicate column)

theorem realign (h : StandsAt lead column) (c : Int) : StandsAt (realign c lead) column :=
  ⟨by rw [hasBreak_realign, h.1], by rw [lastLine_realign c h.all_isBlank, h.2]⟩

end StandsAt

/-! ### Moved leads -/

theorem shiftEnd_replicate (t : Text) (c d : Nat) :
    shiftEnd ((d : Int) - c) (t ++ List.replicate c ' ') = t ++ List.replicate d ' ' := by
  rw [shiftEnd]
  by_cases h : c ≤ d
  · obtain ⟨n, rfl⟩ := Nat.exists_eq_add_of_le h
    have hn : ((c + n : Nat) - c : Int).toNat = n := by omega
    rw [if_pos (by omega), spaces, hn, List.append_assoc, List.replicate_append_replicate]
  · obtain ⟨n, rfl⟩ := Nat.exists_eq_add_of_le (Nat.le_of_not_le h)
    have hn : (-((d : Int) - (d + n : Nat))).toNat = n := by omega
    have hlen : (t ++ List.replicate (d + n) ' ').length - n =
        (t ++ List.replicate d ' ').length := by
      simp only [List.length_append, List.length_replicate]
      omega
    rw [if_neg (by omega), hn, hlen, ← List.replicate_append_replicate, ← List.append_assoc,
      List.take_left]

/-- A lead that is moved has its comments moved and its blanks at the end replaced. -/
theorem moveTo_append {front : Text} {br : Char} (hbr : isBreak br) (c d : Nat) :
    moveTo d (front ++ br :: List.replicate c ' ') =
      realign d front ++ br :: List.replicate d ' ' := by
  have hs : StandsAt (front ++ br :: List.replicate c ' ') c := .of_eq_append hbr
  have hr : realign d (front ++ br :: List.replicate c ' ') =
      (realign d front ++ [br]) ++ List.replicate c ' ' := by
    have hb := all_isBlank_replicate c
    rw [realign_eq_mapLines, mapLines_append_break _ _ front hbr,
      mapLines_of_not_hasBreak _ _ (hasBreak_eq_false_of_all_isBlank hb),
      placeComment_of_all_isBlank hb, List.append_assoc]
    rfl
  rw [moveTo, hs.1]
  simp only [Bool.not_true, Bool.false_eq_true, if_false]
  rw [if_pos (hs.realign d).all_isBlank, hs.indentOf_eq, hr, shiftEnd_replicate,
    List.append_assoc]
  rfl

theorem moveTo_lines_append {lines : Text} (hb : hasBreak lines) (hl : lastLine lines = [])
    (c d : Nat) : moveTo d (lines ++ List.replicate c ' ') =
      realign d lines ++ List.replicate d ' ' := by
  obtain ⟨front, br, hbr, he⟩ := exists_eq_append_lastLine hb
  have hbreak : [br].all isBreak := by rw [List.all_cons, hbr]; rfl
  rw [hl] at he
  rw [he, List.append_assoc, List.singleton_append, moveTo_append hbr, realign_eq_mapLines,
    realign_eq_mapLines, mapLines_append_breaks id (placeComment_nil d) front hbreak,
    List.append_assoc, List.singleton_append]

theorem moveTo_of_not_hasBreak (column : Int) {lead : Text} (h : hasBreak lead = false) :
    moveTo column lead = lead := by
  rw [moveTo, h]
  rfl

theorem StandsAt.moveTo {lead : Text} {c : Nat} (h : StandsAt lead c) (d : Nat) :
    StandsAt (moveTo d lead) d := by
  obtain ⟨front, br, hbr, rfl⟩ := h.exists_eq_append
  rw [moveTo_append hbr]
  exact .of_eq_append hbr

theorem StandsAt.moveTo_moveTo {lead : Text} {c : Nat} (h : StandsAt lead c) (d e : Nat) :
    YamlIndent.moveTo e (YamlIndent.moveTo d lead) = YamlIndent.moveTo e lead := by
  obtain ⟨front, br, hbr, rfl⟩ := h.exists_eq_append
  rw [moveTo_append hbr, moveTo_append hbr, moveTo_append hbr, realign_realign]

theorem StandsAt.sameLine_moveTo {lead : Text} {c : Nat} (h : StandsAt lead c) (d : Nat) :
    SameLine (YamlIndent.moveTo d lead) lead := by
  obtain ⟨front, br, hbr, rfl⟩ := h.exists_eq_append
  have hline (s t : Text) : SameLine (br :: s) (br :: t) := .of_startsLine hbr hbr
  rw [moveTo_append hbr]
  by_cases hf : hasBreak front
  · exact .append_of_hasBreak (by rw [hasBreak_realign, hf]) hf (sameLine_realign d front) _ _
  · rw [realign_of_not_hasBreak d (by simpa using hf)]
    exact .append_left front (hline _ _)

theorem gapBefore_moveTo {lead rest : Text} {c : Nat} (h : StandsAt lead c)
    (hg : GapBefore lead rest) (d : Nat) : GapBefore (moveTo d lead) rest := by
  obtain ⟨front, br, hbr, rfl⟩ := h.exists_eq_append
  have hfront : isGap false front := by
    have := hg.1
    rw [isGap_append_break false front hbr, Bool.and_eq_true] at this
    exact this.1
  have hmapped := isGap_mapLines (fun l hb hl => ⟨hb, hl, rfl⟩) (isGap_placeComment d) hfront
  have hblank := all_isBlank_replicate d
  rw [moveTo_append hbr]
  refine ⟨?_, hg.2.imp_right fun hr => ⟨?_, hr.2⟩⟩
  · have hr : isGap false (realign d front) := hmapped.1
    rw [isGap_append_break false _ hbr, hr, isGap_of_all_isBlank false hblank]
    rfl
  · rw [inComment_append_break false _ hbr, inComment_of_all_isBlank false hblank]

/-! ### Leads whose columns stay -/

/-- A lead with its comments in line with its end. -/
def settle (lead : Text) : Text :=
  realign (indentOf lead) lead

/-- The last line of a gap is blanks, or blanks and a comment. -/
theorem lastLine_cases {gap : Text} (h : isGap false gap) :
    (lastLine gap).all isBlank ∨ ∃ blanks comment, blanks.all isBlank ∧
      hasBreak comment = false ∧ lastLine gap = blanks ++ '#' :: comment := by
  have hl : isGap false (lastLine gap) := by
    by_cases hb : hasBreak gap
    · obtain ⟨front, br, hbr, he⟩ := exists_eq_append_lastLine hb
      rw [he, isGap_append_break false front hbr, Bool.and_eq_true] at h
      exact h.2
    · rwa [lastLine_of_not_hasBreak (by simpa using hb)]
  exact (isGap_line_cases (hasBreak_lastLine gap) hl).imp_left And.left

theorem indentOf_settle {gap : Text} (h : isGap false gap) :
    indentOf (settle gap) = indentOf gap := by
  rcases lastLine_cases h with hb | ⟨blanks, comment, hb, hc, he⟩
  · rw [indentOf, settle, lastLine_realign _ hb]
    rfl
  · have hwidth {b : Text} (hb : b.all isBlank) :
        ((b ++ '#' :: comment).takeWhile isBlank).length = b.length := by
      induction b with
      | nil => rfl
      | cons d b ih =>
        rw [List.all_cons, Bool.and_eq_true] at hb
        rw [List.cons_append, List.takeWhile_cons_of_pos hb.1, List.length_cons, ih hb.2,
          List.length_cons]
    have hindent : indentOf gap = blanks.length := by
      rw [indentOf, he, hwidth hb]
    by_cases hbr : hasBreak gap
    · obtain ⟨front, br, hbr, hg⟩ := exists_eq_append_lastLine hbr
      have hl := hasBreak_lastLine gap
      rw [settle, hindent, hg, realign_eq_mapLines, mapLines_append_break _ _ front hbr,
        mapLines_of_not_hasBreak _ _ hl, he, placeComment_append_comment hb, indentOf,
        lastLine_append_cons _ hbr, spaces, hwidth (all_isBlank_replicate _),
        List.length_replicate]
      · rfl
      · rw [hasBreak_append, hasBreak_spaces]
        exact hc
    · rw [settle, realign_of_not_hasBreak _ (by simpa using hbr)]

theorem settle_settle {gap : Text} (h : isGap false gap) : settle (settle gap) = settle gap := by
  rw [settle, indentOf_settle h, settle, realign_realign]

/-- A lead that stands at a column is moved there by moving its comments only. -/
theorem moveTo_eq_settle {lead : Text} {k : Nat} (h : StandsAt lead k) :
    moveTo k lead = settle lead := by
  obtain ⟨front, br, hbr, rfl⟩ := h.exists_eq_append
  rw [moveTo, h.1, h.indentOf_eq, settle, h.indentOf_eq]
  simp only [Bool.not_true, Bool.false_eq_true, if_false]
  rw [if_pos (h.realign k).all_isBlank, Int.sub_self, shiftEnd, if_pos (Int.le_refl 0)]
  exact List.append_nil _

end YamlIndent
