import YamlIndent.Proofs.Lead
import YamlIndent.Text.LineEnd

/-!
# Other line endings

A change of texts that puts some breaks in the place of each row of breaks leaves the lines as they
are, but for empty ones. So gaps end where they ended, the first and the last line of a text stay,
and to move comments and the end of a lead is the same before and after the change. Such changes are
those of line feeds to another line ending, and of all line endings to line feeds.

## Main definitions

* `Rebreaks`: a change of texts that puts breaks in the place of breaks.
* `Ending`, `Ending.convert`: a text with a line ending for each of its line feeds.

## Main results

* `Rebreaks.lineAfter_eq`, `Rebreaks.sameLine`: the last and the first line stay.
* `Rebreaks.splitGap_eq`: a gap is split off where it was.
* `Rebreaks.mapLines_eq`: lines are changed one by one before or after.
* `Rebreaks.moveTo_eq`: a lead is moved to a column before or after.
* `Ending.rebreaks`, `rebreaks_unifyBreaks`: the two changes.
-/

namespace YamlIndent

/-! ### Rows of breaks -/

/-- A text that goes on the line in front of it: it is empty or starts with no break. -/
def staysOnLine : Text → Bool
  | [] => true
  | c :: _ => !isBreak c

theorem staysOnLine_cons {c : Char} {t : Text} : staysOnLine (c :: t) ↔ isBreak c = false := by
  rw [staysOnLine, Bool.not_eq_true']

theorem staysOnLine_of_append {a b : Text} (h : staysOnLine (a ++ b)) : staysOnLine a := by
  cases a with
  | nil => rfl
  | cons c a => exact h

theorem staysOnLine_append {a b : Text} (ha : staysOnLine a) (hb : staysOnLine b) :
    staysOnLine (a ++ b) := by
  cases a with
  | nil => exact hb
  | cons c a => exact ha

theorem staysOnLine_of_not_hasBreak {t : Text} (h : hasBreak t = false) : staysOnLine t := by
  cases t with
  | nil => rfl
  | cons c t =>
    rw [hasBreak_cons, Bool.or_eq_false_iff] at h
    exact staysOnLine_cons.2 h.1

/-- A text that starts a line is empty, or begins with a row of breaks. -/
theorem exists_breaks_append {t : Text} (h : startsLine t) :
    t = [] ∨ ∃ b bs rest, isBreak b ∧ bs.all isBreak ∧ staysOnLine rest ∧ t = b :: bs ++ rest := by
  cases t with
  | nil => exact .inl rfl
  | cons b t =>
    refine .inr ⟨b, t.takeWhile isBreak, t.dropWhile isBreak, h, List.all_takeWhile, ?_, ?_⟩
    · cases hd : t.dropWhile isBreak with
      | nil => rfl
      | cons c rest =>
        have hc := List.head?_dropWhile_not isBreak t
        rw [hd] at hc
        exact staysOnLine_cons.2 (by simpa using hc)
    · rw [List.cons_append, List.takeWhile_append_dropWhile]

/-- Induction on a text by its characters that are no breaks and its rows of breaks. -/
@[elab_as_elim]
theorem rows_induction {motive : Text → Prop} (nil : motive [])
    (cons : ∀ c t, isBreak c = false → motive t → motive (c :: t))
    (row : ∀ b bs t, isBreak b → bs.all isBreak → staysOnLine t → motive t → motive (b :: bs ++ t))
    (t : Text) : motive t := by
  cases t with
  | nil => exact nil
  | cons c t =>
    by_cases hc : isBreak c
    · rcases exists_breaks_append (t := c :: t) hc with h | ⟨b, bs, rest, hb, hbs, hrest, h⟩
      · cases h
      · rw [h]
        exact row b bs rest hb hbs hrest (rows_induction nil cons row rest)
    · exact cons c t (eq_false_of_ne_true hc) (rows_induction nil cons row t)
termination_by t.length
decreasing_by
  · have := congrArg List.length h
    simp only [List.length_append, List.length_cons] at this ⊢
    omega
  · simp

/-- Lines that are changed one by one, and stay empty or not, go on a line as they did. -/
theorem staysOnLine_mapLines {g : Text → Text}
    (hg : ∀ l, hasBreak l = false → hasBreak (g l) = false) (hn : ∀ l, g l = [] ↔ l = [])
    {t : Text} (h : staysOnLine t) : staysOnLine (mapLines g g t) := by
  cases t with
  | nil =>
    rw [mapLines_of_not_hasBreak g g hasBreak_nil, (hn []).2 rfl]
    rfl
  | cons c t =>
    have hfirst := firstLine_mapLines hg hg (c :: t)
    cases hm : mapLines g g (c :: t) with
    | nil => rfl
    | cons d rest =>
      refine staysOnLine_cons.2 (eq_false_of_ne_true fun hd => ?_)
      rw [hm, firstLine_of_startsLine (show startsLine (d :: rest) from hd), eq_comm, hn,
        firstLine_cons, if_neg (Bool.eq_false_iff.1 (staysOnLine_cons.1 h))] at hfirst
      cases hfirst

/-! ### Changing breaks -/

/-- A change of texts that puts a row of breaks in the place of each row of breaks. -/
structure Rebreaks (f : Text → Text) : Prop where
  nil : f [] = []
  cons {c : Char} (t : Text) : isBreak c = false → f (c :: t) = c :: f t
  all_isBreak {bs : Text} : bs.all isBreak → (f bs).all isBreak
  ne_nil {bs : Text} : bs.all isBreak → bs ≠ [] → f bs ≠ []
  row_append {bs t : Text} : bs.all isBreak → staysOnLine t → f (bs ++ t) = f bs ++ f t

namespace Rebreaks

variable {f : Text → Text} (h : Rebreaks f)

include h

/-- A row of breaks becomes a row of breaks. -/
theorem exists_row {b : Char} {bs : Text} (hb : isBreak b) (hbs : bs.all isBreak) :
    ∃ d ds, isBreak d ∧ ds.all isBreak ∧ f (b :: bs) = d :: ds ∧
      ∀ t, staysOnLine t → f (b :: bs ++ t) = d :: ds ++ f t := by
  have hall : (b :: bs).all isBreak := by rw [List.all_cons, hb, hbs]; rfl
  have hne := h.ne_nil hall (List.cons_ne_nil b bs)
  have hbreaks := h.all_isBreak hall
  cases hf : f (b :: bs) with
  | nil => exact absurd hf hne
  | cons d ds =>
    rw [hf, List.all_cons, Bool.and_eq_true] at hbreaks
    exact ⟨d, ds, hbreaks.1, hbreaks.2, rfl, fun t ht => by rw [h.row_append hall ht, hf]⟩

theorem line_append {a : Text} (ha : hasBreak a = false) (t : Text) : f (a ++ t) = a ++ f t := by
  induction a with
  | nil => rfl
  | cons c a ih =>
    rw [hasBreak_cons, Bool.or_eq_false_iff] at ha
    rw [List.cons_append, h.cons _ ha.1, ih ha.2, List.cons_append]

/-- A text on one line stays as it is. -/
theorem eq_self {t : Text} (ht : hasBreak t = false) : f t = t := by
  have := h.line_append ht []
  rwa [List.append_nil, h.nil, List.append_nil] at this

/-- Two texts are changed on their own, unless a row of breaks goes from the one to the other. -/
theorem append (a : Text) {t : Text} (ht : staysOnLine t) : f (a ++ t) = f a ++ f t := by
  induction a using rows_induction with
  | nil => rw [h.nil, List.nil_append, List.nil_append]
  | cons c a hc ih => rw [List.cons_append, h.cons _ hc, h.cons _ hc, ih, List.cons_append]
  | row b bs a hb hbs ha ih =>
    have hall : (b :: bs).all isBreak := by rw [List.all_cons, hb, hbs]; rfl
    rw [List.append_assoc, h.row_append hall (staysOnLine_append ha ht), ih, h.row_append hall ha,
      List.append_assoc]

theorem hasBreak_eq (t : Text) : hasBreak (f t) = hasBreak t := by
  induction t using rows_induction with
  | nil => rw [h.nil]
  | cons c t hc ih => rw [h.cons t hc, hasBreak_cons, hasBreak_cons, ih]
  | row b bs t hb hbs ht =>
    obtain ⟨d, ds, hd, -, -, he⟩ := h.exists_row hb hbs
    rw [he t ht, List.cons_append, List.cons_append, hasBreak_cons, hasBreak_cons, hd, hb]
    rfl

theorem eq_nil_iff {t : Text} : f t = [] ↔ t = [] := by
  induction t using rows_induction with
  | nil => exact ⟨fun _ => rfl, fun _ => h.nil⟩
  | cons c t hc =>
    rw [h.cons t hc]
    exact ⟨fun he => absurd he (List.cons_ne_nil _ _), fun he => absurd he (List.cons_ne_nil _ _)⟩
  | row b bs t hb hbs ht =>
    obtain ⟨d, ds, -, -, -, he⟩ := h.exists_row hb hbs
    rw [he t ht]
    exact ⟨fun he => absurd he (List.cons_ne_nil _ _), fun he => absurd he (List.cons_ne_nil _ _)⟩

/-! ### Lines -/

/-- The line that a reader stands on does not depend on the breaks before. -/
theorem lineAfter_eq (line t : Text) : lineAfter line (f t) = lineAfter line t := by
  induction t using rows_induction generalizing line with
  | nil => rw [h.nil]
  | cons c t hc ih => rw [h.cons t hc, lineAfter, lineAfter, ih]
  | row b bs t hb hbs ht ih =>
    obtain ⟨d, ds, hd, hds, -, he⟩ := h.exists_row hb hbs
    rw [he t ht, lineAfter_append, lineAfter_append, lineAfter_of_all_isBreak hd hds,
      lineAfter_of_all_isBreak hb hbs, ih]

theorem lastLine_eq (t : Text) : lastLine (f t) = lastLine t := by
  rw [lastLine, h.lineAfter_eq, lastLine]

theorem sameLine (t : Text) : SameLine t (f t) := by
  induction t using rows_induction with
  | nil =>
    rw [h.nil]
    exact .refl _
  | cons c t hc ih =>
    rw [h.cons t hc]
    exact ih.append_left [c]
  | row b bs t hb hbs ht =>
    obtain ⟨d, ds, hd, -, -, he⟩ := h.exists_row hb hbs
    rw [he t ht]
    exact .of_startsLine hb hd

/-! ### Gaps -/

theorem isGap_eq (comment : Bool) (t : Text) : isGap comment (f t) = isGap comment t := by
  induction t using rows_induction generalizing comment with
  | nil => rw [h.nil]
  | cons c t hc ih => rw [h.cons t hc, isGap, isGap, ih, ih]
  | row b bs t hb hbs ht ih =>
    obtain ⟨d, ds, hd, hds, -, he⟩ := h.exists_row hb hbs
    have hgap := isGap_of_all_isBreak comment hb hbs
    have hgap' := isGap_of_all_isBreak comment hd hds
    rw [he t ht, isGap_append, isGap_append, hgap.1, hgap.2, hgap'.1, hgap'.2, ih]

/-- A gap is split off where it was. -/
theorem splitGap_eq (comment : Bool) (t : Text) :
    splitGap comment (f t) = (f (splitGap comment t).1, f (splitGap comment t).2) := by
  induction t using rows_induction generalizing comment with
  | nil => simp only [h.nil, splitGap]
  | cons c t hc ih =>
    rw [h.cons t hc, splitGap, splitGap, hc, if_neg Bool.false_ne_true, if_neg Bool.false_ne_true]
    split
    · dsimp only
      rw [ih, h.cons _ hc]
    · rw [h.nil, h.cons t hc]
  | row b bs t hb hbs ht ih =>
    obtain ⟨d, ds, hd, hds, hrow, he⟩ := h.exists_row hb hbs
    have hgap := isGap_of_all_isBreak comment hb hbs
    have hgap' := isGap_of_all_isBreak comment hd hds
    have hsplit : staysOnLine (splitGap false t).1 := by
      rw [← splitGap_append false t] at ht
      exact staysOnLine_of_append ht
    rw [he t ht, splitGap_of_isGap hgap.1, splitGap_of_isGap hgap'.1, hgap.2, hgap'.2, ih,
      h.append _ hsplit, hrow]

/-! ### Lines changed one by one -/

/-- Lines are changed one by one before or after the breaks are changed. -/
theorem mapLines_eq {k g : Text → Text} (hk : ∀ l, hasBreak l = false → hasBreak (k l) = false)
    (hg : ∀ l, hasBreak l = false → hasBreak (g l) = false) (hn : ∀ l, g l = [] ↔ l = [])
    (t : Text) : mapLines k g (f t) = f (mapLines k g t) := by
  obtain ⟨rest, hr, ht⟩ := firstLine_append_rest t
  have hline := hasBreak_firstLine t
  rw [ht]
  generalize firstLine t = line at hline ⊢
  rcases exists_breaks_append hr with rfl | ⟨b, bs, rest, hb, hbs, hrest, rfl⟩
  · rw [List.append_nil, h.eq_self hline, mapLines_of_not_hasBreak k g hline,
      h.eq_self (hk line hline)]
  · obtain ⟨d, ds, hd, hds, -, he⟩ := h.exists_row hb hbs
    have hih := mapLines_eq hg hg hn rest
    have hnil : g [] = [] := (hn []).2 rfl
    rw [h.line_append hline, he rest hrest, List.cons_append, List.cons_append,
      mapLines_append_break k g line hd, mapLines_append_break k g line hb,
      mapLines_breaks_append hnil hds, mapLines_breaks_append hnil hbs, hih,
      mapLines_of_not_hasBreak k g hline, h.line_append (hk line hline), ← List.cons_append,
      ← List.cons_append,
      he _ (staysOnLine_mapLines hg hn hrest)]
termination_by t.length
decreasing_by
  have := congrArg List.length ht
  simp only [List.length_append, List.length_cons] at this
  omega

theorem realign_eq (column : Int) (t : Text) : realign column (f t) = f (realign column t) :=
  h.mapLines_eq (fun _ h => h) (hasBreak_placeComment column) (placeComment_eq_nil_iff column) t

theorem realignDocument_eq (column : Int) (t : Text) :
    realignDocument column (f t) = f (realignDocument column t) :=
  h.mapLines_eq (hasBreak_placeComment 0) (hasBreak_placeComment column)
    (placeComment_eq_nil_iff column) t

/-! ### Columns -/

theorem indentOf_eq (t : Text) : indentOf (f t) = indentOf t := by
  rw [indentOf, h.lastLine_eq, indentOf]

theorem settle_eq (t : Text) : settle (f t) = f (settle t) := by
  rw [settle, h.indentOf_eq, h.realign_eq, settle]

theorem standsAt_iff {t : Text} {column : Nat} : StandsAt (f t) column ↔ StandsAt t column := by
  rw [StandsAt, h.hasBreak_eq, h.lastLine_eq, StandsAt]

/-- A lead is moved to a column before or after its breaks are changed. -/
theorem moveTo_eq {lead : Text} {c : Nat} (hc : StandsAt lead c) (d : Nat) :
    moveTo d (f lead) = f (moveTo d lead) := by
  have hspaces (n : Nat) : staysOnLine (List.replicate n ' ') :=
    staysOnLine_of_not_hasBreak (hasBreak_eq_false_of_all_isBlank (all_isBlank_replicate n))
  have heq (n : Nat) : f (List.replicate n ' ') = List.replicate n ' ' :=
    h.eq_self (hasBreak_eq_false_of_all_isBlank (all_isBlank_replicate n))
  obtain ⟨lines, hb, hl, rfl⟩ := hc.exists_lines_append
  rw [h.append lines (hspaces c), heq, moveTo_lines_append hb hl,
    moveTo_lines_append (by rw [h.hasBreak_eq, hb]) (by rw [h.lastLine_eq, hl]), h.realign_eq,
    h.append _ (hspaces d), heq]

end Rebreaks

/-! ### Another ending for line feeds -/

/-- A line ending: some breaks. -/
structure Ending where
  text : Text
  ne_nil : text ≠ []
  all_isBreak : text.all isBreak
  deriving DecidableEq, Repr

namespace Ending

/-- A carriage return and a line feed. -/
def pair : Ending := ⟨['\r', '\n'], List.cons_ne_nil _ _, rfl⟩

/-- A carriage return by itself. -/
def carriageReturn : Ending := ⟨['\r'], List.cons_ne_nil _ _, rfl⟩

/-- What a character becomes. -/
def replace (e : Ending) (c : Char) : Text :=
  if c = '\n' then e.text else [c]

/-- A text with the ending for each of its line feeds. -/
def convert (e : Ending) (t : Text) : Text :=
  t.flatMap e.replace

variable (e : Ending)

theorem replace_of_not_isBreak {c : Char} (h : isBreak c = false) : e.replace c = [c] := by
  refine if_neg ?_
  rintro rfl
  cases h

/-- A break becomes a row of breaks. -/
theorem replace_of_isBreak {c : Char} (h : isBreak c) :
    e.replace c ≠ [] ∧ (e.replace c).all isBreak := by
  unfold replace
  split
  · exact ⟨e.ne_nil, e.all_isBreak⟩
  · exact ⟨List.cons_ne_nil _ _, by rw [List.all_cons, h]; rfl⟩

/-- To put an ending in the place of line feeds is to change breaks. -/
theorem rebreaks : Rebreaks e.convert where
  nil := rfl
  cons t hc := by
    rw [convert, List.flatMap_cons, e.replace_of_not_isBreak hc]
    rfl
  all_isBreak {bs} h := by
    rw [convert, List.all_flatMap, List.all_eq_true]
    exact fun b hb => (e.replace_of_isBreak (List.all_eq_true.1 h b hb)).2
  ne_nil {bs} h hne he := by
    cases bs with
    | nil => exact hne rfl
    | cons b bs =>
      rw [List.all_cons, Bool.and_eq_true] at h
      rw [convert, List.flatMap_cons, List.append_eq_nil_iff] at he
      exact (e.replace_of_isBreak h.1).1 he.1
  row_append _ _ := List.flatMap_append

end Ending

/-! ### Line feeds for all endings -/

theorem unifyBreaks_cons {c : Char} (hc : c ≠ '\r') (t : Text) :
    unifyBreaks (c :: t) = c :: unifyBreaks t := by
  rw [unifyBreaks]
  · exact fun _ he _ => hc he
  · exact hc

theorem unifyBreaks_cr {t : Text} (h : t.head? ≠ some '\n') :
    unifyBreaks ('\r' :: t) = '\n' :: unifyBreaks t := by
  rw [unifyBreaks]
  rintro cs rfl
  exact h rfl

/-- To put line feeds in the place of all line endings is to change breaks. -/
theorem rebreaks_unifyBreaks : Rebreaks unifyBreaks where
  nil := rfl
  cons {c} t hc := unifyBreaks_cons (by rintro rfl; cases hc) t
  all_isBreak {bs} h := by
    fun_induction unifyBreaks bs with
    | case1 cs ih =>
      simp only [List.all_cons, Bool.and_eq_true] at h ⊢
      exact ⟨rfl, ih h.2.2⟩
    | case2 cs _ ih =>
      simp only [List.all_cons, Bool.and_eq_true] at h ⊢
      exact ⟨rfl, ih h.2⟩
    | case3 c cs _ _ ih =>
      simp only [List.all_cons, Bool.and_eq_true] at h ⊢
      exact ⟨h.1, ih h.2⟩
    | case4 => rfl
  ne_nil {bs} _ hne := by
    fun_cases unifyBreaks bs with
    | case4 => exact absurd rfl hne
    | _ => exact List.cons_ne_nil _ _
  row_append {bs t} h ht := by
    fun_induction unifyBreaks bs with
    | case1 cs ih =>
      simp only [List.all_cons, Bool.and_eq_true] at h
      rw [List.cons_append, List.cons_append, unifyBreaks, ih h.2.2, List.cons_append]
    | case2 cs hcs ih =>
      rw [List.all_cons, Bool.and_eq_true] at h
      have hnext : (cs ++ t).head? ≠ some '\n' := by
        cases cs with
        | nil =>
          rintro he
          obtain ⟨rest, rfl⟩ := List.head?_eq_some_iff.1 he
          cases staysOnLine_cons.1 ht
        | cons d cs =>
          rintro ⟨⟩
          exact hcs cs rfl
      rw [List.cons_append, unifyBreaks_cr hnext, ih h.2, List.cons_append]
    | case3 c cs _ hc ih =>
      rw [List.all_cons, Bool.and_eq_true] at h
      rw [List.cons_append, unifyBreaks_cons hc, ih h.2, List.cons_append]
    | case4 => rfl

end YamlIndent
