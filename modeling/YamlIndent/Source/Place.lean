import YamlIndent.Text.Basic

/-!
# Places in a source text

A place stands between two characters of a source. It holds the rest of the source and, of what was
read, only the current line: nothing else of the past decides how the rest is read.

## Main definitions

* `Place`: the current line up to the place, and the rest of the source.
* `Place.past`: the place after some text has been read.
* `Place.column`, `Place.tabbed`: where the place stands on its line, and whether tabs lead to it.
* `Place.Reaches`: one place follows another after some text, and `Place.Leads`, after any text.
* `splitGap`, `Place.gap`: the blanks, breaks and comments in front of the next token.
* `Place.atMark`: a `---` or `...` mark at the start of a line.

## Main results

* `splitGap_append`: a gap and what follows it are the text they were split from.
* `splitGap_idem`: what follows a gap begins with a token.
* `Place.Leads.eq_of_length_le`: a place that leads to another with as much to come is that place.
-/

namespace YamlIndent

/-- A place between two characters of a source. -/
structure Place where
  /-- The current line up to the place, last character first. -/
  line : Text
  /-- The source from the place on. -/
  rest : Text
  deriving DecidableEq, Repr

/-- Splits off the blanks, breaks and comments that a text begins with. A comment runs to the end of
its line; `comment` says that one has begun already. -/
def splitGap (comment : Bool) : Text → Text × Text
  | [] => ([], [])
  | c :: cs =>
    if isBreak c then (c :: (splitGap false cs).1, (splitGap false cs).2)
    else if comment || isBlank c || c == '#' then
      let opened := comment || c == '#'
      (c :: (splitGap opened cs).1, (splitGap opened cs).2)
    else ([], c :: cs)

theorem splitGap_append (comment : Bool) (t : Text) :
    (splitGap comment t).1 ++ (splitGap comment t).2 = t := by
  induction t generalizing comment with
  | nil => rfl
  | cons c cs ih =>
    simp only [splitGap]
    split
    · simp [ih]
    · split <;> simp [ih]

theorem splitGap_length_le (comment : Bool) (t : Text) :
    (splitGap comment t).2.length ≤ t.length := by
  have h := congrArg List.length (splitGap_append comment t)
  simp only [List.length_append] at h
  omega

theorem splitGap_idem (comment : Bool) (t : Text) :
    splitGap false (splitGap comment t).2 = ([], (splitGap comment t).2) := by
  induction t generalizing comment with
  | nil => rfl
  | cons c cs ih =>
    rw [splitGap]
    split
    · exact ih false
    · split
      · exact ih _
      · rename_i hb hg
        simp only [Bool.or_eq_true, not_or, Bool.not_eq_true] at hb hg
        simp [splitGap, hb, hg.1.2, hg.2]

namespace Place

/-- The place at the start of a source. -/
def start (source : Text) : Place :=
  ⟨[], source⟩

/-- The place after `taken`, with `rest` still to come. -/
def past (p : Place) (taken rest : Text) : Place :=
  ⟨lineAfter p.line taken, rest⟩

/-- Whether the source ends here. -/
def atEnd (p : Place) : Bool :=
  p.rest.isEmpty

/-- The number of characters in front of the place on its line. -/
def column (p : Place) : Nat :=
  p.line.length

/-- Only blanks stand in front of the place on its line, a tab among them. -/
def tabbed (p : Place) : Bool :=
  p.line.contains '\t' && p.line.all isBlank

/-- The blanks, breaks and comments from here to the next token, and the place of that token. -/
def gap (p : Place) : Text × Place :=
  let (gap, rest) := splitGap false p.rest
  (gap, p.past gap rest)

/-- A mark stands here: at the start of a line, and ended by a blank, a break or the end. -/
def atMark (mark : Text) (p : Place) : Bool :=
  p.line.isEmpty && mark.isPrefixOf p.rest && endsToken (p.rest.drop mark.length)

/-- The mark that starts a document. -/
def startMark : Text := ['-', '-', '-']

/-- The mark that ends a document. -/
def endMark : Text := ['.', '.', '.']

/-- Either mark of a document stands here. -/
def atDocumentMark (p : Place) : Bool :=
  p.atMark startMark || p.atMark endMark

/-- The mark, if it stands here, else nothing; and the place after it. -/
def takeMark (mark : Text) (p : Place) : Text × Place :=
  if p.atMark mark then (mark, p.past mark (p.rest.drop mark.length)) else ([], p)

/-- Reading `t` leads from the place `p` to the place `q`. -/
structure Reaches (p : Place) (t : Text) (q : Place) : Prop where
  rest_eq : t ++ q.rest = p.rest
  line_eq : q.line = lineAfter p.line t

/-- Reading on leads from the place `p` to the place `q`. -/
def Leads (p q : Place) : Prop :=
  ∃ t, p.Reaches t q

theorem Reaches.refl (p : Place) : p.Reaches [] p := ⟨rfl, rfl⟩

theorem Reaches.trans {p q r : Place} {a b : Text} (hpq : p.Reaches a q) (hqr : q.Reaches b r) :
    p.Reaches (a ++ b) r where
  rest_eq := by rw [List.append_assoc, hqr.rest_eq, hpq.rest_eq]
  line_eq := by rw [hqr.line_eq, hpq.line_eq, lineAfter_append]

theorem Reaches.leads {p q : Place} {t : Text} (h : p.Reaches t q) : p.Leads q := ⟨t, h⟩

theorem Leads.refl (p : Place) : p.Leads p := ⟨[], .refl p⟩

theorem Leads.trans {p q r : Place} (hpq : p.Leads q) (hqr : q.Leads r) : p.Leads r :=
  let ⟨_, ha⟩ := hpq
  let ⟨_, hb⟩ := hqr
  ⟨_, ha.trans hb⟩

theorem Leads.length_le {p q : Place} (h : p.Leads q) : q.rest.length ≤ p.rest.length := by
  obtain ⟨t, ht⟩ := h
  simp [← ht.rest_eq]

theorem Leads.eq_of_length_le {p q : Place} (h : p.Leads q)
    (hle : p.rest.length ≤ q.rest.length) : p = q := by
  obtain ⟨t, hr, hl⟩ := h
  have ht : t = [] := by
    rw [← List.length_eq_zero_iff]
    have := congrArg List.length hr
    simp only [List.length_append] at this
    omega
  subst ht
  cases p
  cases q
  simp_all [lineAfter]

theorem reaches_past {p : Place} {taken rest : Text} (h : taken ++ rest = p.rest) :
    p.Reaches taken (p.past taken rest) := ⟨h, rfl⟩

theorem reaches_gap (p : Place) : p.Reaches p.gap.1 p.gap.2 :=
  reaches_past (splitGap_append false p.rest)

/-- A gap ends in front of a token, so no second gap follows it. -/
theorem gap_gap (p : Place) : p.gap.2.gap = ([], p.gap.2) := by
  have h := splitGap_idem false p.rest
  simp only [gap, past] at h ⊢
  simp [h, lineAfter]

theorem atMark_append {mark : Text} {p : Place} (h : p.atMark mark = true) :
    mark ++ p.rest.drop mark.length = p.rest := by
  simp only [atMark, Bool.and_eq_true, List.isPrefixOf_iff_prefix] at h
  exact List.prefix_iff_eq_append.1 h.1.2

theorem reaches_takeMark (mark : Text) (p : Place) :
    p.Reaches (p.takeMark mark).1 (p.takeMark mark).2 := by
  unfold takeMark
  split
  · exact reaches_past (atMark_append (by assumption))
  · exact .refl p

theorem length_takeMark {mark : Text} {p : Place} (h : p.atMark mark = true) :
    (p.takeMark mark).2.rest.length + mark.length = p.rest.length := by
  have := congrArg List.length (atMark_append h)
  simp only [takeMark, h, if_true, past]
  simp only [List.length_append] at this
  omega

end Place

end YamlIndent
