import YamlIndent.Proofs.Source.Gap
import YamlIndent.Proofs.Source.Scanner
import YamlIndent.Source.Block

/-!
# Tokens read one line

Quotes, keys and scalars end on the line they begin on, and what is read of them is decided by that
line: whatever starts the next line is handed on untouched. Neither the column of a token nor the
text before it matters, but that a document mark at the start of a line is no key.

## Main definitions

* `headOf?`, `scalarOf?`: the head and the scalar that a text begins with.
* `startsMark`: a text that begins with a mark of a document.

## Main results

* `headOf?_append`, `scalarOf?_append`: a token is split off the text that begins with it.
* `hasBreak_source`, `hasBreak_of_scalarOf?`: a token is on one line.
* `headOf?_append_next`, `scalarOf?_append_next`: a token is read from its line alone.
* `exists_headOf?_of_sameLine`, `exists_scalarOf?_of_sameLine`: texts with one first line begin with
  one token.
* `Place.head?_eq`, `Place.scalar_eq_ok_iff`: what stands at a place is what its rest begins with.
-/

namespace YamlIndent

variable {line next : Text}

/-! ### Marks of documents -/

/-- A text that begins with a mark of a document, where a token may end behind the mark. -/
def startsMark (t : Text) : Bool :=
  (Place.startMark.isPrefixOf t && endsToken (t.drop 3)) ||
    (Place.endMark.isPrefixOf t && endsToken (t.drop 3))

theorem Place.atDocumentMark_eq (p : Place) :
    p.atDocumentMark = (p.line.isEmpty && startsMark p.rest) := by
  simp only [Place.atDocumentMark, Place.atMark, startsMark, Bool.and_assoc,
    Bool.and_or_distrib_left]
  rfl

theorem isPrefixOf_append_next {mark : Text} (hm : hasBreak mark = false)
    (hn : startsLine next) (line : Text) :
    mark.isPrefixOf (line ++ next) = mark.isPrefixOf line := by
  induction mark generalizing line with
  | nil => simp
  | cons c mark ih =>
    rw [hasBreak_cons, Bool.or_eq_false_iff] at hm
    cases line with
    | cons d line => rw [List.cons_append, List.isPrefixOf, List.isPrefixOf, ih hm.2]
    | nil =>
      cases next with
      | nil => rfl
      | cons d next =>
        have hd : (c == d) = false := by
          rw [beq_eq_false_iff_ne]
          rintro rfl
          rw [startsLine, hm.1] at hn
          cases hn
        rw [List.nil_append, List.isPrefixOf_cons_cons, hd, Bool.false_and]
        rfl

/-- A mark in front of the end of a token is found on its line. -/
theorem endsToken_drop_append_next (mark : Text) (hm : hasBreak mark = false)
    (hn : startsLine next) (line : Text) :
    (mark.isPrefixOf (line ++ next) && endsToken ((line ++ next).drop mark.length)) =
      (mark.isPrefixOf line && endsToken (line.drop mark.length)) := by
  rw [isPrefixOf_append_next hm hn]
  by_cases hp : mark.isPrefixOf line
  · obtain ⟨t, rfl⟩ := List.isPrefixOf_iff_prefix.1 hp
    rw [List.append_assoc, List.drop_left, List.drop_left, endsToken_append_next t hn]
  · rw [eq_false_of_ne_true hp, Bool.false_and, Bool.false_and]

theorem startsMark_append_next (hn : startsLine next) (line : Text) :
    startsMark (line ++ next) = startsMark line := by
  have hstart := endsToken_drop_append_next Place.startMark rfl hn line
  have hend := endsToken_drop_append_next Place.endMark rfl hn line
  rw [startsMark, startsMark]
  exact congr (congrArg or hstart) hend

/-- A mark stands in front of both of two texts, or of none, that go on alike. -/
theorem Place.atMark_of_sameLine {mark : Text} (hm : hasBreak mark = false) (front : Text)
    {s t : Text} (h : SameLine s t) : atMark mark ⟨front, s⟩ = atMark mark ⟨front, t⟩ := by
  obtain ⟨line, u, v, -, hu, hv, rfl, rfl⟩ := h.exists_rest
  simp only [atMark, Bool.and_assoc, endsToken_drop_append_next mark hm hu,
    endsToken_drop_append_next mark hm hv]

/-! ### Heads and scalars of a text -/

/-- The head that a text begins with where no mark of a document can stand, and what follows it. -/
def headOf? (t : Text) : Option (Head × Text) :=
  (Place.head? ⟨[' '], t⟩).map fun (head, p) => (head, p.rest)

/-- The scalar that a text begins with, and what follows it. -/
def scalarOf? (t : Text) : Option (Text × Text) :=
  match (Place.start t).scalar with
  | .ok (text, p) => some (text, p.rest)
  | .error _ => none

/-- What a quoted scalar that begins with a quote takes of its line, and what follows. -/
def takeQuoted? (quote : Char) (t : Text) : Option (Text × Text) :=
  (splitQuoted quote t).map fun (quoted, rest) =>
    (quote :: quoted ++ (splitPlain false rest).1, (splitPlain false rest).2)

/-- What a flow collection takes of its line, if its brackets are closed there, and what follows. -/
def takeFlow? (t : Text) : Option (Text × Text) :=
  match splitFlow false t with
  | .ok s => if 0 < s.depth then none else some (s.taken, s.rest)
  | .error _ => none

/-- What a scalar takes of its line, and what follows. -/
def takeScalar? : Text → Option (Text × Text)
  | [] => some ([], [])
  | c :: cs =>
    if c == '|' || c == '>' then none
    else if isQuote c then takeQuoted? c cs
    else if c == '[' || c == '\x7b' then takeFlow? (c :: cs)
    else some (splitPlain false (c :: cs))

/-- The blanks at the end of what was taken are given back. -/
def giveBack (s : Text × Text) : Text × Text :=
  ((splitTrailing s.1).1, (splitTrailing s.1).2 ++ s.2)

theorem scalarOf?_eq (t : Text) : scalarOf? t = (takeScalar? t).map giveBack := by
  cases t with
  | nil => rfl
  | cons c cs =>
    by_cases hb : (c == '|' || c == '>') = true
    · simp [scalarOf?, Place.scalar, Place.start, takeScalar?, hb]
    by_cases hq : isQuote c = true
    · simp only [scalarOf?, Place.scalar, Place.start, takeScalar?, if_neg hb, if_pos hq]
      rw [takeQuoted?]
      cases splitQuoted c cs <;> rfl
    by_cases hf : (c == '[' || c == '\x7b') = true
    · simp only [scalarOf?, Place.scalar, Place.start, takeScalar?, if_neg hb, if_neg hq, if_pos hf]
      rw [takeFlow?]
      cases splitFlow false (c :: cs) with
      | error left => rfl
      | ok s =>
        obtain ⟨taken, rest, depth⟩ := s
        by_cases hd : 0 < depth
        · simp [hd]
        · simp only [if_neg hd]
          rfl
    · simp only [scalarOf?, Place.scalar, Place.start, takeScalar?, if_neg hb, if_neg hq, if_neg hf]
      rfl

theorem startsMark_eq_false_of_item {t : Text} (h : endsToken t) :
    startsMark ('-' :: t) = false := by
  rcases t with _ | ⟨c, t⟩
  · rfl
  · have hc : '-' ≠ c := by
      rintro rfl
      cases h
    simp [startsMark, Place.startMark, Place.endMark, hc]

/-- What stands at a place is the head that its rest begins with, unless that is a mark. -/
theorem Place.head?_eq (p : Place) :
    p.head? = if p.atDocumentMark then none
      else (headOf? p.rest).map fun (head, rest) => (head, p.past head.source rest) := by
  have hkey (k : Text) : (splitTrailing k).1 ++ ((splitTrailing k).2 ++ [':']) = k ++ [':'] := by
    rw [← List.append_assoc, splitTrailing_append]
  have hitem {q : Place} (h : q.atItem) :
      q.rest = '-' :: q.rest.drop 1 ∧ endsToken (q.rest.drop 1) := by
    unfold atItem at h
    split at h
    · rename_i hr
      rw [hr]
      exact ⟨rfl, h⟩
    · cases h
  by_cases hi : p.atItem
  · obtain ⟨hr, he⟩ := hitem hi
    have hm : p.atDocumentMark = false := by
      rw [atDocumentMark_eq, hr, startsMark_eq_false_of_item he, Bool.and_false]
    have hi' : Place.atItem ⟨[' '], p.rest⟩ = true := hi
    rw [head?, if_pos hi, hm, if_neg Bool.false_ne_true, headOf?, head?, if_pos hi']
    rfl
  · have hi' : ¬Place.atItem ⟨[' '], p.rest⟩ = true := hi
    have hm' : Place.atDocumentMark ⟨[' '], p.rest⟩ = false := rfl
    rw [head?, if_neg hi, headOf?, head?, if_neg hi', hm', if_neg Bool.false_ne_true,
      Option.map_map, Option.map_map]
    split
    · rfl
    · congr 1
      funext ⟨k, r⟩
      simp only [Function.comp_apply, Head.source, hkey]
      rfl

/-- A scalar stands at a place if and only if its rest begins with it. -/
theorem Place.scalar_eq_ok_iff {p q : Place} {t : Text} :
    p.scalar = .ok (t, q) ↔ scalarOf? p.rest = some (t, q.rest) ∧ q = p.past t q.rest := by
  have hpast {u r : Text} :
      (u, p.past u r) = (t, q) ↔ (u, r) = (t, q.rest) ∧ q = p.past t q.rest := by
    simp only [Prod.mk.injEq]
    constructor
    · rintro ⟨rfl, rfl⟩
      exact ⟨⟨rfl, rfl⟩, rfl⟩
    · rintro ⟨⟨rfl, rfl⟩, hq⟩
      exact ⟨rfl, hq.symm⟩
  have hok {u r : Text} : (Except.ok (u, p.past u r) : Except Rejection _) = .ok (t, q) ↔
      some (u, r) = some (t, q.rest) ∧ q = p.past t q.rest := by
    rw [Except.ok.injEq, Option.some.injEq]
    exact hpast
  obtain ⟨line, rest⟩ := p
  cases rest with
  | nil => exact hok (u := []) (r := [])
  | cons c cs =>
    simp only [scalar, scalarOf?, start]
    split
    · simp
    · split
      · cases splitQuoted c cs with
        | none => simp
        | some qr => exact hok
      · split
        · cases splitFlow false (c :: cs) with
          | error left => simp
          | ok s =>
            obtain ⟨taken, rest, depth⟩ := s
            by_cases hd : 0 < depth
            · simp [hd]
            · simp only [if_neg hd]
              exact hok
        · exact hok

/-! ### Tokens and the start of the next line -/

theorem Place.atItem_append_next (before : Text) (hn : startsLine next) (line : Text) :
    Place.atItem ⟨before, line ++ next⟩ = Place.atItem ⟨before, line⟩ := by
  cases line with
  | cons c line =>
    by_cases hc : c = '-'
    · subst hc
      exact endsToken_append_next line hn
    · simp [atItem, hc]
  | nil =>
    cases next with
    | nil => rfl
    | cons c next =>
      have hc : c ≠ '-' := by
        rintro rfl
        cases hn
      simp [atItem, hc]

theorem headOf?_append_next (hl : hasBreak line = false) (hn : startsLine next) :
    headOf? (line ++ next) = (headOf? line).map fun (head, rest) => (head, rest ++ next) := by
  have hm (t : Text) : Place.atDocumentMark ⟨[' '], t⟩ = false := rfl
  simp only [headOf?, Place.head?, Place.atItem_append_next _ hn, hm,
    splitKey_append_next hl hn]
  split
  · rename_i hi
    cases line with
    | nil => cases hi
    | cons c line => rfl
  · simp only [Bool.false_eq_true, ↓reduceIte, Option.map_map]
    rfl

theorem takeQuoted?_append_next (quote : Char) (hl : hasBreak line = false)
    (hn : startsLine next) :
    takeQuoted? quote (line ++ next) = (takeQuoted? quote line).map (before next) := by
  rw [takeQuoted?, takeQuoted?, splitQuoted_append_next quote hl hn]
  cases hs : splitQuoted quote line with
  | none => rfl
  | some qr =>
    obtain ⟨q, r⟩ := qr
    have hr : hasBreak r = false := by
      rw [← splitQuoted_append hs, hasBreak_append, Bool.or_eq_false_iff] at hl
      exact hl.2
    simp only [Option.map_some, before, splitPlain_append_next false hr hn]

theorem takeFlow?_append_next (hl : hasBreak line = false) (hn : startsLine next) :
    takeFlow? (line ++ next) = (takeFlow? line).map (before next) := by
  rw [takeFlow?, takeFlow?, splitFlow_append_next false hl hn]
  cases splitFlow false line with
  | error left => rfl
  | ok s =>
    obtain ⟨taken, rest, depth⟩ := s
    have hmap : ((Except.ok ⟨taken, rest, depth⟩ : Except Text FlowSplit).mapError
        (· ++ next)).map (FlowSplit.before next) = .ok ⟨taken, rest ++ next, depth⟩ := rfl
    rw [hmap]
    by_cases hd : 0 < depth
    · simp [hd]
    · simp only [if_neg hd]
      rfl

theorem takeScalar?_append_next (hl : hasBreak line = false) (hn : startsLine next) :
    takeScalar? (line ++ next) = (takeScalar? line).map (before next) := by
  cases line with
  | nil =>
    cases next with
    | nil => rfl
    | cons c cs =>
      have hc : isBreak c := hn
      simp only [isBreak, Bool.or_eq_true, beq_iff_eq] at hc
      rcases hc with rfl | rfl <;> rfl
  | cons c cs =>
    have hcs := hl
    rw [hasBreak_cons, Bool.or_eq_false_iff] at hcs
    rw [List.cons_append, takeScalar?, takeScalar?, takeQuoted?_append_next c hcs.2 hn,
      ← List.cons_append, takeFlow?_append_next hl hn, splitPlain_append_next false hl hn]
    split
    · rfl
    · split
      · rfl
      · split <;> rfl

theorem scalarOf?_append_next (hl : hasBreak line = false) (hn : startsLine next) :
    scalarOf? (line ++ next) = (scalarOf? line).map (before next) := by
  have hback (s : Text × Text) : giveBack (before next s) = before next (giveBack s) := by
    rw [giveBack, giveBack, before, before, List.append_assoc]
  rw [scalarOf?_eq, scalarOf?_eq, takeScalar?_append_next hl hn, Option.map_map, Option.map_map]
  exact congrArg (fun f => (takeScalar? line).map f) (funext hback)

/-- Texts with one first line begin with one head, if they begin with any. -/
theorem exists_headOf?_of_sameLine {s t r : Text} {head : Head} (h : SameLine s t)
    (hs : headOf? s = some (head, r)) :
    ∃ r', headOf? t = some (head, r') := by
  obtain ⟨line, u, v, hl, hu, hv, rfl, rfl⟩ := h.exists_rest
  rw [headOf?_append_next hl hu, Option.map_eq_some_iff] at hs
  obtain ⟨⟨head', r'⟩, hr, he⟩ := hs
  cases he
  exact ⟨r' ++ v, by rw [headOf?_append_next hl hv, hr]; rfl⟩

/-- Texts with one first line begin with one scalar, if they begin with any. -/
theorem exists_scalarOf?_of_sameLine {s t r text : Text} (h : SameLine s t)
    (hs : scalarOf? s = some (text, r)) :
    ∃ r', scalarOf? t = some (text, r') := by
  obtain ⟨line, u, v, hl, hu, hv, rfl, rfl⟩ := h.exists_rest
  rw [scalarOf?_append_next hl hu, Option.map_eq_some_iff] at hs
  obtain ⟨⟨text', r'⟩, hr, he⟩ := hs
  cases he
  exact ⟨r' ++ v, by rw [scalarOf?_append_next hl hv, hr]; rfl⟩

theorem startsMark_eq_of_sameLine {s t : Text} (h : SameLine s t) :
    startsMark s = startsMark t := by
  obtain ⟨line, u, v, -, hu, hv, rfl, rfl⟩ := h.exists_rest
  rw [startsMark_append_next hu, startsMark_append_next hv]

/-! ### The text of a token -/

/-- A text begins with an item or with a key. -/
theorem headOf?_cases {t r : Text} {head : Head} (h : headOf? t = some (head, r)) :
    (head = .item ∧ t = '-' :: r ∧ endsToken r) ∨
      ∃ key, splitKey t = some (key, r) ∧
        head = .key (splitTrailing key).1 ((splitTrailing key).2 ++ [':']) := by
  have hm : Place.atDocumentMark ⟨[' '], t⟩ = false := rfl
  rw [headOf?, Place.head?, hm] at h
  split at h
  · rename_i hi
    cases h
    unfold Place.atItem at hi
    split at hi
    · rename_i hr
      have hr' : t = _ := hr
      subst hr'
      exact .inl ⟨rfl, rfl, hi⟩
    · cases hi
  · simp only [Bool.false_eq_true, ↓reduceIte, Option.map_map] at h
    obtain ⟨⟨key, r'⟩, hk, he⟩ := Option.map_eq_some_iff.1 h
    cases he
    exact .inr ⟨key, hk, rfl⟩

theorem headOf?_item {r : Text} : headOf? ('-' :: r) = some (.item, r) ↔ endsToken r := by
  constructor
  · intro h
    rcases headOf?_cases h with ⟨-, -, he⟩ | ⟨key, -, he⟩
    · exact he
    · cases he
  · intro h
    have hi : Place.atItem ⟨[' '], '-' :: r⟩ = true := h
    rw [headOf?, Place.head?, if_pos hi]
    rfl

theorem headOf?_append {t r : Text} {head : Head} (h : headOf? t = some (head, r)) :
    head.source ++ r = t := by
  rcases headOf?_cases h with ⟨rfl, rfl, -⟩ | ⟨key, hk, rfl⟩
  · rfl
  · rw [Head.source, ← List.append_assoc, splitTrailing_append, ← splitKey_append hk,
      List.append_assoc]
    rfl

theorem hasBreak_source {t r : Text} {head : Head} (h : headOf? t = some (head, r)) :
    hasBreak head.source = false := by
  rcases headOf?_cases h with ⟨rfl, -, -⟩ | ⟨key, hk, rfl⟩
  · rfl
  · rw [Head.source, ← List.append_assoc, splitTrailing_append, hasBreak_append,
      hasBreak_of_splitKey hk]
    rfl

theorem source_ne_nil {t r : Text} {head : Head} (h : headOf? t = some (head, r)) :
    head.source ≠ [] := by
  rcases headOf?_cases h with ⟨rfl, -, -⟩ | ⟨key, -, rfl⟩
  · exact List.cons_ne_nil _ _
  · simp [Head.source]

theorem scalarOf?_append {t text r : Text} (h : scalarOf? t = some (text, r)) :
    text ++ r = t := by
  unfold scalarOf? at h
  split at h
  · rename_i hs
    cases h
    exact (Place.reaches_scalar hs).rest_eq
  · cases h

theorem exists_taken_of_takeFlow? {c : Char} {cs taken rest : Text} (hb : isBreak c = false)
    (hc : c ≠ '#') (hq : isQuote c = false) (h : takeFlow? (c :: cs) = some (taken, rest)) :
    ∃ t, taken = c :: t ∧ hasBreak taken = false := by
  have hhash : (c == '#') = false := beq_eq_false_iff_ne.2 hc
  rw [takeFlow?] at h
  cases hf : splitFlow false (c :: cs) with
  | error left =>
    rw [hf] at h
    cases h
  | ok s =>
    have hs := hasBreak_of_splitFlow hf
    rw [hf] at h
    rw [splitFlow, hb, hhash, hq, Bool.false_and, Bool.or_false, if_neg Bool.false_ne_true,
      if_neg Bool.false_ne_true] at hf
    cases hr : splitFlow (isBlank c) cs with
    | error left =>
      rw [hr] at hf
      cases hf
    | ok s' =>
      rw [hr] at hf
      cases hf
      dsimp only at h
      split at h
      · cases h
      · cases h
        exact ⟨s'.taken, rfl, hs⟩

/-- What a scalar takes begins with its first character and is on one line. -/
theorem exists_taken_of_takeScalar? {c : Char} {cs taken rest : Text} (hb : isBreak c = false)
    (hc : c ≠ '#') (h : takeScalar? (c :: cs) = some (taken, rest)) :
    ∃ t, taken = c :: t ∧ hasBreak taken = false := by
  have hhash : (c == '#') = false := beq_eq_false_iff_ne.2 hc
  rw [takeScalar?] at h
  split at h
  · cases h
  split at h
  · obtain ⟨⟨q, r⟩, hq, he⟩ := Option.map_eq_some_iff.1 h
    cases he
    refine ⟨_, rfl, ?_⟩
    rw [hasBreak_append, hasBreak_cons, hb, hasBreak_of_splitQuoted hq, hasBreak_splitPlain]
    rfl
  split at h
  · rename_i hq _
    exact exists_taken_of_takeFlow? hb hc (eq_false_of_ne_true hq) h
  · have hplain : splitPlain false (c :: cs) =
        (c :: (splitPlain (isBlank c) cs).1, (splitPlain (isBlank c) cs).2) := by
      rw [splitPlain, hb, hhash, Bool.false_and, Bool.or_false, if_neg Bool.false_ne_true]
    rw [hplain] at h
    cases h
    refine ⟨_, rfl, ?_⟩
    rw [hasBreak_cons, hb, hasBreak_splitPlain]
    rfl

/-- A scalar is some text on one line, without the blanks at its end. -/
theorem exists_taken_of_scalarOf? {t text r : Text} (ht : startsToken t)
    (h : scalarOf? t = some (text, r)) :
    ∃ c taken, isBlank c = false ∧ hasBreak (c :: taken) = false ∧
      text = (splitTrailing (c :: taken)).1 := by
  cases t with
  | nil => cases ht
  | cons c cs =>
    simp only [startsToken, Bool.not_eq_true', Bool.or_eq_false_iff] at ht
    obtain ⟨⟨hblank, hbr⟩, hhash⟩ := ht
    rw [scalarOf?_eq] at h
    obtain ⟨⟨taken, rest⟩, hs, he⟩ := Option.map_eq_some_iff.1 h
    cases he
    obtain ⟨t, rfl, hb⟩ := exists_taken_of_takeScalar? hbr (beq_eq_false_iff_ne.1 hhash) hs
    exact ⟨c, t, hblank, hb, rfl⟩

theorem hasBreak_of_scalarOf? {t text r : Text} (ht : startsToken t)
    (h : scalarOf? t = some (text, r)) : hasBreak text = false := by
  obtain ⟨c, taken, -, hb, rfl⟩ := exists_taken_of_scalarOf? ht h
  rw [← splitTrailing_append (c :: taken), hasBreak_append, Bool.or_eq_false_iff] at hb
  exact hb.1

theorem scalarOf?_ne_nil {t text r : Text} (ht : startsToken t)
    (h : scalarOf? t = some (text, r)) : text ≠ [] := by
  obtain ⟨c, taken, hblank, -, rfl⟩ := exists_taken_of_scalarOf? ht h
  intro hn
  have hs := splitTrailing_append (c :: taken)
  have hall : (splitTrailing (c :: taken)).2.all isBlank := by
    rw [splitTrailing, List.all_reverse, List.all_takeWhile]
  rw [hn, List.nil_append] at hs
  rw [hs, List.all_cons, hblank] at hall
  cases hall

end YamlIndent
