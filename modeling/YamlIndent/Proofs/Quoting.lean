import YamlIndent.Proofs.Canonical

/-!
# Quoting

Any text on one line can be quoted: a single quote between single quotes is written twice, and a
double quote or a backslash between double quotes behind a backslash. The scanners of quotes, keys
and scalars then all stop behind the closing quote, whatever is quoted; and in a flow collection of
quoted texts only the brackets outside of the quotes count, so that it is read to its last bracket.

## Main definitions

* `QuoteStyle`, `Quotation`: the two ways to quote, and a text that is quoted.
* `Flow`, `Members`: quoted texts, and collections of them in brackets, nested in each other.
* `pairStream`: the tree of a document that is one key with its value.

## Main results

* `Quotation.splitQuoted_append`: a quoted text is split off behind its closing quote.
* `Flow.splitFlow_append`: a collection is taken whole, with no bracket left open.
* `parse_quoted`: a quoted key and a quoted value are read as just these.
-/

namespace YamlIndent

/-! ### Quoted texts -/

/-- The ways to quote. -/
inductive QuoteStyle where
  /-- Between single quotes, and each single quote in the text written twice. -/
  | single
  /-- Between double quotes, and a backslash in front of each double quote and each backslash. -/
  | double
  deriving DecidableEq, Repr

namespace QuoteStyle

/-- The quote at both ends. -/
def mark : QuoteStyle → Char
  | single => '\''
  | double => '"'

/-- How a character is written between the quotes. -/
def escapeChar : QuoteStyle → Char → Text
  | single, c => if c == '\'' then ['\'', '\''] else [c]
  | double, c => if c == '"' || c == '\\' then ['\\', c] else [c]

/-- How a text is written between the quotes. -/
def escape (style : QuoteStyle) : Text → Text
  | [] => []
  | c :: cs => style.escapeChar c ++ style.escape cs

end QuoteStyle

/-- A text on one line, and the way to quote it. -/
structure Quotation where
  style : QuoteStyle
  text : Text
  onLine : hasBreak text = false

/-- A quoted text. -/
def Quotation.written (q : Quotation) : Text :=
  q.style.mark :: (q.style.escape q.text ++ [q.style.mark])

/-! ### Flow collections -/

/-- The brackets of a flow collection. -/
inductive Bracket where
  | square
  | curly
  deriving DecidableEq, Repr

namespace Bracket

/-- The bracket at the start. -/
def opening : Bracket → Char
  | square => '['
  | curly => '\x7b'

/-- The bracket at the end. -/
def closing : Bracket → Char
  | square => ']'
  | curly => '\x7d'

end Bracket

/-- What stands between two members of a flow collection. -/
inductive Separator where
  | comma
  | colon
  deriving DecidableEq, Repr

/-- The text of a separator, with the blank behind it. -/
def Separator.written : Separator → Text
  | comma => [',', ' ']
  | colon => [':', ' ']

mutual

/-- A quoted text, or a collection of such values in brackets. -/
inductive Flow where
  | quoted (q : Quotation)
  | empty (bracket : Bracket)
  | collection (bracket : Bracket) (members : Members)

/-- The members of a collection, at least one. -/
inductive Members where
  | last (value : Flow)
  | more (value : Flow) (separator : Separator) (others : Members)

end

mutual

/-- The text of a value. -/
def Flow.written : Flow → Text
  | .quoted q => q.written
  | .empty bracket => [bracket.opening, bracket.closing]
  | .collection bracket members => bracket.opening :: (members.written ++ [bracket.closing])

/-- The text of members. -/
def Members.written : Members → Text
  | .last value => value.written
  | .more value separator others => value.written ++ (separator.written ++ others.written)

end

/-! ### The scanner of quotes -/

/-- A quoted text may end in front of any text that does not begin with a quote. -/
def endsQuoted : Text → Bool
  | [] => true
  | c :: _ => !isQuote c

theorem endsQuoted_of_startsLine {t : Text} (h : startsLine t) : endsQuoted t := by
  cases t with
  | nil => rfl
  | cons c t =>
    rw [endsQuoted, isQuote_eq_false_of_isBreak h, Bool.not_false]

variable {t rest : Text}

theorem splitSingleQuoted_escape (ht : hasBreak t = false) (hr : endsQuoted rest) :
    splitSingleQuoted (QuoteStyle.single.escape t ++ '\'' :: rest) =
      some (QuoteStyle.single.escape t ++ ['\''], rest) := by
  induction t with
  | nil =>
    have hrest (cs : Text) : rest ≠ '\'' :: cs := by
      rintro rfl
      cases hr
    exact splitSingleQuoted.eq_3 _ hrest
  | cons c t ih =>
    rw [hasBreak_cons, Bool.or_eq_false_iff] at ht
    by_cases hc : c = '\''
    · subst hc
      change splitSingleQuoted ('\'' :: '\'' :: (QuoteStyle.single.escape t ++ '\'' :: rest)) = _
      rw [splitSingleQuoted, ih ht.2]
      rfl
    · have he : QuoteStyle.single.escape (c :: t) = c :: QuoteStyle.single.escape t := by
        simp [QuoteStyle.escape, QuoteStyle.escapeChar, hc]
      rw [he, List.cons_append, splitSingleQuoted.eq_4 _ _ (fun _ h _ => hc h) hc, ht.1,
        if_neg Bool.false_ne_true, ih ht.2]
      rfl

theorem splitDoubleQuoted_escape (ht : hasBreak t = false) :
    splitDoubleQuoted (QuoteStyle.double.escape t ++ '"' :: rest) =
      some (QuoteStyle.double.escape t ++ ['"'], rest) := by
  induction t with
  | nil => rfl
  | cons c t ih =>
    rw [hasBreak_cons, Bool.or_eq_false_iff] at ht
    by_cases hc : (c == '"' || c == '\\') = true
    · have he : QuoteStyle.double.escape (c :: t) = '\\' :: c :: QuoteStyle.double.escape t := by
        rw [QuoteStyle.escape, QuoteStyle.escapeChar, if_pos hc]
        rfl
      rw [he, List.cons_append, List.cons_append, splitDoubleQuoted, ht.1,
        if_neg Bool.false_ne_true, ih ht.2]
      rfl
    · have he : QuoteStyle.double.escape (c :: t) = c :: QuoteStyle.double.escape t := by
        rw [QuoteStyle.escape, QuoteStyle.escapeChar, if_neg hc]
        rfl
      simp only [Bool.or_eq_true, beq_iff_eq, not_or] at hc
      rw [he, List.cons_append, splitDoubleQuoted.eq_5 _ _ (fun h _ => hc.2 h)
        (fun _ _ h _ => hc.2 h) hc.1, ht.1, if_neg Bool.false_ne_true, ih ht.2]
      rfl

namespace Quotation

variable (q : Quotation)

theorem isQuote_mark : isQuote q.style.mark := by
  cases q.style <;> rfl

/-- A quoted text is split off behind its closing quote, whatever is quoted. -/
theorem splitQuoted_append (hr : endsQuoted rest) :
    splitQuoted q.style.mark (q.style.escape q.text ++ q.style.mark :: rest) =
      some (q.style.escape q.text ++ [q.style.mark], rest) := by
  cases hs : q.style with
  | single => exact splitSingleQuoted_escape q.onLine hr
  | double => exact splitDoubleQuoted_escape q.onLine

theorem written_append (rest : Text) :
    q.written ++ rest = q.style.mark :: (q.style.escape q.text ++ q.style.mark :: rest) := by
  rw [written, List.cons_append, List.append_assoc, List.singleton_append]

end Quotation

/-! ### The scanner of flow collections -/

/-- Texts that were taken one after another are taken as one. -/
theorem map_after_map_after (s : Except Text FlowSplit) (a b : Text) (d e : Int) :
    (s.map (FlowSplit.after b e)).map (FlowSplit.after a d) =
      s.map (FlowSplit.after (a ++ b) (d + e)) := by
  cases s with
  | error left => rfl
  | ok s => simp [Except.map, FlowSplit.after, Int.add_assoc]

theorem splitFlow_cons (afterBlank : Bool) {c : Char} (hb : isBreak c = false) (hh : c ≠ '#')
    (hq : isQuote c = false) (cs : Text) : splitFlow afterBlank (c :: cs) =
      (splitFlow (isBlank c) cs).map (.after [c] (bracketDepth c)) := by
  have hh' : (c == '#') = false := beq_eq_false_iff_ne.2 hh
  rw [splitFlow, hb, hh', Bool.false_and, Bool.or_false, if_neg Bool.false_ne_true, hq,
    if_neg Bool.false_ne_true]

/-- A flow collection takes a quoted text whole, and no bracket in it counts. -/
theorem Quotation.splitFlow_append (q : Quotation) (afterBlank : Bool) (hr : endsQuoted rest) :
    splitFlow afterBlank (q.written ++ rest) =
      (splitFlow false rest).map (.after q.written 0) := by
  have hb : (isBreak q.style.mark || (q.style.mark == '#' && afterBlank)) = false := by
    cases q.style <;> rfl
  rw [written_append, splitFlow, hb, if_neg Bool.false_ne_true, if_pos q.isQuote_mark]
  split
  · rename_i h
    rw [q.splitQuoted_append hr] at h
    cases h
  · rename_i h
    rw [q.splitQuoted_append hr] at h
    cases h
    rfl

theorem Bracket.splitFlow_opening (bracket : Bracket) (afterBlank : Bool) (t : Text) :
    splitFlow afterBlank (bracket.opening :: t) =
      (splitFlow false t).map (.after [bracket.opening] 1) := by
  cases bracket <;> exact splitFlow_cons afterBlank rfl (by decide) rfl t

theorem Bracket.splitFlow_closing (bracket : Bracket) (afterBlank : Bool) (t : Text) :
    splitFlow afterBlank (bracket.closing :: t) =
      (splitFlow false t).map (.after [bracket.closing] (-1)) := by
  cases bracket <;> exact splitFlow_cons afterBlank rfl (by decide) rfl t

theorem Separator.splitFlow_append (separator : Separator) (afterBlank : Bool) (t : Text) :
    splitFlow afterBlank (separator.written ++ t) =
      (splitFlow true t).map (.after separator.written 0) := by
  have hblank := splitFlow_cons false (c := ' ') rfl (by decide) rfl t
  cases separator with
  | comma =>
    change splitFlow afterBlank (',' :: ' ' :: t) = _
    rw [splitFlow_cons afterBlank rfl (by decide) rfl]
    change (splitFlow false (' ' :: t)).map _ = _
    rw [hblank, map_after_map_after]
    rfl
  | colon =>
    change splitFlow afterBlank (':' :: ' ' :: t) = _
    rw [splitFlow_cons afterBlank rfl (by decide) rfl]
    change (splitFlow false (' ' :: t)).map _ = _
    rw [hblank, map_after_map_after]
    rfl

theorem Bracket.endsQuoted_closing (bracket : Bracket) (t : Text) :
    endsQuoted (bracket.closing :: t) := by
  cases bracket <;> rfl

theorem Separator.endsQuoted_append (separator : Separator) (t : Text) :
    endsQuoted (separator.written ++ t) := by
  cases separator <;> rfl

mutual

/-- A value is taken whole, and leaves no bracket open. -/
theorem Flow.splitFlow_append {rest : Text} (hr : endsQuoted rest) (afterBlank : Bool) :
    (v : Flow) → splitFlow afterBlank (v.written ++ rest) =
      (splitFlow false rest).map (.after v.written 0)
  | .quoted q => q.splitFlow_append afterBlank hr
  | .empty bracket => by
    rw [Flow.written, List.cons_append, bracket.splitFlow_opening, List.cons_append,
      List.nil_append, bracket.splitFlow_closing, map_after_map_after]
    rfl
  | .collection bracket members => by
    rw [Flow.written, List.cons_append, List.append_assoc, List.singleton_append,
      bracket.splitFlow_opening,
      Members.splitFlow_append (bracket.endsQuoted_closing rest) false members,
      bracket.splitFlow_closing, map_after_map_after, map_after_map_after]
    rfl

/-- The members of a collection are taken whole, and leave no bracket open. -/
theorem Members.splitFlow_append {rest : Text} (hr : endsQuoted rest) (afterBlank : Bool) :
    (members : Members) → splitFlow afterBlank (members.written ++ rest) =
      (splitFlow false rest).map (.after members.written 0)
  | .last value => Flow.splitFlow_append hr afterBlank value
  | .more value separator others => by
    rw [Members.written, List.append_assoc, List.append_assoc,
      Flow.splitFlow_append (separator.endsQuoted_append _) afterBlank value,
      separator.splitFlow_append, Members.splitFlow_append hr true others, map_after_map_after,
      map_after_map_after, List.append_assoc]
    rfl

end

/-! ### Quoted keys and values -/

theorem splitTrailing_concat_of_not_isBlank (t : Text) {c : Char} (hc : isBlank c = false) :
    splitTrailing (t ++ [c]) = (t ++ [c], []) := by
  simp [splitTrailing, hc]

theorem Quotation.splitTrailing_written (q : Quotation) :
    splitTrailing q.written = (q.written, []) := by
  have hc : isBlank q.style.mark = false := by cases q.style <;> rfl
  exact splitTrailing_concat_of_not_isBlank (q.style.mark :: q.style.escape q.text) hc

theorem Flow.splitTrailing_written : (v : Flow) → splitTrailing v.written = (v.written, [])
  | quoted q => q.splitTrailing_written
  | empty bracket => by cases bracket <;> rfl
  | collection bracket members => by
    have hc : isBlank bracket.closing = false := by cases bracket <;> rfl
    rw [written]
    exact splitTrailing_concat_of_not_isBlank (bracket.opening :: members.written) hc

/-- A quoted text begins with a token, which is no mark of a document. -/
theorem Quotation.startsToken_append (q : Quotation) (rest : Text) :
    startsToken (q.written ++ rest) ∧ startsMark (q.written ++ rest) = false := by
  rw [written_append]
  cases q.style <;> exact ⟨rfl, rfl⟩

theorem Flow.startsToken_append (rest : Text) : (v : Flow) →
    startsToken (v.written ++ rest) ∧ startsMark (v.written ++ rest) = false
  | quoted q => q.startsToken_append rest
  | empty bracket => by cases bracket <;> exact ⟨rfl, rfl⟩
  | collection bracket members => by
    rw [written]
    cases bracket <;> exact ⟨rfl, rfl⟩

theorem Flow.written_ne_nil : (v : Flow) → v.written ≠ []
  | quoted _ | empty _ => List.cons_ne_nil _ _
  | collection _ _ => by
    rw [written]
    exact List.cons_ne_nil _ _

/-- A quoted text and a colon are a key. -/
theorem Quotation.headOf?_key (k : Quotation) (hr : endsToken rest) :
    headOf? (k.written ++ ':' :: rest) = some (.key k.written [':'], rest) := by
  have hitem : Place.atItem ⟨[' '], k.written ++ ':' :: rest⟩ = false := by
    rw [written_append]
    cases k.style <;> rfl
  have hmark : Place.atDocumentMark ⟨[' '], k.written ++ ':' :: rest⟩ = false := rfl
  have hbars : barsKey k.style.mark = false := by cases k.style <;> rfl
  have hcolon : splitAtColon false (':' :: rest) = some ([], rest) := by
    rw [splitAtColon, hr]
    rfl
  have hkey : splitKey (k.written ++ ':' :: rest) = some (k.written, rest) := by
    rw [written_append, splitKey, hbars, if_neg Bool.false_ne_true, if_pos k.isQuote_mark,
      k.splitQuoted_append rfl]
    simp only [Option.bind_eq_bind, Option.bind_some, hcolon, List.append_nil]
    rfl
  rw [headOf?, Place.head?, hitem, hmark, if_neg Bool.false_ne_true, if_neg Bool.false_ne_true,
    hkey]
  simp only [Option.map_some, k.splitTrailing_written, List.nil_append]
  rfl

theorem Quotation.takeScalar?_append (q : Quotation) (hr : startsLine rest) :
    takeScalar? (q.written ++ rest) = some (q.written, rest) := by
  have hbar : (q.style.mark == '|' || q.style.mark == '>') = false := by cases q.style <;> rfl
  rw [written_append, takeScalar?, hbar, if_neg Bool.false_ne_true, if_pos q.isQuote_mark,
    takeQuoted?, q.splitQuoted_append (endsQuoted_of_startsLine hr)]
  simp only [Option.map_some, splitPlain_of_startsLine false hr, List.append_nil]
  rfl

theorem Bracket.takeScalar?_opening (bracket : Bracket) (t : Text) :
    takeScalar? (bracket.opening :: t) = takeFlow? (bracket.opening :: t) := by
  cases bracket <;> rfl

theorem Flow.takeScalar?_append (hr : startsLine rest) (v : Flow) :
    takeScalar? (v.written ++ rest) = some (v.written, rest) := by
  have htake : takeFlow? (v.written ++ rest) = some (v.written, rest) := by
    rw [takeFlow?, v.splitFlow_append (endsQuoted_of_startsLine hr),
      splitFlow_of_startsLine false hr]
    simp [Except.map, FlowSplit.after]
  cases v with
  | quoted q => exact q.takeScalar?_append hr
  | empty bracket => exact (bracket.takeScalar?_opening _).trans htake
  | collection bracket members =>
    rw [written] at htake ⊢
    exact (bracket.takeScalar?_opening _).trans htake

/-- A value in front of the end of its line is a scalar. -/
theorem Flow.scalarOf?_append (hr : startsLine rest) (v : Flow) :
    scalarOf? (v.written ++ rest) = some (v.written, rest) := by
  rw [scalarOf?_eq, v.takeScalar?_append hr, Option.map_some, giveBack, v.splitTrailing_written]
  rfl

/-! ### One key with its value -/

/-- The document of one quoted key with its value. -/
def pairDocument (k : Quotation) (v : Flow) : Document where
  lead := []
  marked := false
  block := .entries (.last [] (.key k.written [':']) (.scalar [' '] v.written))
  endLead := ['\n']
  ended := false

/-- The stream of one document that is a mapping of one key to its value. -/
def pairStream (key value : Text) : Tree :=
  ⟨(), .stream, [], [], [⟨(), .document, [], [],
    [⟨(), .mapping, [], [], [⟨(), .mappingEntry, [], [':'],
      [⟨(), .scalar, [], key, []⟩, ⟨(), .scalar, [' '], value, []⟩]⟩]⟩,
      ⟨(), .documentEnd, ['\n'], [], []⟩]⟩]⟩

theorem spelled_pairDocument (k : Quotation) (v : Flow) {after : Text} (ha : startsLine after) :
    (pairDocument k v).block.Spelled after := by
  have hlead : LeadsToToken [] := leadsToToken_of_all_isBlank rfl
  have hblank : LeadsToToken [' '] := leadsToToken_of_all_isBlank rfl
  have hkey : (Head.key k.written [':']).SpelledAt [] (' ' :: (v.written ++ after)) := by
    rw [Head.SpelledAt, Head.source, List.append_assoc]
    exact ⟨hlead.introduces (k.startsToken_append _), k.headOf?_key rfl⟩
  refine ⟨hkey, ?_, v.written_ne_nil, hblank.introduces (v.startsToken_append after),
    v.scalarOf?_append ha⟩
  rintro (h | h) <;> cases h

/-- The document begins with its key. -/
theorem afterLead_pairDocument (k : Quotation) (v : Flow) : (pairDocument k v).afterLead [] =
    k.written ++ ([':'] ++ ([' '] ++ v.written ++ ['\n'])) := by
  simp [pairDocument, Document.afterLead, Document.afterBlock, Document.mark, Document.endText,
    Block.written, Entries.written, Head.source]

theorem laid_pairDocument (k : Quotation) (v : Flow) : (pairDocument k v).Laid [] [] := by
  have hlead : LeadsToToken [] := leadsToToken_of_all_isBlank rfl
  have hstart := k.startsToken_append ([':'] ++ ([' '] ++ v.written ++ ['\n']))
  have hmark : Place.atDocumentMark
      ⟨[], k.written ++ ([':'] ++ ([' '] ++ v.written ++ ['\n']))⟩ = false := by
    rw [Place.atDocumentMark_eq, hstart.2, Bool.and_false]
  refine ⟨⟨?_, spelled_pairDocument k v rfl, rfl, .inl rfl⟩, ?_, ⟨?_, rfl, .inl rfl⟩, ?_,
    .inr (.inl rfl)⟩
  · rw [afterLead_pairDocument]
    exact (hlead.introduces hstart).1
  · rw [afterLead_pairDocument]
    rw [Place.atDocumentMark_eq_or, Bool.or_eq_false_iff] at hmark
    exact hmark.1
  · rw [Entries.head, Head.source, List.append_assoc]
    exact hmark
  · rw [Place.atMark_eq]
    exact Bool.and_false _

/-- A quoted key and a value of quoted texts are read as one key with its value, whatever is
quoted. -/
theorem parse_quoted (k : Quotation) (v : Flow) :
    parse (k.written ++ ':' :: ' ' :: (v.written ++ ['\n'])) =
      .ok (pairStream k.written v.written) := by
  have hwritten : (pairDocument k v).written =
      k.written ++ ':' :: ' ' :: (v.written ++ ['\n']) := by
    simp [pairDocument, Document.written, Document.mark, Document.endText, Block.written,
      Entries.written, Head.source]
  have hc : Consists (k.written ++ ':' :: ' ' :: (v.written ++ ['\n'])) [pairDocument k v] := by
    refine ⟨List.cons_ne_nil _ _, ⟨laid_pairDocument k v, fun _ => rfl, trivial⟩, ?_⟩
    rw [writtenAll, writtenAll, List.append_nil, hwritten]
  exact parse_eq_ok_iff.2 ⟨_, hc, rfl⟩

/-- A key with a quote in it, and a list of texts that hold a bracket, a quote and a hash. -/
example :
    let key : Quotation := ⟨.single, "it's".toList, rfl⟩
    let first : Quotation := ⟨.double, "]\"".toList, rfl⟩
    let second : Quotation := ⟨.single, "[ #".toList, rfl⟩
    let value : Flow := .collection .square (.more (.quoted first) .comma (.last (.quoted second)))
    key.written ++ ':' :: ' ' :: (value.written ++ ['\n']) =
      "'it''s': [\"]\\\"\", '[ #']\n".toList := by
  decide +kernel

end YamlIndent
