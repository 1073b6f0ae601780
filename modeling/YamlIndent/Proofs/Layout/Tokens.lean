import YamlIndent.Proofs.Layout.Lined

/-!
# Blocks token by token

Where a block is cut into entries depends on columns, but where it is cut into tokens does not: each
token is read off the text behind its lead, and all that counts of what is in front is whether a key
stands on the same line. So a text is one sequence of tokens, whichever blocks it is read as.

## Main definitions

* `Token`: the head of an entry, or a scalar.
* `Block.tokens`, `Entries.tokens`: the tokens of a block with their leads.
* `Lexed`: tokens that are read one after another, up to a text in front of which a block ends.

## Main results

* `Block.spelling_tokens`: a block is written token by token.
* `Block.lexed`, `Entries.lexed`: what is spelled and lined up is read token by token.
* `Lexed.unique`: a text is read token by token in one way only.
-/

namespace YamlIndent

/-- What stands behind a lead of a block. -/
inductive Token where
  | head (head : Head)
  | scalar (text : Text)
  deriving DecidableEq, Repr

namespace Token

/-- The text of a token. -/
def source : Token → Text
  | head h => h.source
  | scalar text => text

/-- The head that a token is, if it is one. -/
def head? : Token → Option Head
  | head h => some h
  | scalar _ => none

/-- The kind of the block that a token begins. -/
def blockKind : Token → Kind
  | head h => h.blockKind
  | scalar _ => .scalar

/-- A token is read in front of some text: on the line of a key a scalar whatever it is, and
elsewhere an entry if it may be one. -/
def Reads (onKey : Prop) (rest : Text) : Token → Prop
  | head h => ¬ onKey ∧ headOf? (h.source ++ rest) = some (h, rest)
  | scalar text => text ≠ [] ∧ scalarOf? (text ++ rest) = some (text, rest) ∧
      (¬ onKey → headOf? (text ++ rest) = none)

end Token

/-- The text of tokens with their leads. -/
def spelling (ts : List (Text × Token)) : Text :=
  ts.flatMap fun (lead, token) => lead ++ token.source

mutual

/-- The tokens of a block with their leads. -/
def Block.tokens : Block → List (Text × Token)
  | .empty => []
  | .scalar lead text => [(lead, .scalar text)]
  | .entries es => es.tokens

/-- The tokens of entries with their leads. -/
def Entries.tokens : Entries → List (Text × Token)
  | .last lead head value => (lead, .head head) :: value.tokens
  | .more lead head value others => (lead, .head head) :: (value.tokens ++ others.tokens)

end

variable {line lead rest rest' after after' : Text} {head : Head} {owner : Option Head} {k : Nat}
  {token token' : Token} {ts more : List (Text × Token)} {onKey : Prop}

@[simp] theorem spelling_nil : spelling [] = [] := rfl

@[simp] theorem spelling_cons (lead : Text) (token : Token) (ts : List (Text × Token)) :
    spelling ((lead, token) :: ts) = lead ++ (token.source ++ spelling ts) := by
  rw [spelling, List.flatMap_cons, List.append_assoc, spelling]

@[simp] theorem spelling_append (ts more : List (Text × Token)) :
    spelling (ts ++ more) = spelling ts ++ spelling more :=
  List.flatMap_append

mutual

/-- A block is written token by token. -/
theorem Block.spelling_tokens : (b : Block) → spelling b.tokens = b.written
  | .empty => rfl
  | .scalar lead text => by
    rw [Block.tokens, spelling_cons, spelling_nil, List.append_nil]
    rfl
  | .entries es => Entries.spelling_tokens es

/-- Entries are written token by token. -/
theorem Entries.spelling_tokens : (es : Entries) → spelling es.tokens = es.written
  | .last lead head value => by
    rw [Entries.tokens, spelling_cons, Block.spelling_tokens value]
    rfl
  | .more lead head value others => by
    rw [Entries.tokens, spelling_cons, spelling_append, Block.spelling_tokens value,
      Entries.spelling_tokens others]
    rfl

end

theorem Entries.exists_tokens_eq (es : Entries) :
    ∃ ts, es.tokens = (es.lead, .head es.head) :: ts := by
  cases es with
  | last lead head value => exact ⟨value.tokens, by rw [tokens]; rfl⟩
  | more lead head value others => exact ⟨value.tokens ++ others.tokens, by rw [tokens]; rfl⟩

/-! ### Reading tokens -/

/-- A token behind a lead stands on the line of the key in front. -/
def OnKey (owner : Option Head) (lead : Text) : Prop :=
  (∃ head, owner = some head ∧ head.blockKind = .mapping) ∧ hasBreak lead = false

/-- Tokens are read one after another behind some text on a line, the first of them behind a head or
behind none. Behind the last there is the end of the source, or a mark of a document. -/
def Lexed (line : Text) (owner : Option Head) (after : Text) : List (Text × Token) → Prop
  | [] => ∃ gap rest, after = gap ++ rest ∧ GapBefore gap rest ∧
      (rest = [] ∨ Place.atDocumentMark ⟨lineAfter line gap, rest⟩)
  | (lead, token) :: ts =>
    GapBefore lead (token.source ++ (spelling ts ++ after)) ∧
      Place.atDocumentMark ⟨lineAfter line lead, token.source ++ (spelling ts ++ after)⟩ = false ∧
      token.Reads (OnKey owner lead) (spelling ts ++ after) ∧
      Lexed (lineAfter (lineAfter line lead) token.source) token.head? after ts

theorem not_onKey_of_hasBreak (h : hasBreak lead) : ¬ OnKey owner lead := by
  rintro ⟨-, hb⟩
  rw [h] at hb
  cases hb

theorem atDocumentMark_of_introduces (hl : line ≠ []) (h : Introduces lead rest) :
    Place.atDocumentMark ⟨lineAfter line lead, rest⟩ = false := by
  rw [← Bool.not_eq_true]
  intro hm
  obtain ⟨hs, hmark⟩ := standsAt_zero_of_atDocumentMark hl hm
  rw [h.2 hs] at hmark
  cases hmark

mutual

/-- The value of an entry that is spelled and lined up is read token by token, and then what is read
on the line that it leaves. -/
theorem Block.lexed {line after : Text} {head : Head} {more : List (Text × Token)} : (b : Block) →
    b.Spelled (spelling more ++ after) → head.Admits b (spelling more ++ after) → b.Lined head →
    line ≠ [] → (∀ owner, Lexed (lineAfter line b.written) owner after more) →
    Lexed line (some head) after (b.tokens ++ more)
  | .empty, _, _, _, _, hmore => hmore _
  | .scalar lead text, hs, ha, _, hl, hmore => by
    rw [Block.Spelled] at hs
    obtain ⟨hne, hi, hscalar⟩ := hs
    have hnot (h : ¬ OnKey (some head) lead) :
        headOf? (text ++ (spelling more ++ after)) = none := by
      refine ha ?_
      cases head with
      | item => exact .inl rfl
      | key => exact .inr (eq_true_of_ne_false fun hb => h ⟨⟨_, rfl, rfl⟩, hb⟩)
    refine ⟨hi.1, atDocumentMark_of_introduces hl hi, ⟨hne, hscalar, hnot⟩, ?_⟩
    rw [← lineAfter_append]
    exact hmore none
  | .entries es, hs, _, hlined, hl, hmore => by
    rw [Block.Spelled] at hs
    rw [Block.Lined] at hlined
    obtain ⟨-, hinline, k, hes⟩ := hlined
    refine Entries.lexed es hs hes
      (atDocumentMark_of_introduces hl (Entries.spelledAt hs).1) ?_ hmore
    rintro ⟨⟨_, he, hkind⟩, hb⟩
    cases he
    rw [(hinline hb).1] at hkind
    cases hkind

/-- Entries that are spelled and lined up are read token by token, and then what is read on the line
that they leave. -/
theorem Entries.lexed {line after : Text} {owner : Option Head} {k : Nat}
    {more : List (Text × Token)} : (es : Entries) → es.Spelled (spelling more ++ after) →
    es.Lined k →
    Place.atDocumentMark ⟨lineAfter line es.lead,
      es.head.source ++ (es.tail ++ (spelling more ++ after))⟩ = false →
    ¬ OnKey owner es.lead → (∀ owner, Lexed (lineAfter line es.written) owner after more) →
    Lexed line owner after (es.tokens ++ more)
  | .last lead head value, hs, hl, hm, hkey, hmore => by
    rw [Entries.Spelled] at hs
    rw [Entries.Lined] at hl
    rw [Entries.tail] at hm
    simp only [Entries.written, lineAfter_append] at hmore
    have hrest : spelling (value.tokens ++ more) ++ after =
        value.written ++ (spelling more ++ after) := by
      rw [spelling_append, value.spelling_tokens, List.append_assoc]
    rw [Entries.tokens, List.cons_append, Lexed, hrest]
    exact ⟨hs.1.1.1, hm, ⟨hkey, hs.1.2⟩,
      Block.lexed value hs.2.2 hs.2.1 hl (lineAfter_source_ne_nil hs.1.2 _) hmore⟩
  | .more lead head value others, hs, hl, hm, hkey, hmore => by
    rw [Entries.Spelled] at hs
    rw [Entries.Lined] at hl
    rw [Entries.tail, List.append_assoc] at hm
    obtain ⟨hat, hadmits, hvalue, hothers⟩ := hs
    simp only [Entries.written, lineAfter_append] at hmore
    have hline := lineAfter_source_ne_nil hat.2 (lineAfter line lead)
    have hrest : spelling (others.tokens ++ more) ++ after =
        others.written ++ (spelling more ++ after) := by
      rw [spelling_append, others.spelling_tokens, List.append_assoc]
    have hrests : spelling (value.tokens ++ (others.tokens ++ more)) ++ after =
        value.written ++ (others.written ++ (spelling more ++ after)) := by
      rw [spelling_append, value.spelling_tokens, List.append_assoc, hrest]
    rw [Entries.tokens, List.cons_append, List.append_assoc, Lexed, hrests]
    refine ⟨hat.1.1, hm, ⟨hkey, hat.2⟩, ?_⟩
    rw [← hrest] at hadmits hvalue
    refine Block.lexed value hvalue hadmits hl.1 hline fun owner => ?_
    exact Entries.lexed others hothers hl.2.2
      (atDocumentMark_of_introduces (Block.lineAfter_written_ne_nil value hvalue (.inl hline))
        (Entries.spelledAt hothers).1)
      (not_onKey_of_hasBreak hl.2.1.1) hmore

end

/-! ### One text, one sequence of tokens -/

theorem Token.Reads.source_ne_nil (h : token.Reads onKey rest) : token.source ≠ [] := by
  cases token with
  | head head => exact YamlIndent.source_ne_nil h.2
  | scalar text => exact h.1

/-- A text begins with one token only. -/
theorem Token.Reads.unique (h : token.Reads onKey rest) (h' : token'.Reads onKey rest')
    (he : token.source ++ rest = token'.source ++ rest') : token = token' ∧ rest = rest' := by
  cases token with
  | head head =>
    cases token' with
    | head head' =>
      have hhead := h.2
      change head.source ++ rest = head'.source ++ rest' at he
      rw [he, h'.2] at hhead
      cases hhead
      exact ⟨rfl, rfl⟩
    | scalar text =>
      have hnone := h'.2.2 h.1
      change head.source ++ rest = text ++ rest' at he
      rw [← he, h.2] at hnone
      cases hnone
  | scalar text =>
    cases token' with
    | head head =>
      have hnone := h.2.2 h'.1
      change text ++ rest = head.source ++ rest' at he
      rw [he, h'.2] at hnone
      cases hnone
    | scalar text' =>
      have hscalar := h.2.1
      change text ++ rest = text' ++ rest' at he
      rw [he, h'.2.1] at hscalar
      cases hscalar
      exact ⟨rfl, rfl⟩

/-- Where no token is read, none is read. -/
theorem Lexed.not_cons (h : Lexed line owner after [])
    (h' : Lexed line owner after' ((lead, token) :: ts)) :
    after ≠ spelling ((lead, token) :: ts) ++ after' := by
  rintro he
  obtain ⟨gap, rest, rfl, hg, hrest⟩ := h
  obtain ⟨hg', hm, hreads, -⟩ := h'
  rw [spelling_cons, List.append_assoc, List.append_assoc] at he
  obtain ⟨rfl, rfl⟩ := hg.unique hg' he
  rcases hrest with hnil | hmark
  · exact hreads.source_ne_nil (List.append_eq_nil_iff.1 hnil).1
  · rw [hm] at hmark
    cases hmark

/-- A text is read token by token in one way only. -/
theorem Lexed.unique {ts' : List (Text × Token)} (h : Lexed line owner after ts)
    (h' : Lexed line owner after' ts') (he : spelling ts ++ after = spelling ts' ++ after') :
    ts = ts' ∧ after = after' := by
  induction ts generalizing line owner ts' with
  | nil =>
    cases ts' with
    | nil => exact ⟨rfl, he⟩
    | cons t ts' => exact absurd he (h.not_cons h')
  | cons t ts ih =>
    cases ts' with
    | nil => exact absurd he.symm (h'.not_cons h)
    | cons t' ts' =>
      obtain ⟨lead, token⟩ := t
      obtain ⟨lead', token'⟩ := t'
      obtain ⟨hg, -, hreads, hrest⟩ := h
      obtain ⟨hg', -, hreads', hrest'⟩ := h'
      rw [spelling_cons, spelling_cons, List.append_assoc, List.append_assoc, List.append_assoc,
        List.append_assoc] at he
      obtain ⟨rfl, hbehind⟩ := hg.unique hg' he
      obtain ⟨rfl, hothers⟩ := hreads.unique hreads' hbehind
      obtain ⟨rfl, hafter⟩ := ih hrest hrest' hothers
      exact ⟨rfl, hafter⟩

end YamlIndent
