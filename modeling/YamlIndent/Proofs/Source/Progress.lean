import YamlIndent.Proofs.Source.Reading
import YamlIndent.Source.Stream

/-!
# Reading goes from token to token

What is read behind a place either leaves the reader there, or takes it to the next token at least:
never does it stop on the way, inside of a gap. A fault is found where a token stands, and no sooner
than at the next one.

## Main definitions

* `Place.Follows`: one place is another, or not in front of the token that follows it.
* `Rejection.Behind`: a fault is found at a token behind a place.
* `ReadsFrom`: a result of reading from a place.

## Main results

* `readsFrom_entries`, `readsFrom_document`: entries and documents are read from token to token.
* `behind_of_documents`: a fault of a source is found at a token of it.
-/

namespace YamlIndent

variable {p q r : Place} {e : Rejection}

/-! ### Places and the token that follows them -/

/-- The place `q` is `p`, or it is not in front of the token that follows `p`. -/
def Place.Follows (p q : Place) : Prop :=
  q = p ∨ p.gap.2.Leads q

/-- A fault is found at a token behind a place. -/
structure Rejection.Behind (p : Place) (e : Rejection) : Prop where
  leads : p.gap.2.Leads e.place
  token : startsLine e.place.rest = false

/-- A quote that is not closed stands in the text of the flow collection. -/
theorem exists_of_splitFlow_error {afterBlank : Bool} {t left : Text}
    (h : splitFlow afterBlank t = .error left) :
    ∃ front quote rest, t = front ++ quote :: rest ∧ left = quote :: rest ∧ isQuote quote := by
  fun_induction splitFlow afterBlank t with
  | case1 => cases h
  | case2 => cases h
  | case3 b c cs _ hc _ =>
    cases h
    exact ⟨[], c, cs, rfl, rfl, hc⟩
  | case4 b c cs _ hc q r hq ih =>
    cases hr : splitFlow false r with
    | ok s => rw [hr] at h; cases h
    | error left' =>
      rw [hr] at h
      cases h
      obtain ⟨front, quote, rest, rfl, hl, hquote⟩ := ih hr
      exact ⟨c :: q ++ front, quote, rest, by simp [← splitQuoted_append hq], hl, hquote⟩
  | case5 b c cs _ _ ih =>
    cases hr : splitFlow (isBlank c) cs with
    | ok s => rw [hr] at h; cases h
    | error left' =>
      rw [hr] at h
      cases h
      obtain ⟨front, quote, rest, rfl, hl, hquote⟩ := ih hr
      exact ⟨c :: front, quote, rest, rfl, hl, hquote⟩

namespace Place

theorem Follows.refl (p : Place) : p.Follows p := .inl rfl

/-- The token that follows comes no sooner behind a place that follows. -/
theorem Follows.leads_gap (h : p.Follows q) : p.gap.2.Leads q.gap.2 := by
  rcases h with rfl | h
  · exact .refl _
  · exact h.trans q.reaches_gap.leads

theorem Follows.trans (hpq : p.Follows q) (hqr : q.Follows r) : p.Follows r := by
  rcases hqr with rfl | hqr
  · exact hpq
  · exact .inr (hpq.leads_gap.trans hqr)

theorem Follows.behind (h : p.Follows q) (he : e.Behind q) : e.Behind p :=
  ⟨h.leads_gap.trans he.leads, he.token⟩

/-- What a token begins with is no break. -/
theorem startsLine_of_startsToken {t : Text} (h : startsToken t) : startsLine t = false := by
  cases t with
  | nil => cases h
  | cons c t =>
    rw [startsToken, Bool.not_eq_true', Bool.or_eq_false_iff, Bool.or_eq_false_iff] at h
    exact h.1.2

theorem startsLine_gap (p : Place) (h : p.gap.2.atEnd = false) :
    startsLine p.gap.2.rest = false := by
  refine startsLine_of_startsToken (GapBefore.startsToken (gapBefore_of_splitGap rfl) ?_)
  exact List.isEmpty_eq_false_iff.1 h

/-- A fault of a scalar is found in the scalar, where a token stands. -/
theorem scalar_error (h : p.scalar = .error e) :
    p.Leads e.place ∧ (startsLine p.rest = false → startsLine e.place.rest = false) := by
  unfold scalar at h
  split at h
  · cases h
  · rename_i c cs hr
    split at h
    · cases h
      exact ⟨.refl p, id⟩
    · split at h
      · split at h
        · cases h
          exact ⟨.refl p, id⟩
        · cases h
      · split at h
        · split at h
          · rename_i hf
            cases h
            obtain ⟨front, quote, rest, ht, rfl, hq⟩ := exists_of_splitFlow_error hf
            refine ⟨(reaches_past ?_).leads, fun _ => isBreak_eq_false_of_isQuote hq⟩
            rw [hr, ht, List.length_append, Nat.add_sub_cancel, List.take_left]
          · split at h
            · cases h
              exact ⟨.refl p, id⟩
            · cases h
        · cases h

end Place

/-! ### Results of reading -/

/-- A result of reading from a place: what is read ends at a place that follows, and a fault is
found at a token behind. -/
structure ReadsFrom {α : Type} (p : Place) (place : α → Place) (x : Except Rejection α) : Prop where
  follows {a : α} : x = .ok a → p.Follows (place a)
  behind {e : Rejection} : x = .error e → e.Behind p

namespace ReadsFrom

variable {α β : Type} {place : α → Place} {place' : β → Place}

theorem ok {a : α} (h : p.Follows (place a)) : ReadsFrom p place (.ok a) where
  follows ha := by
    cases ha
    exact h
  behind he := by cases he

theorem error (h : e.Behind p) : ReadsFrom p place (.error e) where
  follows ha := by cases ha
  behind he := by
    cases he
    exact h

/-- What is read from a place that follows is read from the place itself. -/
theorem of_follows {x : Except Rejection α} (hq : p.Follows q) (h : ReadsFrom q place x) :
    ReadsFrom p place x where
  follows ha := hq.trans (h.follows ha)
  behind he := hq.behind (h.behind he)

theorem bind {x : Except Rejection α} {f : α → Except Rejection β} (h : ReadsFrom p place x)
    (hf : ∀ a, x = .ok a → ReadsFrom (place a) place' (f a)) : ReadsFrom p place' (x >>= f) := by
  cases x with
  | error e => exact error (h.behind rfl)
  | ok a => exact of_follows (h.follows rfl) (hf a rfl)

end ReadsFrom

/-! ### Reading blocks -/

/-- Of two steps that fail the first one fails, or the second one on its result. -/
theorem error_or_of_bind_eq_error {ε α β : Type} {x : Except ε α} {f : α → Except ε β} {e : ε}
    (h : x >>= f = .error e) : x = .error e ∨ ∃ a, x = .ok a ∧ f a = .error e := by
  cases x with
  | error e' =>
    cases h
    exact .inl rfl
  | ok a => exact .inr ⟨a, rfl, h⟩

namespace Place

theorem behind_of_checkedColumn (h : p.gap.2.atEnd = false)
    (he : p.gap.2.checkedColumn = .error e) : e.Behind p := by
  unfold checkedColumn at he
  split at he
  · cases he
    exact ⟨.refl _, p.startsLine_gap h⟩
  · cases he

theorem readsFrom_leaf (h : p.gap.2.atEnd = false) (lead : Text) :
    ReadsFrom p Opening.after (p.gap.2.leaf lead) := by
  refine ⟨fun ho => .inr (leads_leaf ho), fun he => ?_⟩
  rcases error_or_of_bind_eq_error he with hs | ⟨_, -, he⟩
  · obtain ⟨hl, ht⟩ := scalar_error hs
    exact ⟨hl, ht (p.startsLine_gap h)⟩
  · cases he

theorem readsFrom_opening (h : p.gap.2.atEnd = false) (lead : Text) :
    ReadsFrom p Opening.after (p.gap.2.opening lead) := by
  refine ⟨fun ho => .inr (leads_opening ho), fun he => ?_⟩
  unfold opening at he
  split at he
  · rcases error_or_of_bind_eq_error he with hc | ⟨_, -, he⟩
    · exact behind_of_checkedColumn h hc
    · cases he
  · exact (readsFrom_leaf h lead).behind he

/-- The place that the search for a next entry ends at. -/
def afterSibling (p : Place) (next : Option (Text × Head × Place)) : Place :=
  next.elim p (·.2.2)

theorem readsFrom_sibling (head : Head) (column : Nat) (p : Place) :
    ReadsFrom p p.afterSibling (p.sibling head column) := by
  unfold sibling
  dsimp only
  split
  · exact .ok (.refl p)
  · rename_i h
    rw [Bool.or_eq_true, not_or, Bool.not_eq_true] at h
    refine ⟨fun ha => ?_, fun he => ?_⟩
    · obtain ⟨c, -, ha⟩ := exists_of_bind_eq_ok ha
      split at ha
      · split at ha
        · rename_i hh
          cases ha
          split
          · exact .inr (reaches_head? hh).leads
          · exact .refl p
        · cases ha
          exact .refl p
      · cases ha
        exact .refl p
    · rcases error_or_of_bind_eq_error he with hc | ⟨c, -, he⟩
      · exact behind_of_checkedColumn h.1 hc
      · split at he
        · split at he <;> cases he
        · cases he

end Place

theorem readsFrom_value (head : Head) (column : Nat) (p : Place) :
    ReadsFrom p Opening.after (head.value column p) := by
  unfold Head.value
  dsimp only
  split
  · exact .ok (.refl p)
  · rename_i h
    rw [Bool.or_eq_true, not_or, Bool.not_eq_true] at h
    split
    · split
      · exact Place.readsFrom_opening h.1 _
      · exact Place.readsFrom_leaf h.1 _
    · refine ⟨fun ha => ?_, fun he => ?_⟩
      · obtain ⟨c, -, ha⟩ := exists_of_bind_eq_ok ha
        split at ha
        · exact (Place.readsFrom_opening h.1 _).follows ha
        · cases ha
          exact .refl p
      · rcases error_or_of_bind_eq_error he with hc | ⟨c, -, he⟩
        · exact Place.behind_of_checkedColumn h.1 hc
        · split at he
          · exact (Place.readsFrom_opening h.1 _).behind he
          · cases he

/-- An entry with a value that ends at a place, and the entries at its column that follow there. -/
def entriesAfter (column : Nat) (lead : Text) (head : Head) (value : Tree) (p : Place) :
    Except Rejection (List Tree × Place) := do
  match ← p.sibling head column with
  | none => return ([head.entry lead value], p)
  | some (next, head', q) => do
    let (es, r) ← entries column next head' q
    return (head.entry lead value :: es, r)

theorem entries_eq_bind (column : Nat) (lead : Text) (head : Head) (p : Place) :
    entries column lead head p = head.value column p >>= fun o => o.read >>= fun v =>
      entriesAfter column lead head v.1 v.2 :=
  entries_eq column lead head p

mutual

/-- Entries are read from token to token. -/
theorem readsFrom_entries (column : Nat) (lead : Text) (head : Head) (p : Place) :
    ReadsFrom p Prod.snd (entries column lead head p) := by
  rw [entries_eq_bind]
  refine (readsFrom_value head column p).bind fun o ho => ?_
  have hread : ReadsFrom o.after Prod.snd o.read := by
    cases o with
    | leaf lead' text after => exact .ok (.refl after)
    | block lead' column' head' after =>
      have := Head.length_value ho
      exact (readsFrom_entries column' lead' head' after).bind fun _ _ => .ok (.refl _)
  refine hread.bind fun v hv => ?_
  have := ((Head.leads_value ho).trans (Opening.leads_read hv)).length_le
  exact readsFrom_entriesAfter column lead head v.1 v.2
termination_by 2 * p.rest.length + 1

theorem readsFrom_entriesAfter (column : Nat) (lead : Text) (head : Head) (value : Tree)
    (p : Place) : ReadsFrom p Prod.snd (entriesAfter column lead head value p) := by
  refine (p.readsFrom_sibling head column).bind fun next hs => ?_
  match next, hs with
  | none, _ => exact .ok (.refl p)
  | some (lead', head', q), hs =>
    have := (Place.sibling_some hs).2
    exact (readsFrom_entries column lead' head' q).bind fun _ _ => .ok (.refl _)
termination_by 2 * p.rest.length

end

/-- A block is read from token to token. -/
theorem Opening.readsFrom_read (o : Opening) : ReadsFrom o.after Prod.snd o.read := by
  cases o with
  | leaf lead text after => exact .ok (.refl after)
  | block lead column head after =>
    exact (readsFrom_entries column lead head after).bind fun _ _ => .ok (.refl _)

/-! ### Reading documents -/

theorem readsFrom_documentBlock (p : Place) : ReadsFrom p Prod.snd (documentBlock p) := by
  unfold documentBlock
  dsimp only
  split
  · exact .ok (.refl p)
  · rename_i h
    rw [Bool.or_eq_true, not_or, Bool.not_eq_true] at h
    exact (Place.readsFrom_opening h.1 _).bind fun o _ =>
      o.readsFrom_read.bind fun _ _ => .ok (.refl _)

theorem readsFrom_documentEnd (p : Place) : ReadsFrom p Prod.snd (documentEnd p) := by
  unfold documentEnd
  dsimp only
  split
  · exact .ok (.inr (Place.reaches_takeMark _ _).leads)
  · split
    · exact .ok (.inr (.refl _))
    · rename_i h
      rw [Bool.or_eq_true, not_or, Bool.not_eq_true] at h
      exact .error ⟨.refl _, p.startsLine_gap h.1⟩

theorem readsFrom_document (p : Place) : ReadsFrom p Prod.snd (document p) := by
  unfold document
  dsimp only
  have hmark : p.Follows (p.gap.2.takeMark Place.startMark).2 :=
    .inr (Place.reaches_takeMark _ _).leads
  exact .of_follows hmark <| (readsFrom_documentBlock _).bind fun b _ =>
    (readsFrom_documentEnd b.2).bind fun _ _ => .ok (.refl _)

/-- A fault of documents is found at a token of them. -/
theorem behind_of_documents {p : Place} {e : Rejection} (h : documents p = .error e) :
    e.Behind p := by
  rw [documents_eq] at h
  rcases error_or_of_bind_eq_error h with hd | ⟨v, hd, h⟩
  · exact (readsFrom_document p).behind hd
  · split at h
    · cases h
    · rename_i hend
      have hlt := document_length_lt hd (eq_false_of_ne_true hend)
      cases hds : documents v.2 with
      | ok ds =>
        rw [hds] at h
        cases h
      | error e' =>
        rw [hds] at h
        cases h
        exact ((readsFrom_document p).follows hd).behind (behind_of_documents hds)
termination_by p.rest.length

end YamlIndent
