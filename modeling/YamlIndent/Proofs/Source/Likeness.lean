import YamlIndent.Proofs.Source.Progress
import YamlIndent.Proofs.Tree.Alike

/-!
# Two sources read in step

Reading looks at little: at the line a place stands on, at the rest of that line, at how far the gap
goes and whether it breaks the line, and at whether the source ends. Two sources whose places agree
in these are read in step, and their trees differ in the leads only. They need not agree to the end:
past a limit, what is read of the one says nothing about the other.

## Main definitions

* `Likeness`: a relation of the places of two sources that reading keeps.
* `Beyond`: a result that was read past a limit.
* `InStep`: two results read in step.

## Main results

* `Place.scalar_append_next`: a scalar is read from its line alone.
* `Likeness.value`, `Likeness.sibling`, `Likeness.entries`: the parts of blocks are read in step.
* `Likeness.documents`: sources are read in step.
-/

namespace YamlIndent

/-! ### Scalars and the start of the next line -/

/-- A place, with more text behind it. -/
def Place.before (next : Text) (p : Place) : Place :=
  ⟨p.line, p.rest ++ next⟩

/-- A fault, with more text behind the place where it was found. -/
def Rejection.before (next : Text) (e : Rejection) : Rejection :=
  ⟨e.fault, e.place.before next⟩

namespace Place

/-- A scalar and the place after it, with more text behind that. -/
def scalarBefore (next : Text) (s : Text × Place) : Text × Place :=
  (s.1, s.2.before next)

theorem closeScalar_before (p : Place) (taken rest next : Text) :
    closeScalar (p.before next) taken (rest ++ next) =
      scalarBefore next (p.closeScalar taken rest) := by
  simp only [closeScalar, scalarBefore, before, past, List.append_assoc]

/-- The scalar of a flow collection, by what was split off for it. -/
def closeFlow (p : Place) : Except Text FlowSplit → Except Rejection (Text × Place)
  | .error left => .error ⟨.openQuote, p.past (p.rest.take (p.rest.length - left.length)) left⟩
  | .ok ⟨taken, rest, depth⟩ =>
    if 0 < depth then .error ⟨.openFlow, p⟩ else .ok (p.closeScalar taken rest)

theorem closeFlow_before {p : Place} {x : Except Text FlowSplit} (next : Text)
    (hx : ∀ left, x = .error left → ∃ u, p.rest = u ++ left) :
    (p.before next).closeFlow ((x.mapError (· ++ next)).map (.before next)) =
      ((p.closeFlow x).mapError (Rejection.before next)).map (scalarBefore next) := by
  cases x with
  | error left =>
    obtain ⟨u, hu⟩ := hx left rfl
    have htake (t : Text) : (u ++ t).take ((u ++ t).length - t.length) = u := by
      rw [List.length_append, Nat.add_sub_cancel, List.take_left]
    simp only [closeFlow, before, hu, Except.mapError, Except.map, List.append_assoc, htake]
    rfl
  | ok s =>
    obtain ⟨taken, rest, depth⟩ := s
    by_cases hd : 0 < depth
    · simp only [closeFlow, Except.mapError, Except.map, FlowSplit.before, if_pos hd]
      rfl
    · simp only [closeFlow, Except.mapError, Except.map, FlowSplit.before, if_neg hd]
      exact congrArg Except.ok (closeScalar_before p taken rest next)

/-- A scalar is read from its line alone, and so is its fault. -/
theorem scalar_before {p : Place} {next : Text} (hl : hasBreak p.rest = false)
    (hn : startsLine next) :
    (p.before next).scalar =
      (p.scalar.mapError (Rejection.before next)).map (scalarBefore next) := by
  obtain ⟨front, line⟩ := p
  cases line with
  | nil =>
    cases next with
    | nil => rfl
    | cons c cs =>
      have hc : isBreak c := hn
      simp only [isBreak, Bool.or_eq_true, beq_iff_eq] at hc
      rcases hc with rfl | rfl <;> rfl
  | cons c cs =>
    have hcs := hl
    rw [hasBreak_cons, Bool.or_eq_false_iff] at hcs
    change scalar ⟨front, c :: (cs ++ next)⟩ = _
    simp only [scalar]
    split
    · rfl
    · split
      · rw [splitQuoted_append_next c hcs.2 hn]
        cases hq : splitQuoted c cs with
        | none => rfl
        | some qr =>
          obtain ⟨q, r⟩ := qr
          have hr : hasBreak r = false := by
            rw [← splitQuoted_append hq, hasBreak_append, Bool.or_eq_false_iff] at hcs
            exact hcs.2.2
          simp only [Option.map_some, YamlIndent.before, splitPlain_append_next false hr hn]
          exact congrArg Except.ok (closeScalar_before ⟨front, c :: cs⟩ _ _ next)
      · rw [← List.cons_append, splitPlain_append_next false hl hn,
          splitFlow_append_next false hl hn]
        split
        · refine closeFlow_before (p := ⟨front, c :: cs⟩) next fun left hleft => ?_
          obtain ⟨u, quote, rest, ht, rfl, -⟩ := exists_of_splitFlow_error hleft
          exact ⟨u, ht⟩
        · exact congrArg Except.ok (closeScalar_before ⟨front, c :: cs⟩ _ _ next)

end Place

/-! ### Places of two sources -/

/-- Places of two sources that reading takes to such places again, and gaps that reading takes for
one another, as long as at least `limit` characters of the first source are still to come. -/
structure Likeness (limit : Nat) (R : Place → Place → Prop) (G : Text → Text → Prop) : Prop where
  line_eq {p p' : Place} : R p p' → p.line = p'.line
  sameLine {p p' : Place} : R p p' → SameLine p.rest p'.rest
  atEnd_eq {p p' : Place} : R p p' → limit ≤ p.rest.length → p.atEnd = p'.atEnd
  past {p p' : Place} {t r r' : Text} : R p p' → hasBreak t = false → t ++ r = p.rest →
    t ++ r' = p'.rest → R (p.past t r) (p'.past t r')
  lead {p p' : Place} : R p p' → limit ≤ p.gap.2.rest.length → G p.gap.1 p'.gap.1
  breaks {p p' : Place} : R p p' → limit ≤ p.gap.2.rest.length →
    hasBreak p.gap.1 = hasBreak p'.gap.1
  gap {p p' : Place} : R p p' → limit ≤ p.gap.2.rest.length → R p.gap.2 p'.gap.2
  nil : G [] []

variable {limit : Nat} {R : Place → Place → Prop} {G : Text → Text → Prop} {p p' : Place}

namespace Likeness

variable (h : Likeness limit R G)

include h

theorem atMark_eq (hp : R p p') (mark : Text) (hm : hasBreak mark = false) :
    p.atMark mark = p'.atMark mark :=
  (Place.atMark_of_sameLine hm p.line (h.sameLine hp)).trans
    (congrArg (fun line => Place.atMark mark ⟨line, p'.rest⟩) (h.line_eq hp))

theorem atDocumentMark_eq (hp : R p p') : p.atDocumentMark = p'.atDocumentMark := by
  rw [Place.atDocumentMark, Place.atDocumentMark, h.atMark_eq hp Place.startMark rfl,
    h.atMark_eq hp Place.endMark rfl]

/-- Both places have one column, or tabs lead to both. -/
theorem checkedColumn_cases (hp : R p p') :
    (∃ c, p.checkedColumn = .ok c ∧ p'.checkedColumn = .ok c) ∨
      (p.checkedColumn = .error ⟨.tabInIndentation, p⟩ ∧
        p'.checkedColumn = .error ⟨.tabInIndentation, p'⟩) := by
  have htabbed : p.tabbed = p'.tabbed := by rw [Place.tabbed, Place.tabbed, h.line_eq hp]
  rw [Place.checkedColumn, Place.checkedColumn, ← htabbed]
  by_cases ht : p.tabbed = true
  · exact .inr ⟨if_pos ht, if_pos ht⟩
  · refine .inl ⟨p.column, if_neg ht, ?_⟩
    rw [if_neg ht, Place.column, Place.column, h.line_eq hp]

/-- A mark is taken at both places, or at none. -/
theorem takeMark (hp : R p p') (mark : Text) (hm : hasBreak mark = false) :
    (p.takeMark mark).1 = (p'.takeMark mark).1 ∧ R (p.takeMark mark).2 (p'.takeMark mark).2 := by
  have hat := h.atMark_eq hp mark hm
  rw [Place.takeMark, Place.takeMark, ← hat]
  split
  · rename_i hmark
    exact ⟨rfl, h.past hp hm (Place.atMark_append hmark) (Place.atMark_append (hat ▸ hmark))⟩
  · exact ⟨rfl, hp⟩

/-- One head stands at both places, or none at either. -/
theorem head? (hp : R p p') : (p.head? = none ∧ p'.head? = none) ∨
    ∃ head q q', p.head? = some (head, q) ∧ p'.head? = some (head, q') ∧ R q q' := by
  rw [p.head?_eq, p'.head?_eq, ← h.atDocumentMark_eq hp]
  obtain ⟨line, s, t, hl, hs, ht, hr, hr'⟩ := (h.sameLine hp).exists_rest
  rw [hr, hr', headOf?_append_next hl hs, headOf?_append_next hl ht]
  split
  · exact .inl ⟨rfl, rfl⟩
  · cases hh : headOf? line with
    | none => exact .inl ⟨rfl, rfl⟩
    | some next =>
      obtain ⟨head, rest⟩ := next
      have hsource := headOf?_append hh
      refine .inr ⟨head, _, _, rfl, rfl, h.past hp (hasBreak_source hh) ?_ ?_⟩
      · rw [hr, ← hsource, List.append_assoc]
      · rw [hr', ← hsource, List.append_assoc]

theorem atKey_eq (hp : R p p') : p.atKey = p'.atKey := by
  rw [Place.atKey, Place.atKey]
  rcases h.head? hp with ⟨hh, hh'⟩ | ⟨head, q, q', hh, hh', -⟩
  · rw [hh, hh']
  · rw [hh, hh']
    cases head <;> rfl

end Likeness

/-! ### Results of two sources -/

variable {α β : Type} {place : α → Place} {place' : β → Place} {S : α → α → Prop}
  {S' : β → β → Prop} {x x' : Except Rejection α}

/-- A result that was read past the limit: fewer characters are to come behind it. -/
structure Beyond (limit : Nat) (place : α → Place) (x : Except Rejection α) : Prop where
  ok {a : α} : x = .ok a → (place a).gap.2.rest.length < limit
  error {e : Rejection} : x = .error e → e.place.rest.length < limit

theorem Beyond.of_error {e : Rejection} (h : e.place.rest.length < limit) :
    Beyond limit place (.error e) where
  ok ha := by cases ha
  error he := by
    cases he
    exact h

theorem Beyond.map {f : α → β} (h : Beyond limit place x) (hf : ∀ a, place' (f a) = place a) :
    Beyond limit place' (x.map f) := by
  cases x with
  | ok a =>
    refine ⟨fun hb => ?_, fun he => by cases he⟩
    cases hb
    rw [hf]
    exact h.ok rfl
  | error e => exact .of_error (h.error rfl)

/-- Nothing is read past the end of a source. -/
theorem not_beyond_zero (place : α → Place) (x : Except Rejection α) : ¬Beyond 0 place x := by
  intro h
  cases x with
  | ok a => exact Nat.not_lt_zero _ (h.ok rfl)
  | error e => exact Nat.not_lt_zero _ (h.error rfl)

theorem ReadsFrom.beyond (h : ReadsFrom p place x) (hp : p.gap.2.rest.length < limit) :
    Beyond limit place x where
  ok ha := Nat.lt_of_le_of_lt (h.follows ha).leads_gap.length_le hp
  error he := Nat.lt_of_le_of_lt (h.behind he).leads.length_le hp

/-- Two results of reading in step: values that `S` relates, one fault at related places, or
anything that was read past the limit. -/
inductive InStep (limit : Nat) (R : Place → Place → Prop) (place : α → Place) (S : α → α → Prop) :
    Except Rejection α → Except Rejection α → Prop
  | ok {a a' : α} (h : S a a') : InStep limit R place S (.ok a) (.ok a')
  | error {e e' : Rejection} (hf : e.fault = e'.fault) (hp : R e.place e'.place) :
    InStep limit R place S (.error e) (.error e')
  | beyond {x x' : Except Rejection α} (h : Beyond limit place x) : InStep limit R place S x x'

/-- Steps in step one after another are in step, if what is read past the limit stays there. -/
theorem InStep.bind_of_beyond {f f' : α → Except Rejection β} (h : InStep limit R place S x x')
    (hread : ∀ a, x = .ok a → (place a).gap.2.rest.length < limit → Beyond limit place' (f a))
    (hf : ∀ a a', x = .ok a → x' = .ok a' → S a a' → InStep limit R place' S' (f a) (f' a')) :
    InStep limit R place' S' (x >>= f) (x' >>= f') := by
  cases h with
  | ok hs => exact hf _ _ rfl rfl hs
  | error hfault hp => exact .error hfault hp
  | beyond hb =>
    cases x with
    | ok a => exact .beyond (hread a rfl (hb.ok rfl))
    | error e => exact .beyond (.of_error (hb.error rfl))

/-- Steps in step one after another are in step, if the second reads from where the first ends. -/
theorem InStep.bind {f f' : α → Except Rejection β} (h : InStep limit R place S x x')
    (hread : ∀ a, x = .ok a → ReadsFrom (place a) place' (f a))
    (hf : ∀ a a', x = .ok a → x' = .ok a' → S a a' → InStep limit R place' S' (f a) (f' a')) :
    InStep limit R place' S' (x >>= f) (x' >>= f') :=
  h.bind_of_beyond (fun a ha => (hread a ha).beyond) hf

theorem InStep.map {f f' : α → β} (h : InStep limit R place S x x')
    (hplace : ∀ a, place' (f a) = place a) (hf : ∀ a a', S a a' → S' (f a) (f' a')) :
    InStep limit R place' S' (x.map f) (x'.map f') := by
  cases h with
  | ok hs => exact .ok (hf _ _ hs)
  | error hfault hp => exact .error hfault hp
  | beyond hb => exact .beyond (hb.map hplace)

/-- What is read of the second source, if the first one is read to its end. -/
theorem InStep.exists_ok {a : α} (h : InStep 0 R place S x x') (ha : x = .ok a) :
    ∃ a', x' = .ok a' ∧ S a a' := by
  cases h with
  | ok hs =>
    cases ha
    exact ⟨_, rfl, hs⟩
  | error => cases ha
  | beyond hb => exact absurd hb (not_beyond_zero place x)

/-- The fault of the second source, if one is found in the first in front of the limit. -/
theorem InStep.exists_error {e : Rejection} (h : InStep limit R place S x x') (he : x = .error e)
    (hlim : limit ≤ e.place.rest.length) :
    ∃ e', x' = .error e' ∧ e.fault = e'.fault ∧ R e.place e'.place := by
  cases h with
  | ok => cases he
  | error hf hp =>
    cases he
    exact ⟨_, rfl, hf, hp⟩
  | beyond hb => exact absurd (hb.error he) (Nat.not_lt.2 hlim)

/-- Blocks that were opened in step. -/
inductive Opening.Alike (R : Place → Place → Prop) (G : Text → Text → Prop) :
    Opening → Opening → Prop
  | leaf {lead lead' : Text} {after after' : Place} (text : Text) (hl : G lead lead')
    (ha : R after after') : Alike R G (.leaf lead text after) (.leaf lead' text after')
  | block {lead lead' : Text} {after after' : Place} (column : Nat) (head : Head)
    (hl : G lead lead') (ha : R after after') :
    Alike R G (.block lead column head after) (.block lead' column head after')

/-- Searches for a next entry that ended in step. -/
inductive NextAlike (R : Place → Place → Prop) (G : Text → Text → Prop) :
    Option (Text × Head × Place) → Option (Text × Head × Place) → Prop
  | none : NextAlike R G none none
  | some {lead lead' : Text} {after after' : Place} (head : Head) (hl : G lead lead')
    (ha : R after after') : NextAlike R G (some (lead, head, after)) (some (lead', head, after'))

/-! ### Reading blocks in step -/

namespace Likeness

variable {lead lead' : Text} (h : Likeness limit R G)

include h

theorem scalar (hp : R p p') : InStep limit R Prod.snd (fun s s' => s.1 = s'.1 ∧ R s.2 s'.2)
    p.scalar p'.scalar := by
  obtain ⟨line, s, t, hl, hs, ht, hr, hr'⟩ := (h.sameLine hp).exists_rest
  obtain ⟨front, rest⟩ := p
  obtain ⟨front', rest'⟩ := p'
  obtain rfl := h.line_eq hp
  obtain rfl : rest = line ++ s := hr
  obtain rfl : rest' = line ++ t := hr'
  have hread := Place.scalar_before (p := ⟨front, line⟩) hl hs
  have hread' := Place.scalar_before (p := ⟨front, line⟩) hl ht
  have hpast {q : Place} (hq : Place.Leads ⟨front, line⟩ q) : R (q.before s) (q.before t) := by
    obtain ⟨u, hu, hline⟩ := hq
    obtain ⟨qline, qrest⟩ := q
    have hu' : u ++ qrest = line := hu
    subst hu'
    obtain rfl : qline = lineAfter front u := hline
    rw [hasBreak_append, Bool.or_eq_false_iff] at hl
    exact h.past hp hl.1 (List.append_assoc _ _ _).symm (List.append_assoc _ _ _).symm
  change InStep _ _ _ _ (Place.scalar (Place.before s ⟨front, line⟩))
    (Place.scalar (Place.before t ⟨front, line⟩))
  rw [hread, hread']
  cases hsc : Place.scalar ⟨front, line⟩ with
  | ok v => exact .ok ⟨rfl, hpast (Place.reaches_scalar hsc).leads⟩
  | error e => exact .error rfl (hpast (Place.scalar_error hsc).1)

theorem leaf (hl : G lead lead') (hp : R p p') :
    InStep limit R Opening.after (Opening.Alike R G) (p.leaf lead) (p'.leaf lead') := by
  refine (h.scalar hp).bind (fun s _ => .ok (.refl s.2)) fun s s' _ _ hs => ?_
  obtain ⟨text, q⟩ := s
  obtain ⟨text', q'⟩ := s'
  obtain ⟨rfl, hq⟩ := hs
  exact .ok (.leaf text hl hq)

theorem opening (hl : G lead lead') (hp : R p p') :
    InStep limit R Opening.after (Opening.Alike R G) (p.opening lead) (p'.opening lead') := by
  rw [Place.opening, Place.opening]
  rcases h.head? hp with ⟨hh, hh'⟩ | ⟨head, q, q', hh, hh', hq⟩
  · rw [hh, hh']
    exact h.leaf hl hp
  · rw [hh, hh']
    dsimp only
    rcases h.checkedColumn_cases hp with ⟨c, hc, hc'⟩ | ⟨hc, hc'⟩
    · rw [hc, hc']
      exact .ok (.block c head hl hq)
    · rw [hc, hc']
      exact .error rfl hp

/-- The next entry of a block is found in step. -/
theorem sibling (head : Head) (column : Nat) (hp : R p p') :
    InStep limit R p.afterSibling (NextAlike R G) (p.sibling head column)
      (p'.sibling head column) := by
  by_cases hlim : p.gap.2.rest.length < limit
  · exact .beyond ((Place.readsFrom_sibling head column p).beyond hlim)
  · rw [Nat.not_lt] at hlim
    have hlead := h.lead hp hlim
    have hbreaks := h.breaks hp hlim
    have hgap := h.gap hp hlim
    unfold Place.sibling
    dsimp only
    rw [← h.atEnd_eq hgap hlim, ← hbreaks]
    split
    · exact .ok .none
    · rcases h.checkedColumn_cases hgap with ⟨c, hc, hc'⟩ | ⟨hc, hc'⟩
      · rw [hc, hc']
        change InStep limit R _ _ (if _ then _ else _) (if _ then _ else _)
        split
        · rcases h.head? hgap with ⟨hh, hh'⟩ | ⟨next, q, q', hh, hh', hq⟩
          · rw [hh, hh']
            exact .ok .none
          · rw [hh, hh']
            dsimp only
            split
            · exact .ok (.some next hlead hq)
            · exact .ok .none
        · exact .ok .none
      · rw [hc, hc']
        exact .error rfl hgap

/-- The value of an entry is opened in step. -/
theorem value (head : Head) (column : Nat) (hp : R p p') :
    InStep limit R Opening.after (Opening.Alike R G) (head.value column p)
      (head.value column p') := by
  by_cases hlim : p.gap.2.rest.length < limit
  · exact .beyond ((readsFrom_value head column p).beyond hlim)
  · rw [Nat.not_lt] at hlim
    have hlead := h.lead hp hlim
    have hbreaks := h.breaks hp hlim
    have hgap := h.gap hp hlim
    unfold Head.value
    dsimp only
    rw [← h.atEnd_eq hgap hlim, ← h.atDocumentMark_eq hgap, ← hbreaks, ← h.atKey_eq hgap]
    split
    · exact .ok (.leaf [] h.nil hp)
    · split
      · cases head with
        | item => exact h.opening hlead hgap
        | key => exact h.leaf hlead hgap
      · rcases h.checkedColumn_cases hgap with ⟨c, hc, hc'⟩ | ⟨hc, hc'⟩
        · rw [hc, hc']
          change InStep limit R _ _ (if _ then _ else _) (if _ then _ else _)
          split
          · exact h.opening hlead hgap
          · exact .ok (.leaf [] h.nil hp)
        · rw [hc, hc']
          exact .error rfl hgap

end Likeness

/-- Blocks are read in step if their entries are. -/
theorem Opening.Alike.read {o o' : Opening} (ho : o.Alike R G o') (hn : G [] [])
    (he : ∀ {lead lead' : Text} {column : Nat} {head : Head} {after after' : Place},
      o = .block lead column head after → G lead lead' → R after after' →
      InStep limit R Prod.snd (fun v v' => Node.AlikeAll G v.1 v'.1 ∧ R v.2 v'.2)
        (entries column lead head after) (entries column lead' head after')) :
    InStep limit R Prod.snd (fun v v' => Node.Alike G v.1 v'.1 ∧ R v.2 v'.2) o.read o'.read := by
  cases ho with
  | leaf text hl ha => exact .ok ⟨.scalarNode text hl, ha⟩
  | block column head hl ha =>
    refine (he rfl hl ha).bind (fun v _ => .ok (.refl v.2)) fun v v' _ _ hv => ?_
    exact .ok ⟨.node _ _ hn hv.1, hv.2⟩

mutual

/-- Entries are read in step. -/
theorem Likeness.entries (h : Likeness limit R G) (column : Nat) (head : Head) {lead lead' : Text}
    (hl : G lead lead') {p p' : Place} (hp : R p p') :
    InStep limit R Prod.snd (fun v v' => Node.AlikeAll G v.1 v'.1 ∧ R v.2 v'.2)
      (YamlIndent.entries column lead head p) (YamlIndent.entries column lead' head p') := by
  rw [entries_eq_bind, entries_eq_bind]
  refine (h.value head column hp).bind (fun o _ => ?_) fun o o' ho _ halike => ?_
  · exact o.readsFrom_read.bind fun v _ => readsFrom_entriesAfter column lead head v.1 v.2
  have hread := halike.read h.nil fun {_ _ column' head' after _} hb hl ha =>
    have : after.rest.length < p.rest.length := Head.length_value (hb ▸ ho)
    h.entries column' head' hl ha
  refine hread.bind (fun v _ => readsFrom_entriesAfter column lead head v.1 v.2) ?_
  intro v v' hv _ halike'
  have := ((Head.leads_value ho).trans (Opening.leads_read hv)).length_le
  exact h.entriesAfter column head hl halike'.1 halike'.2
termination_by 2 * p.rest.length + 1

theorem Likeness.entriesAfter (h : Likeness limit R G) (column : Nat) (head : Head)
    {lead lead' : Text} (hl : G lead lead') {value value' : Tree} (hv : value.Alike G value')
    {p p' : Place} (hp : R p p') :
    InStep limit R Prod.snd (fun v v' => Node.AlikeAll G v.1 v'.1 ∧ R v.2 v'.2)
      (YamlIndent.entriesAfter column lead head value p)
      (YamlIndent.entriesAfter column lead' head value' p') := by
  have hentry := Head.alike_entry h.nil hl hv head
  refine (h.sibling head column hp).bind (fun next hs => ?_) fun next next' hs _ halike => ?_
  · match next with
    | none => exact .ok (.refl p)
    | some (lead', head', q) =>
      exact (readsFrom_entries column lead' head' q).bind fun _ _ => .ok (.refl _)
  · cases halike with
    | none => exact .ok ⟨.singleton hentry, hp⟩
    | some head' hl' ha =>
      have := (Place.sibling_some hs).2
      refine (h.entries column head' hl' ha).bind (fun v _ => .ok (.refl v.2)) ?_
      intro v v' _ _ hvs
      exact .ok ⟨.cons hentry hvs.1, hvs.2⟩
termination_by 2 * p.rest.length

end

/-! ### Reading documents in step -/

namespace Likeness

variable (h : Likeness limit R G)

include h

theorem documentBlock (hp : R p p') :
    InStep limit R Prod.snd (fun v v' => Node.AlikeAll G v.1 v'.1 ∧ R v.2 v'.2)
      (YamlIndent.documentBlock p) (YamlIndent.documentBlock p') := by
  by_cases hlim : p.gap.2.rest.length < limit
  · exact .beyond ((readsFrom_documentBlock p).beyond hlim)
  · rw [Nat.not_lt] at hlim
    have hgap := h.gap hp hlim
    unfold YamlIndent.documentBlock
    dsimp only
    rw [← h.atEnd_eq hgap hlim, ← h.atDocumentMark_eq hgap]
    split
    · exact .ok ⟨.nil, hp⟩
    · refine (h.opening (h.lead hp hlim) hgap).bind (fun o _ => ?_) fun o o' _ _ ho => ?_
      · exact o.readsFrom_read.bind fun _ _ => .ok (.refl _)
      · refine (ho.read h.nil fun _ hl ha => h.entries _ _ hl ha).bind
          (fun v _ => .ok (.refl v.2)) ?_
        intro v v' _ _ hv
        exact .ok ⟨.singleton hv.1, hv.2⟩

theorem documentEnd (hp : R p p') :
    InStep limit R Prod.snd (fun v v' => Node.Alike G v.1 v'.1 ∧ R v.2 v'.2)
      (YamlIndent.documentEnd p) (YamlIndent.documentEnd p') := by
  by_cases hlim : p.gap.2.rest.length < limit
  · exact .beyond ((readsFrom_documentEnd p).beyond hlim)
  · rw [Nat.not_lt] at hlim
    have hgap := h.gap hp hlim
    have hlead := h.lead hp hlim
    obtain ⟨hmark, hafter⟩ := h.takeMark hgap Place.endMark rfl
    unfold YamlIndent.documentEnd
    dsimp only
    rw [← h.atEnd_eq hgap hlim, ← h.atMark_eq hgap Place.startMark rfl,
      ← h.atMark_eq hgap Place.endMark rfl]
    split
    · rw [hmark]
      exact .ok ⟨.node _ _ hlead .nil, hafter⟩
    · split
      · exact .ok ⟨.node _ _ hlead .nil, hgap⟩
      · exact .error rfl hgap

/-- Documents are read in step from where their gaps end. -/
theorem document (hl : G p.gap.1 p'.gap.1) (hg : R p.gap.2 p'.gap.2) :
    InStep limit R Prod.snd (fun v v' => Node.Alike G v.1 v'.1 ∧ R v.2 v'.2)
      (YamlIndent.document p) (YamlIndent.document p') := by
  obtain ⟨hmark, hcontent⟩ := h.takeMark hg Place.startMark rfl
  unfold YamlIndent.document
  dsimp only
  rw [← hmark]
  refine (h.documentBlock hcontent).bind (fun b _ => ?_) fun b b' _ _ hb => ?_
  · exact (readsFrom_documentEnd b.2).bind fun _ _ => .ok (.refl _)
  · refine (h.documentEnd hb.2).bind (fun v _ => .ok (.refl v.2)) ?_
    intro v v' _ _ hv
    exact .ok ⟨.node _ _ hl (hb.1.append (.singleton hv.1)), hv.2⟩

end Likeness

/-- The place that a whole source is read up to. -/
def sourceEnd (_ : α) : Place := ⟨[], []⟩

/-- What is read of documents behind a limit is read past it. -/
theorem beyond_documents (hp : p.gap.2.rest.length < limit) :
    Beyond limit sourceEnd (documents p) where
  ok _ := Nat.lt_of_le_of_lt (Nat.zero_le _) hp
  error he := Nat.lt_of_le_of_lt (behind_of_documents he).leads.length_le hp

/-- The documents of two sources are read in step from where the first gaps end. -/
theorem Likeness.documents (h : Likeness limit R G) {p p' : Place} (hl : G p.gap.1 p'.gap.1)
    (hg : R p.gap.2 p'.gap.2) :
    InStep limit R sourceEnd (Node.AlikeAll G) (YamlIndent.documents p)
      (YamlIndent.documents p') := by
  have hbeyond (v : Tree × Place) (hlim : v.2.gap.2.rest.length < limit) :
      Beyond limit sourceEnd
        (if v.2.atEnd then .ok [v.1] else (YamlIndent.documents v.2).map (v.1 :: ·)) := by
    split
    · exact ⟨fun _ => Nat.lt_of_le_of_lt (Nat.zero_le _) hlim, fun he => by cases he⟩
    · exact (beyond_documents hlim).map fun _ => rfl
  rw [documents_eq, documents_eq]
  refine (h.document hl hg).bind_of_beyond (fun v _ => hbeyond v) fun v v' hd _ hv => ?_
  by_cases hlim : v.2.gap.2.rest.length < limit
  · exact .beyond (hbeyond v hlim)
  · rw [Nat.not_lt] at hlim
    rw [← h.atEnd_eq hv.2 (Nat.le_trans hlim v.2.reaches_gap.leads.length_le)]
    split
    · exact .ok (.singleton hv.1)
    · rename_i hend
      have := document_length_lt hd (eq_false_of_ne_true hend)
      have hnext := h.documents (h.lead hv.2 hlim) (h.gap hv.2 hlim)
      exact hnext.map (fun _ => rfl) fun _ _ hs => .cons hv.1 hs
termination_by p.rest.length

/-- Two sources are read in step from where their first gaps end. -/
theorem Likeness.parse (h : Likeness limit R G) {s s' : Text}
    (hl : G (Place.start s).gap.1 (Place.start s').gap.1)
    (hg : R (Place.start s).gap.2 (Place.start s').gap.2) :
    InStep limit R sourceEnd (Node.Alike G) (YamlIndent.parse s) (YamlIndent.parse s') :=
  (h.documents hl hg).map (fun _ => rfl) fun _ _ hds => .node .stream [] h.nil hds

end YamlIndent
