import YamlIndent.Proofs.Offsets.Scanner

/-!
# Tokens by offsets

The ends of quoted scalars, keys and scalars, found by offsets. The scanners go on from character to
character to the end of the line; an escape takes two at a time, and a quoted scalar in a flow
collection as many as it has. What is left of the line decides what they find, as it does for the
reader of places, and so every character that is looked up is there.

## Main definitions

* `ByOffset.quotedEnd`, `ByOffset.keyEnd`, `ByOffset.scalarEnd`: the offset behind a quoted scalar,
  that of the colon behind a key, and that behind a scalar.

## Main results

* `ByOffset.keyEnd_append`: the colon of a key is found where the key is split off.
* `ByOffset.scalarEnd_append`: a scalar ends where it does at its place, or has the fault it has
  there.
-/

namespace YamlIndent

namespace ByOffset

/-! ### Quotes -/

/-- The end of a quoted scalar that is open at an offset, if it is closed in front of `stop`. -/
def quotedEndFrom (s : Text) (quote : Char) (stop i : Nat) : Except Failure (Option Nat) :=
  if i < stop then do
    let c ← charAt s i
    if quote == '\'' && c == '\'' then
      if i + 1 < stop then do
        let d ← charAt s (i + 1)
        if d == '\'' then quotedEndFrom s quote stop (i + 2) else return some (i + 1)
      else return some (i + 1)
    else if quote == '"' && c == '\\' then quotedEndFrom s quote stop (i + 2)
    else if quote == '"' && c == '"' then return some (i + 1)
    else quotedEndFrom s quote stop (i + 1)
  else return none
termination_by stop - i

/-- The end of the quoted scalar at an offset, if it is closed in front of `stop`. -/
def quotedEnd (s : Text) (i stop : Nat) : Except Failure (Option Nat) := do
  let quote ← charAt s i
  quotedEndFrom s quote stop (i + 1)

theorem firstLine_nil : firstLine [] = [] := rfl

theorem firstLine_cons_of_not_isBreak {c : Char} (h : isBreak c = false) (t : Text) :
    firstLine (c :: t) = c :: firstLine t := by
  rw [firstLine_cons, h, if_neg Bool.false_ne_true]

theorem charAt_append_succ (a : Text) (b c : Char) (t : Text) :
    charAt (a ++ b :: c :: t) (a.length + 1) = .ok c := by
  simp [charAt]

/-- A quoted scalar is not closed in front of the end of its line. -/
theorem quotedEndFrom_of_startsLine (quote : Char) (a : Text) {t : Text} (h : startsLine t) :
    quotedEndFrom (a ++ t) quote (a ++ firstLine t).length a.length = .ok none := by
  rw [quotedEndFrom, firstLine_of_startsLine h, List.append_nil, if_neg (Nat.lt_irrefl _)]
  rfl

theorem quotedEndFrom_single (a t : Text) :
    quotedEndFrom (a ++ t) '\'' (a ++ firstLine t).length a.length =
      .ok ((splitSingleQuoted t).map fun split => (a ++ split.1).length) := by
  fun_induction splitSingleQuoted t generalizing a with
  | case1 => exact quotedEndFrom_of_startsLine _ a rfl
  | case2 cs ih =>
    have h := ih (a ++ ['\'', '\''])
    rw [quotedEndFrom, firstLine_cons_of_not_isBreak rfl, firstLine_cons_of_not_isBreak rfl,
      if_pos (lt_length_append_cons _ _ _), charAt_append, ok_bind, charAt_append_succ, ok_bind]
    simpa [Function.comp_def] using h
  | case3 cs h =>
    rw [quotedEndFrom, firstLine_cons_of_not_isBreak rfl, if_pos (lt_length_append_cons _ _ _),
      charAt_append, ok_bind]
    cases cs with
    | nil => simp [firstLine_nil, pure, Except.pure]
    | cons d cs =>
      have hd : d ≠ '\'' := by
        rintro rfl
        exact h cs rfl
      rw [charAt_append_succ, ok_bind]
      simp [hd, pure, Except.pure]
  | case4 c cs h1 h2 hb => exact quotedEndFrom_of_startsLine _ a hb
  | case5 c cs h1 h2 hb ih =>
    have h := ih (a ++ [c])
    have hc : c ≠ '\'' := h2
    rw [quotedEndFrom, firstLine_cons_of_not_isBreak (eq_false_of_ne_true hb),
      if_pos (lt_length_append_cons _ _ _), charAt_append, ok_bind]
    simpa [hc, Function.comp_def] using h

theorem quotedEndFrom_double (a t : Text) :
    quotedEndFrom (a ++ t) '"' (a ++ firstLine t).length a.length =
      .ok ((splitDoubleQuoted t).map fun split => (a ++ split.1).length) := by
  fun_induction splitDoubleQuoted t generalizing a with
  | case1 => exact quotedEndFrom_of_startsLine _ a rfl
  | case2 =>
    rw [quotedEndFrom, firstLine_cons_of_not_isBreak rfl, if_pos (lt_length_append_cons _ _ _),
      charAt_append, ok_bind]
    rw [quotedEndFrom]
    simp [firstLine_nil, pure, Except.pure]
  | case3 c cs h =>
    rw [quotedEndFrom, firstLine_cons_of_not_isBreak rfl, if_pos (lt_length_append_cons _ _ _),
      charAt_append, ok_bind]
    rw [quotedEndFrom]
    have hc : startsLine (c :: cs) = true := h
    simp [firstLine_of_startsLine hc, pure, Except.pure]
  | case4 c cs h ih =>
    have h' := ih (a ++ ['\\', c])
    rw [quotedEndFrom, firstLine_cons_of_not_isBreak rfl,
      firstLine_cons_of_not_isBreak (eq_false_of_ne_true h), if_pos (lt_length_append_cons _ _ _),
      charAt_append, ok_bind]
    simpa [Function.comp_def] using h'
  | case5 cs =>
    rw [quotedEndFrom, firstLine_cons_of_not_isBreak rfl, if_pos (lt_length_append_cons _ _ _),
      charAt_append, ok_bind]
    simp [pure, Except.pure]
  | case6 => exact quotedEndFrom_of_startsLine _ a ‹_›
  | case7 c cs h1 h2 h3 hb ih =>
    have h := ih (a ++ [c])
    have hslash : c ≠ '\\' := by
      rintro rfl
      cases cs with
      | nil => exact h1 rfl rfl
      | cons d cs => exact h2 d cs rfl rfl
    have hquote : c ≠ '"' := h3
    rw [quotedEndFrom, firstLine_cons_of_not_isBreak (eq_false_of_ne_true hb),
      if_pos (lt_length_append_cons _ _ _), charAt_append, ok_bind]
    simpa [hslash, hquote, Function.comp_def] using h

theorem quotedEnd_append {c : Char} (hq : isQuote c) (a t : Text) :
    quotedEnd (a ++ c :: t) a.length (a ++ firstLine (c :: t)).length =
      .ok ((splitQuoted c t).map fun split => (a ++ c :: split.1).length) := by
  rw [quotedEnd, charAt_append, ok_bind,
    firstLine_cons_of_not_isBreak (isBreak_eq_false_of_isQuote hq), splitQuoted]
  simp only [isQuote, Bool.or_eq_true, beq_iff_eq] at hq
  rcases hq with rfl | rfl
  · have h := quotedEndFrom_double (a ++ ['"']) t
    simpa using h
  · have h := quotedEndFrom_single (a ++ ['\'']) t
    simpa using h

/-! ### Blanks in front of an offset -/

/-- A blank stands in front of an offset, and not in front of `start`. -/
def followsBlank (s : Text) (start i : Nat) : Except Failure Bool :=
  if start < i then do
    let c ← charAt s (i - 1)
    return isBlank c
  else return false

/-- A text ends in a blank. -/
def endsBlank (b : Text) : Bool :=
  b.getLast?.any isBlank

theorem endsBlank_nil : endsBlank [] = false := rfl

theorem endsBlank_concat (b : Text) (c : Char) : endsBlank (b ++ [c]) = isBlank c := by
  simp [endsBlank]

theorem exists_of_splitSingleQuoted {t q r : Text} (h : splitSingleQuoted t = some (q, r)) :
    ∃ front, q = front ++ ['\''] := by
  fun_induction splitSingleQuoted t generalizing q with
  | case1 => cases h
  | case2 cs ih =>
    obtain ⟨⟨q', r'⟩, hs, he⟩ := Option.map_eq_some_iff.1 h
    cases he
    obtain ⟨front, rfl⟩ := ih hs
    exact ⟨'\'' :: '\'' :: front, rfl⟩
  | case3 =>
    cases h
    exact ⟨[], rfl⟩
  | case4 => cases h
  | case5 c cs _ _ _ ih =>
    obtain ⟨⟨q', r'⟩, hs, he⟩ := Option.map_eq_some_iff.1 h
    cases he
    obtain ⟨front, rfl⟩ := ih hs
    exact ⟨c :: front, rfl⟩

theorem exists_of_splitDoubleQuoted {t q r : Text} (h : splitDoubleQuoted t = some (q, r)) :
    ∃ front, q = front ++ ['"'] := by
  fun_induction splitDoubleQuoted t generalizing q with
  | case1 | case2 | case3 => cases h
  | case4 c cs _ ih =>
    obtain ⟨⟨q', r'⟩, hs, he⟩ := Option.map_eq_some_iff.1 h
    cases he
    obtain ⟨front, rfl⟩ := ih hs
    exact ⟨'\\' :: c :: front, rfl⟩
  | case5 =>
    cases h
    exact ⟨[], rfl⟩
  | case6 => cases h
  | case7 c cs _ _ _ _ ih =>
    obtain ⟨⟨q', r'⟩, hs, he⟩ := Option.map_eq_some_iff.1 h
    cases he
    obtain ⟨front, rfl⟩ := ih hs
    exact ⟨c :: front, rfl⟩

/-- A quoted scalar ends in its quote, and so in no blank. -/
theorem endsBlank_of_splitQuoted {quote : Char} {t q r : Text}
    (h : splitQuoted quote t = some (q, r)) (b : Text) : endsBlank (b ++ q) = false := by
  rw [splitQuoted] at h
  split at h
  · obtain ⟨front, rfl⟩ := exists_of_splitSingleQuoted h
    rw [← List.append_assoc, endsBlank_concat]
    rfl
  · obtain ⟨front, rfl⟩ := exists_of_splitDoubleQuoted h
    rw [← List.append_assoc, endsBlank_concat]
    rfl

/-- A quoted scalar is closed on the line of its quote. -/
theorem firstLine_of_splitQuoted {c : Char} {t q r : Text} (hq : isQuote c)
    (h : splitQuoted c t = some (q, r)) : firstLine (c :: t) = c :: q ++ firstLine r := by
  rw [← splitQuoted_append h, firstLine_cons_of_not_isBreak (isBreak_eq_false_of_isQuote hq),
    firstLine_append_of_not_hasBreak (hasBreak_of_splitQuoted h), List.cons_append]

theorem followsBlank_append (a b t : Text) :
    followsBlank (a ++ (b ++ t)) a.length (a ++ b).length = .ok (endsBlank b) := by
  rw [followsBlank]
  cases b using List.reverseRecOn with
  | nil =>
    rw [List.append_nil, if_neg (Nat.lt_irrefl _)]
    rfl
  | append_singleton b c _ =>
    have h : charAt (a ++ (b ++ [c] ++ t)) ((a ++ (b ++ [c])).length - 1) = .ok c := by
      simpa using charAt_append (a ++ b) c t
    rw [endsBlank_concat, if_pos (by simp), h]
    rfl

/-- The offset behind a text from `start`, without the blanks at its end. -/
def trimEnd (s : Text) (start : Nat) : Nat → Except Failure Nat
  | 0 => return 0
  | i + 1 =>
    if start < i + 1 then do
      let c ← charAt s i
      if isBlank c then trimEnd s start i else return i + 1
    else return i + 1

theorem splitTrailing_concat (b : Text) (c : Char) :
    (splitTrailing (b ++ [c])).1 = if isBlank c then (splitTrailing b).1 else b ++ [c] := by
  by_cases hc : isBlank c <;> simp [splitTrailing, hc]

theorem trimEnd_append (a b t : Text) :
    trimEnd (a ++ (b ++ t)) a.length (a ++ b).length = .ok (a ++ (splitTrailing b).1).length := by
  induction b using List.reverseRecOn generalizing t with
  | nil =>
    have hstop (s : Text) (n : Nat) : trimEnd s n n = .ok n := by
      cases n with
      | zero => rfl
      | succ n =>
        rw [trimEnd, if_neg (Nat.lt_irrefl _)]
        rfl
    rw [List.append_nil, hstop]
    exact congrArg _ (congrArg _ (List.append_nil a).symm)
  | append_singleton b c ih =>
    have hlen : (a ++ (b ++ [c])).length = (a ++ b).length + 1 := by simp [Nat.add_assoc]
    have hc : charAt (a ++ (b ++ [c] ++ t)) (a ++ b).length = .ok c := by
      rw [List.append_assoc]
      exact charAt_append_append a b c t
    have h := ih (c :: t)
    have hlt : a.length < (a ++ b).length + 1 := by
      rw [List.length_append]
      omega
    rw [hlen, trimEnd, if_pos hlt, hc, ok_bind, splitTrailing_concat]
    by_cases hb : isBlank c
    · rw [if_pos hb, if_pos hb]
      simpa using h
    · rw [if_neg hb, if_neg hb, hlen]
      rfl

/-- The blanks at the end of what a scalar takes are given back. -/
theorem trimEnd_of_append_eq {a t taken rest : Text} (h : taken ++ rest = t) :
    trimEnd (a ++ t) a.length (a ++ taken).length = .ok (a ++ (splitTrailing taken).1).length := by
  rw [← h]
  exact trimEnd_append a taken rest

/-! ### Keys -/

/-- The offset of the colon of a key that begins at `start`, from an offset on. -/
def colonFrom (s : Text) (start stop i : Nat) : Except Failure (Option Nat) :=
  if i < stop then do
    let c ← charAt s i
    if c == ':' then
      if ← endsTokenAt s (i + 1) then return if start < i then some i else none
      else colonFrom s start stop (i + 1)
    else if c == '#' then
      if ← followsBlank s start i then return none else colonFrom s start stop (i + 1)
    else colonFrom s start stop (i + 1)
  else return none
termination_by stop - i

/-- The offset of the colon behind the key at an offset, if there is one. -/
def keyEnd (s : Text) (i : Nat) : Except Failure (Option Nat) := do
  let stop ← lineEnd s i
  let c ← charAt s i
  if barsKey c then return none
  else if ← isItemAt s i then return none
  else if ← isDocumentMarkAt s i then return none
  else if isQuote c then
    match ← quotedEnd s i stop with
    | none => return none
    | some j => colonFrom s i stop j
  else colonFrom s i stop i

theorem colonFrom_append (a b t : Text) :
    colonFrom (a ++ (b ++ t)) a.length (a ++ (b ++ firstLine t)).length (a ++ b).length =
      .ok ((splitAtColon (endsBlank b) t).bind fun split =>
        if b ++ split.1 = [] then none else some (a ++ (b ++ split.1)).length) := by
  induction t generalizing b with
  | nil =>
    rw [colonFrom, firstLine_nil, List.append_nil, if_neg (Nat.lt_irrefl _)]
    rfl
  | cons c t ih =>
    by_cases hb : isBreak c
    · rw [colonFrom, splitAtColon, firstLine_of_startsLine (t := c :: t) hb, List.append_nil,
        if_neg (Nat.lt_irrefl _), if_pos hb]
      rfl
    · have hnext : colonFrom (a ++ (b ++ c :: t)) a.length (a ++ (b ++ c :: firstLine t)).length
          ((a ++ b).length + 1) = .ok ((splitAtColon (isBlank c) t).bind fun split =>
            some (a ++ (b ++ c :: split.1)).length) := by
        have h := ih (b ++ [c])
        rw [endsBlank_concat] at h
        simpa [Nat.add_assoc] using h
      have hends : endsTokenAt (a ++ (b ++ c :: t)) ((a ++ b).length + 1) = .ok (endsToken t) := by
        simpa [Nat.add_assoc] using endsTokenAt_append (a ++ (b ++ [c])) t
      rw [colonFrom, firstLine_cons_of_not_isBreak (eq_false_of_ne_true hb),
        if_pos (lt_length_append_append_cons a b c _), charAt_append_append, ok_bind, hends,
        ok_bind, followsBlank_append, ok_bind, hnext, splitAtColon, if_neg hb]
      by_cases hc : c = ':'
      · cases hend : endsToken t with
        | true =>
          by_cases hn : b = []
          · simp [hc, hn, pure, Except.pure]
          · have := List.length_pos_iff.2 hn
            simp [hc, hn, this, pure, Except.pure]
        | false => cases splitAtColon (isBlank c) t <;> simp [hc]
      · by_cases hh : c = '#'
        · cases endsBlank b <;> cases splitAtColon (isBlank c) t <;> simp [hh, pure, Except.pure]
        · cases splitAtColon (isBlank c) t <;> simp [hc, hh]

/-- The colon of a quoted key is the first behind its quotes. -/
theorem colonFrom_of_splitQuoted {c : Char} {t q r : Text} (hq : isQuote c)
    (hs : splitQuoted c t = some (q, r)) (a : Text) :
    colonFrom (a ++ c :: t) a.length (a ++ firstLine (c :: t)).length (a ++ c :: q).length =
      .ok ((splitAtColon false r).map fun split => (a ++ (c :: q ++ split.1)).length) := by
  have hend : endsBlank (c :: q) = false := endsBlank_of_splitQuoted hs [c]
  have h := colonFrom_append a (c :: q) r
  rw [hend, List.cons_append, splitQuoted_append hs, ← firstLine_of_splitQuoted hq hs] at h
  rw [h]
  cases splitAtColon false r <;> rfl

/-- No colon is that of a key if nothing stands in front of it. -/
theorem colonFrom_start (a t : Text) :
    colonFrom (a ++ t) a.length (a ++ firstLine t).length a.length =
      .ok ((splitAtColon false t).bind fun split =>
        if split.1 = [] then none else some (a ++ split.1).length) := by
  simpa [endsBlank_nil] using colonFrom_append a [] t

/-- The colon of a key is found where the key is split off. -/
theorem keyEnd_append (a : Text) (c : Char) (t : Text) :
    keyEnd (a ++ c :: t) a.length = .ok
      (if (between a (c :: t)).atItem || (between a (c :: t)).atDocumentMark then none
        else (splitKey (c :: t)).map fun split => (a ++ split.1).length) := by
  rw [keyEnd, lineEnd_append, ok_bind, charAt_append, ok_bind, isItemAt_append, ok_bind,
    isDocumentMarkAt_append, ok_bind]
  cases hbars : barsKey c with
  | true => simp [splitKey, hbars, pure, Except.pure]
  | false =>
    cases (between a (c :: t)).atItem with
    | true => rfl
    | false =>
      cases (between a (c :: t)).atDocumentMark with
      | true => rfl
      | false =>
        rw [splitKey, hbars]
        cases hq : isQuote c with
        | true =>
          rw [quotedEnd_append hq]
          cases hs : splitQuoted c t with
          | none => rfl
          | some split =>
            obtain ⟨q, r⟩ := split
            refine Eq.trans (colonFrom_of_splitQuoted hq hs a) ?_
            cases hk : splitAtColon false r <;> simp [hk]
        | false =>
          refine Eq.trans (colonFrom_start a (c :: t)) ?_
          rcases splitAtColon false (c :: t) with _ | ⟨_ | ⟨k, ks⟩, r⟩ <;> simp

/-! ### Scalars -/

/-- The end of what a scalar from `start` takes of its line, and how deep its brackets are open
there. -/
def takenFrom (s : Text) (start stop : Nat) (flow : Bool) (depth : Int) (i : Nat) :
    Except Failure (Nat × Int) :=
  if i < stop then do
    let c ← charAt s i
    if c == '#' then
      if ← followsBlank s start i then return (i, depth)
      else takenFrom s start stop flow depth (i + 1)
    else if flow && isQuote c then
      match ← quotedEnd s i stop with
      | none => throw (.rejected .openQuote i)
      | some j => if i < j then takenFrom s start stop flow depth j else throw (.stuck i)
    else takenFrom s start stop flow (if flow then depth + bracketDepth c else depth) (i + 1)
  else return (i, depth)
termination_by stop - i

/-- The offset from which the end of a scalar is looked for: behind its quotes, if it begins with
one. -/
def behindQuotes (s : Text) (stop : Nat) (c : Char) (i : Nat) : Except Failure Nat :=
  if isQuote c then do
    match ← quotedEnd s i stop with
    | none => throw (.rejected .openQuote i)
    | some j => return j
  else return i

/-- The end of the scalar at an offset. -/
def scalarEnd (s : Text) (i : Nat) : Except Failure Nat := do
  let stop ← lineEnd s i
  let c ← charAt s i
  if c == '|' || c == '>' then throw (.rejected .blockScalar i)
  else
    let first ← behindQuotes s stop c i
    let flow := c == '[' || c == '\x7b'
    let (taken, depth) ← takenFrom s i stop flow 0 first
    if flow && 0 < depth then throw (.rejected .openFlow i)
    else trimEnd s i taken

theorem takenFrom_of_startsLine (flow : Bool) (depth : Int) (a b : Text) {t : Text}
    (h : startsLine t) : takenFrom (a ++ (b ++ t)) a.length (a ++ (b ++ firstLine t)).length flow
      depth (a ++ b).length = .ok ((a ++ b).length, depth) := by
  rw [takenFrom, firstLine_of_startsLine h, List.append_nil, if_neg (Nat.lt_irrefl _)]
  rfl

/-- A scalar takes nothing from the end of its line or from a comment on. -/
theorem takenFrom_of_stops (flow : Bool) (depth : Int) (a b : Text) {c : Char} {t : Text}
    (h : (isBreak c || (c == '#' && endsBlank b)) = true) :
    takenFrom (a ++ (b ++ c :: t)) a.length (a ++ (b ++ firstLine (c :: t))).length flow depth
      (a ++ b).length = .ok ((a ++ b).length, depth) := by
  cases hb : isBreak c with
  | true => exact takenFrom_of_startsLine (t := c :: t) flow depth a b hb
  | false =>
    rw [hb, Bool.false_or, Bool.and_eq_true] at h
    rw [takenFrom, firstLine_cons_of_not_isBreak hb,
      if_pos (lt_length_append_append_cons a b c _), charAt_append_append, ok_bind,
      followsBlank_append, ok_bind, if_pos h.1, if_pos h.2]
    rfl

/-- A scalar without brackets takes its line up to the comment. -/
theorem takenFrom_plain (a b t : Text) :
    takenFrom (a ++ (b ++ t)) a.length (a ++ (b ++ firstLine t)).length false 0 (a ++ b).length =
      .ok ((a ++ (b ++ (splitPlain (endsBlank b) t).1)).length, 0) := by
  induction t generalizing b with
  | nil =>
    rw [takenFrom_of_startsLine _ _ _ _ rfl, splitPlain, List.append_nil]
  | cons c t ih =>
    rw [splitPlain]
    by_cases h : (isBreak c || (c == '#' && endsBlank b)) = true
    · rw [takenFrom_of_stops _ _ _ _ h, if_pos h, List.append_nil]
    · rw [if_neg h]
      rw [Bool.not_eq_true, Bool.or_eq_false_iff] at h
      have hnext : takenFrom (a ++ (b ++ c :: t)) a.length (a ++ (b ++ c :: firstLine t)).length
          false 0 ((a ++ b).length + 1) =
          .ok ((a ++ (b ++ c :: (splitPlain (isBlank c) t).1)).length, 0) := by
        have h := ih (b ++ [c])
        rw [endsBlank_concat] at h
        simpa [Nat.add_assoc] using h
      rw [takenFrom, firstLine_cons_of_not_isBreak h.1,
        if_pos (lt_length_append_append_cons a b c _), charAt_append_append, ok_bind,
        followsBlank_append, ok_bind]
      cases hc : c == '#' with
      | true =>
        rw [hc, Bool.true_and] at h
        rw [if_pos rfl, h.2]
        exact hnext
      | false => exact hnext

/-- A flow collection goes on behind a quoted scalar, or behind any other character of its line in
front of the comment. -/
theorem takenFrom_flow_cons (a b : Text) {c : Char} (t : Text) (depth : Int)
    (h : ¬(isBreak c || (c == '#' && endsBlank b)) = true) :
    takenFrom (a ++ (b ++ c :: t)) a.length (a ++ (b ++ firstLine (c :: t))).length true depth
      (a ++ b).length =
      if isQuote c then
        match (splitQuoted c t).map fun split => (a ++ (b ++ c :: split.1)).length with
        | none => .error (.rejected .openQuote (a ++ b).length)
        | some j => takenFrom (a ++ (b ++ c :: t)) a.length
            (a ++ (b ++ firstLine (c :: t))).length true depth j
      else takenFrom (a ++ (b ++ c :: t)) a.length (a ++ (b ++ firstLine (c :: t))).length true
        (depth + bracketDepth c) ((a ++ b).length + 1) := by
  rw [Bool.not_eq_true, Bool.or_eq_false_iff] at h
  obtain ⟨hb, hh⟩ := h
  have hlt : (a ++ b).length < (a ++ (b ++ firstLine (c :: t))).length := by
    rw [firstLine_cons_of_not_isBreak hb]
    exact lt_length_append_append_cons a b c _
  conv_lhs => rw [takenFrom]
  rw [if_pos hlt, charAt_append_append, ok_bind, followsBlank_append, ok_bind]
  cases hhash : c == '#' with
  | true =>
    obtain rfl : c = '#' := by simpa using hhash
    rw [hhash, Bool.true_and] at hh
    rw [hh]
    simp [isQuote, bracketDepth]
  | false =>
    cases hq : isQuote c with
    | false => rfl
    | true =>
      have hquoted := quotedEnd_append hq (a ++ b) t
      simp only [List.append_assoc] at hquoted
      simp only [hquoted, ok_bind, Bool.false_eq_true, if_false, Bool.and_self, if_true]
      cases splitQuoted c t with
      | none => rfl
      | some split =>
        rw [Option.map_some]
        dsimp only
        rw [if_pos]
        simp

/-- A flow collection takes what is split off its line, unless a quote is not closed there. -/
theorem takenFrom_flow (a b t : Text) (depth : Int) :
    takenFrom (a ++ (b ++ t)) a.length (a ++ (b ++ firstLine t)).length true depth (a ++ b).length =
      match splitFlow (endsBlank b) t with
      | .ok s => .ok ((a ++ (b ++ s.taken)).length, depth + s.depth)
      | .error left => .error (.rejected .openQuote ((a ++ (b ++ t)).length - left.length)) := by
  generalize hbl : endsBlank b = blank
  fun_induction splitFlow blank t generalizing b depth with
  | case1 =>
    rw [takenFrom_of_startsLine _ _ _ _ rfl]
    simp
  | case2 blank c cs h =>
    rw [takenFrom_of_stops _ _ _ _ (by rwa [hbl])]
    simp
  | case3 blank c cs h hq hs =>
    have hlen : (a ++ b).length = (a ++ (b ++ c :: cs)).length - (c :: cs).length := by
      simp only [List.length_append, List.length_cons]
      omega
    rw [takenFrom_flow_cons a b cs depth (by rwa [hbl]), if_pos hq, hs, hlen]
    rfl
  | case4 blank c cs h hq q r hs ih =>
    have hend : endsBlank (b ++ c :: q) = false := by
      rw [List.append_cons]
      exact endsBlank_of_splitQuoted hs (b ++ [c])
    have hq' := hasBreak_of_splitQuoted hs
    have h' := ih (b ++ c :: q) depth hend
    rw [takenFrom_flow_cons a b cs depth (by rwa [hbl]), if_pos hq, hs]
    rw [← splitQuoted_append hs]
    rw [firstLine_cons_of_not_isBreak (isBreak_eq_false_of_isQuote hq),
      firstLine_append_of_not_hasBreak hq']
    simp only [List.append_assoc, List.cons_append, Option.map_some] at h' ⊢
    rw [h']
    cases splitFlow false r with
    | error left => rfl
    | ok s => simp [Except.map, FlowSplit.after]
  | case5 blank c cs h hq ih =>
    have hb : isBreak c = false := by
      rw [Bool.not_eq_true, Bool.or_eq_false_iff] at h
      exact h.1
    have h' := ih (b ++ [c]) (depth + bracketDepth c) (endsBlank_concat b c)
    have hlen : (a ++ (b ++ [c])).length = (a ++ b).length + 1 := by simp [Nat.add_assoc]
    rw [hlen] at h'
    rw [takenFrom_flow_cons a b cs depth (by rwa [hbl]), if_neg hq,
      firstLine_cons_of_not_isBreak hb]
    simp only [List.append_assoc, List.singleton_append] at h'
    rw [h']
    cases splitFlow (isBlank c) cs with
    | error left => rfl
    | ok s => simp [Except.map, FlowSplit.after, Int.add_assoc]

/-- A scalar that begins with a quote takes what one without brackets does behind its quotes. -/
theorem takenFrom_of_splitQuoted {c : Char} {t q r : Text} (hq : isQuote c)
    (hs : splitQuoted c t = some (q, r)) (a : Text) :
    takenFrom (a ++ c :: t) a.length (a ++ firstLine (c :: t)).length false 0
      (a ++ c :: q).length = .ok ((a ++ (c :: q ++ (splitPlain false r).1)).length, 0) := by
  have hend : endsBlank (c :: q) = false := endsBlank_of_splitQuoted hs [c]
  have h := takenFrom_plain a (c :: q) r
  rwa [hend, List.cons_append, splitQuoted_append hs, ← firstLine_of_splitQuoted hq hs] at h

theorem takenFrom_plain_start (a t : Text) :
    takenFrom (a ++ t) a.length (a ++ firstLine t).length false 0 a.length =
      .ok ((a ++ (splitPlain false t).1).length, 0) := by
  simpa [endsBlank_nil] using takenFrom_plain a [] t

theorem takenFrom_flow_start (a t : Text) :
    takenFrom (a ++ t) a.length (a ++ firstLine t).length true 0 a.length =
      match splitFlow false t with
      | .ok s => .ok ((a ++ s.taken).length, s.depth)
      | .error left => .error (.rejected .openQuote ((a ++ t).length - left.length)) := by
  simpa [endsBlank_nil] using takenFrom_flow a [] t 0

/-- A fault at the place behind a text is one at the offset there. -/
theorem failure_between (fault : Fault) (a t : Text) :
    Rejection.failure (a ++ t) ⟨fault, between a t⟩ = .rejected fault a.length := by
  simp [Rejection.failure, between]

/-- A scalar ends where it does at its place, or has the fault it has there. -/
theorem scalarEnd_append (a : Text) (c : Char) (t : Text) :
    scalarEnd (a ++ c :: t) a.length =
      match (between a (c :: t)).scalar with
      | .ok (text, _) => .ok (a ++ text).length
      | .error r => .error (r.failure (a ++ c :: t)) := by
  have hfail (fault : Fault) := failure_between fault a (c :: t)
  rw [scalarEnd, lineEnd_append, ok_bind, charAt_append, ok_bind]
  simp only [between, Place.scalar] at hfail ⊢
  by_cases hblock : (c == '|' || c == '>') = true
  · rw [if_pos hblock, if_pos hblock]
    exact congrArg Except.error (hfail .blockScalar).symm
  rw [if_neg hblock, if_neg hblock, behindQuotes]
  by_cases hq : isQuote c = true
  · have hflow : (c == '[' || c == '\x7b') = false := by
      simp only [isQuote, Bool.or_eq_true, beq_iff_eq] at hq
      rcases hq with rfl | rfl <;> rfl
    rw [if_pos hq, if_pos hq, quotedEnd_append hq]
    cases hs : splitQuoted c t with
    | none => exact congrArg Except.error (hfail .openQuote).symm
    | some split =>
      obtain ⟨q, r⟩ := split
      have htail : c :: q ++ (splitPlain false r).1 ++ (splitPlain false r).2 = c :: t := by
        rw [List.append_assoc, splitPlain_append, List.cons_append, splitQuoted_append hs]
      simp only [Option.map_some, ok_bind, pure_bind, hflow, takenFrom_of_splitQuoted hq hs,
        Bool.false_and, Bool.false_eq_true, if_false, trimEnd_of_append_eq htail]
      rfl
  · rw [if_neg hq, if_neg hq, pure_bind]
    by_cases hflow : (c == '[' || c == '\x7b') = true
    · rw [if_pos hflow, hflow, takenFrom_flow_start]
      cases hs : splitFlow false (c :: t) with
      | error left => rfl
      | ok s =>
        obtain ⟨taken, rest, depth⟩ := s
        simp only [ok_bind, Bool.true_and, decide_eq_true_eq]
        by_cases hd : 0 < depth
        · rw [if_pos hd, if_pos hd]
          exact congrArg Except.error (hfail .openFlow).symm
        · rw [if_neg hd, if_neg hd]
          exact trimEnd_of_append_eq (splitFlow_append hs)
    · rw [if_neg hflow, eq_false_of_ne_true hflow, takenFrom_plain_start]
      exact trimEnd_of_append_eq (splitPlain_append false (c :: t))

end ByOffset

end YamlIndent
