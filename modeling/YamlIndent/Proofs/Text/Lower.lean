import YamlIndent.Text.Lower

/-!
# Lower case is settled

What is in lower case stays as it is: no letter that is the lower case of another has a lower case
of its own. The runs of the table show it, each next to the runs that its lower case could be in.

## Main definitions

* `CaseRun.holds`: a code point is one of the letters of a run.
* `IsLow`: a character that lower case leaves.

## Main results

* `isLow_lowerChar`: the lower case of a letter is low.
* `lower_lower`: a text in lower case is its own lower case.
-/

namespace YamlIndent

/-! ### Runs of letters -/

namespace CaseRun

/-- The letter of a code point belongs to a run. -/
def holds (r : CaseRun) (n : Nat) : Bool :=
  r.first ≤ n && n ≤ r.last && (n - r.first) % r.step == 0

/-- The code points of the letters of a run. -/
def letters (r : CaseRun) : List Nat :=
  (List.range ((r.last - r.first) / r.step + 1)).map fun i => r.first + i * r.step

/-- The code point of the lower case of a letter of a run. -/
def below (r : CaseRun) (n : Nat) : Nat :=
  (n + r.shift).toNat

/-- The lower case of a run lies to one side of another run. -/
def apart (r s : CaseRun) : Bool :=
  Nat.blt (r.below r.last) s.first || Nat.blt s.last (r.below r.first)

/-- No letter of a run has its lower case in another run. -/
def settledIn (r s : CaseRun) : Bool :=
  r.apart s || r.letters.all fun n => !s.holds (r.below n)

/-- The lower case of the letters of a run are characters, and none is the capital I with a dot. -/
def lowers (r : CaseRun) : Bool :=
  r.letters.all fun n => decide (r.below n).isValidChar && r.below n != 'İ'.toNat

variable {r s : CaseRun} {n : Nat}

theorem mem_letters (h : r.holds n) : n ∈ r.letters := by
  simp only [holds, Bool.and_eq_true, decide_eq_true_eq, beq_iff_eq] at h
  obtain ⟨⟨hfirst, hlast⟩, hstep⟩ := h
  refine List.mem_map.2 ⟨(n - r.first) / r.step, ?_, ?_⟩
  · rw [List.mem_range]
    exact Nat.lt_succ_of_le (Nat.div_le_div_right (by omega))
  · rw [Nat.div_mul_cancel (Nat.dvd_of_mod_eq_zero hstep)]
    omega

theorem holds_below_of_settledIn (hs : r.settledIn s) (h : r.holds n) :
    s.holds (r.below n) = false := by
  rw [settledIn, Bool.or_eq_true] at hs
  rcases hs with hs | hs
  · rw [Bool.eq_false_iff]
    intro hb
    simp only [apart, Bool.or_eq_true, Nat.blt_eq] at hs
    simp only [holds, Bool.and_eq_true, decide_eq_true_eq] at h hb
    obtain ⟨⟨hfirst, hlast⟩, -⟩ := h
    obtain ⟨⟨hfirst', hlast'⟩, -⟩ := hb
    rw [below] at hfirst' hlast' hs
    rw [below] at hs
    omega
  · simpa using List.all_eq_true.1 hs n (mem_letters h)

end CaseRun

/-- The lower case of no letter of the table is a letter of the table. -/
theorem caseRuns_settled : caseRuns.all fun r => caseRuns.all r.settledIn := by
  decide +kernel

theorem caseRuns_lowers : caseRuns.all CaseRun.lowers := by
  decide +kernel

/-! ### Characters -/

/-- A character that lower case leaves, wherever it stands. -/
structure IsLow (c : Char) : Prop where
  lowerChar_eq : lowerChar c = c
  ne_sigma : c ≠ 'Σ'
  ne_dotted : c ≠ 'İ'

variable {c : Char} {t : Text}

/-- The lower case of a letter is looked up in the run that holds it. -/
theorem lowerChar_eq (c : Char) : lowerChar c =
    (caseRuns.find? (·.holds c.toNat)).elim c fun r => Char.ofNat (r.below c.toNat) := by
  rw [lowerChar]
  split <;> rename_i hfound
  all_goals
    have hheld : caseRuns.find? (·.holds c.toNat) = _ := hfound
    rw [hheld]
    rfl

theorem lowerChar_of_not_holds (h : ∀ r ∈ caseRuns, r.holds c.toNat = false) :
    lowerChar c = c := by
  have hnone : caseRuns.find? (·.holds c.toNat) = none :=
    List.find?_eq_none.2 fun r hr => by simp [h r hr]
  rw [lowerChar_eq, hnone]
  rfl

/-- A letter has its lower case by a run that holds it, or has none. -/
theorem lowerChar_cases (c : Char) :
    (∃ r ∈ caseRuns, r.holds c.toNat ∧ lowerChar c = Char.ofNat (r.below c.toNat)) ∨
      ∀ r ∈ caseRuns, r.holds c.toNat = false := by
  cases h : caseRuns.find? (·.holds c.toNat) with
  | none => exact .inr fun r hr => by simpa using List.find?_eq_none.1 h r hr
  | some r =>
    refine .inl ⟨r, List.mem_of_find?_eq_some h, by simpa using List.find?_some h, ?_⟩
    rw [lowerChar_eq, h]
    rfl

theorem isLow_of_not_holds (h : ∀ r ∈ caseRuns, r.holds c.toNat = false) (hc : c ≠ 'İ') :
    IsLow c where
  lowerChar_eq := lowerChar_of_not_holds h
  ne_sigma := by
    rintro rfl
    have hs : caseRuns.any (·.holds 'Σ'.toNat) := by decide +kernel
    obtain ⟨r, hr, hholds⟩ := List.any_eq_true.1 hs
    rw [h r hr] at hholds
    cases hholds
  ne_dotted := hc

/-- The lower case of a letter by itself is low. -/
theorem isLow_lowerChar (hc : c ≠ 'İ') : IsLow (lowerChar c) := by
  rcases lowerChar_cases c with ⟨r, hr, hholds, he⟩ | h
  · have hlowers := List.all_eq_true.1 (List.all_eq_true.1 caseRuns_lowers r hr) _
      (CaseRun.mem_letters hholds)
    rw [Bool.and_eq_true, decide_eq_true_eq, bne_iff_ne] at hlowers
    have hvalue : (lowerChar c).toNat = r.below c.toNat := by
      rw [he, Char.ofNat, dif_pos hlowers.1]
      rfl
    refine isLow_of_not_holds (fun s hs => ?_) fun hd => ?_
    · rw [hvalue]
      exact CaseRun.holds_below_of_settledIn
        (List.all_eq_true.1 (List.all_eq_true.1 caseRuns_settled r hr) s hs) hholds
    · rw [hd] at hvalue
      exact hlowers.2 hvalue.symm
  · rw [lowerChar_of_not_holds h]
    exact isLow_of_not_holds h hc

/-! ### Texts -/

theorem lowerAfter_of_forall_isLow (before : Text) (h : ∀ c ∈ t, IsLow c) :
    lowerAfter before t = t := by
  induction t generalizing before with
  | nil => rfl
  | cons c t ih =>
    obtain ⟨hc, ht⟩ := List.forall_mem_cons.1 h
    rw [lowerAfter, beq_false_of_ne hc.ne_sigma, beq_false_of_ne hc.ne_dotted, hc.lowerChar_eq,
      ih _ ht]
    rfl

/-- The two small sigmas and the two parts of a small i with a dot are low. -/
theorem isLow_of_mem {d : Char} (hd : d ∈ ['ς', 'σ', 'i', '\u0307']) : IsLow d := by
  have hnone : ['ς', 'σ', 'i', '\u0307'].all fun d =>
      caseRuns.all fun r => !r.holds d.toNat := by decide +kernel
  refine isLow_of_not_holds (fun r hr => ?_) ?_
  · simpa using List.all_eq_true.1 (List.all_eq_true.1 hnone d hd) r hr
  · rintro rfl
    exact absurd hd (by decide)

theorem isLow_of_mem_lowerAfter (before : Text) {d : Char} (h : d ∈ lowerAfter before t) :
    IsLow d := by
  induction t generalizing before with
  | nil => exact absurd h List.not_mem_nil
  | cons c t ih =>
    rw [lowerAfter, List.mem_append] at h
    rcases h with h | h
    · split at h
      · rw [List.mem_singleton] at h
        refine isLow_of_mem ?_
        split at h <;> simp [h]
      · split at h
        · exact isLow_of_mem (List.mem_cons_of_mem _ (List.mem_cons_of_mem _ h))
        · rename_i hd
          rw [List.mem_singleton] at h
          rw [h]
          exact isLow_lowerChar (by simpa using hd)
    · exact ih _ h

/-- A text in lower case is its own lower case. -/
theorem lower_lower (t : Text) : lower (lower t) = lower t :=
  lowerAfter_of_forall_isLow [] fun _ h => isLow_of_mem_lowerAfter [] h

end YamlIndent
