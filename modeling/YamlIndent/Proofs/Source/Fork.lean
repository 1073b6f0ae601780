import YamlIndent.Proofs.Source.Likeness

/-!
# Sources that part at the end of a line

Two sources with one beginning, that part where a line ends, have the same tokens up to there. So
they are read in step as long as there is a token in front of the end of that line.

## Main definitions

* `Fork`: places in front of one text, behind which two sources part.

## Main results

* `Fork.gap_cases`: the gap ends in front of where the sources part, or goes on to there.
* `likeness_fork`: in front of where they part, the sources are alike.
-/

namespace YamlIndent

/-- Places of two sources in front of one text, behind which the first source goes on with `rest`
and the second with `rest'`. -/
structure Fork (rest rest' : Text) (p p' : Place) : Prop where
  line_eq : p.line = p'.line
  ahead : ∃ t, p.rest = t ++ rest ∧ p'.rest = t ++ rest'

namespace Fork

variable {rest rest' : Text} {p p' : Place}

theorem sameLine (h : Fork rest rest' p p') (hr : startsLine rest) (hr' : startsLine rest') :
    SameLine p.rest p'.rest := by
  obtain ⟨t, ht, ht'⟩ := h.ahead
  rw [ht, ht']
  exact (SameLine.of_startsLine hr hr').append_left t

theorem past (h : Fork rest rest' p p') (hr : startsLine rest) {t r r' : Text}
    (ht : hasBreak t = false) (hp : t ++ r = p.rest) (hp' : t ++ r' = p'.rest) :
    Fork rest rest' (p.past t r) (p'.past t r') := by
  obtain ⟨a, ha, ha'⟩ := h.ahead
  obtain ⟨s, rfl, hrs⟩ := exists_of_append_eq_append ht hr (hp.trans ha)
  refine ⟨congrArg (lineAfter · t) h.line_eq, s, hrs, ?_⟩
  rw [ha', List.append_assoc] at hp'
  exact List.append_cancel_left hp'

/-- The gap ends in front of where the sources part, or goes on to there. -/
theorem gap_cases (h : Fork rest rest' p p') :
    (p.gap.1 = p'.gap.1 ∧ Fork rest rest' p.gap.2 p'.gap.2 ∧ rest.length < p.gap.2.rest.length) ∨
      ∃ t, isGap false t ∧ p.rest = t ++ rest ∧ p'.rest = t ++ rest' := by
  obtain ⟨t, ht, ht'⟩ := h.ahead
  rcases splitGap_append_cases false t with ⟨gap, s, rfl, hs, hsplit⟩ | hgap
  · left
    have hp : p.gap = (gap, ⟨lineAfter p.line gap, s ++ rest⟩) := by
      simp only [Place.gap, ht, hsplit, Place.past]
    have hp' : p'.gap = (gap, ⟨lineAfter p.line gap, s ++ rest'⟩) := by
      simp only [Place.gap, ht', hsplit, Place.past, h.line_eq]
    rw [hp, hp']
    refine ⟨rfl, ⟨rfl, s, rfl, rfl⟩, ?_⟩
    have := List.length_pos_iff.2 hs
    rw [List.length_append]
    omega
  · exact .inr ⟨t, hgap, ht, ht'⟩

end Fork

variable {rest rest' : Text}

/-- In front of the end of line at which they part, two sources are alike. -/
theorem likeness_fork (hr : startsLine rest) (hr' : startsLine rest') :
    Likeness (rest.length + 1) (Fork rest rest') Eq := by
  have hgap {p p' : Place} (h : Fork rest rest' p p')
      (hlim : rest.length + 1 ≤ p.gap.2.rest.length) :
      p.gap.1 = p'.gap.1 ∧ Fork rest rest' p.gap.2 p'.gap.2 := by
    rcases h.gap_cases with ⟨hlead, hfork, -⟩ | ⟨t, ht, hp, -⟩
    · exact ⟨hlead, hfork⟩
    · have hle : p.gap.2.rest.length ≤ rest.length := by
        simp only [Place.gap, hp, splitGap_of_isGap ht, Place.past]
        exact splitGap_length_le _ _
      omega
  refine ⟨Fork.line_eq, fun h => h.sameLine hr hr', ?_, fun h ht => h.past hr ht,
    fun h hlim => (hgap h hlim).1, fun h hlim => ?_, fun h hlim => (hgap h hlim).2, rfl⟩
  · intro p p' h hlim
    obtain ⟨t, ht, ht'⟩ := h.ahead
    cases t with
    | nil =>
      rw [ht] at hlim
      exact absurd hlim (Nat.not_succ_le_self _)
    | cons c t =>
      rw [Place.atEnd, Place.atEnd, ht, ht']
      rfl
  · rw [(hgap h hlim).1]

end YamlIndent
