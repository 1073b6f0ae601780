import YamlIndent.Proofs.Source.Fork

/-!
# Faults are found on the first line that has one

Reading a source finds a fault on some line of it. The lines in front of that line make up a source
without a fault, and nothing behind the line can mend it: whatever follows the line, the fault is
found at the same place, and reported alike.

## Main definitions

* `Rejection.OnLine`: a fault that is found on a line of a source.

## Main results

* `exists_onLine`: a fault is found in front of the end of some line.
* `Rejection.OnLine.parse_append`: what follows the line does not matter.
* `exists_lines_of_parse_error`: the lines around a fault.
-/

namespace YamlIndent

/-- A fault is found on a line that has the lines `front` in front of it and `next` behind it,
between `head` and `tail`. -/
structure Rejection.OnLine (r : Rejection) (front head tail next : Text) : Prop where
  place_eq : r.place = ⟨head.reverse, tail ++ next⟩
  front_eq : lastLine front = []
  hasBreak_eq : hasBreak (head ++ tail) = false
  next : startsLine next
  tail_ne_nil : tail ≠ []

variable {source front head tail next : Text} {r : Rejection}

theorem behind_of_parse (h : parse source = .error r) : r.Behind (.start source) :=
  behind_of_documents (eq_error_of_map h)

/-- A fault is found in front of the end of some line of the source. -/
theorem exists_onLine (h : parse source = .error r) :
    ∃ front head tail next, source = front ++ (head ++ (tail ++ next)) ∧
      r.OnLine front head tail next := by
  have hbehind := behind_of_parse h
  obtain ⟨t, ht, hline⟩ := (Place.start source).reaches_gap.leads.trans hbehind.leads
  obtain ⟨front, hfront, hlast⟩ := exists_lines_append_lastLine t
  obtain ⟨next, hnext, hrest⟩ := firstLine_append_rest r.place.rest
  refine ⟨front, lastLine t, firstLine r.place.rest, next, ?_, ?_, hlast, ?_, hnext, fun hnil => ?_⟩
  · rw [← hrest, ← List.append_assoc, ← hfront]
    exact ht.symm
  · rw [← hrest, lastLine, List.reverse_reverse]
    exact congrArg (Place.mk · r.place.rest) hline
  · rw [hasBreak_append, hasBreak_lastLine, hasBreak_firstLine]
    rfl
  · have htoken := hbehind.token
    rw [hrest, hnil, List.nil_append, hnext] at htoken
    cases htoken

/-- Whatever follows the line of a fault, the fault is found there. -/
theorem Rejection.OnLine.parse_append (hr : r.OnLine front head tail next)
    (h : parse (front ++ (head ++ (tail ++ next))) = .error r) {next' : Text}
    (hn : startsLine next') :
    parse (front ++ (head ++ (tail ++ next'))) =
      .error ⟨r.fault, ⟨head.reverse, tail ++ next'⟩⟩ := by
  have hlike := likeness_fork hr.next hn
  have hstart : Fork next next' (.start (front ++ (head ++ (tail ++ next))))
      (.start (front ++ (head ++ (tail ++ next')))) :=
    ⟨rfl, front ++ (head ++ tail), by simp [Place.start], by simp [Place.start]⟩
  have hlim : next.length + 1 ≤ r.place.rest.length := by
    have := List.length_pos_iff.2 hr.tail_ne_nil
    rw [hr.place_eq, List.length_append]
    omega
  have hgap := Nat.le_trans hlim (behind_of_parse h).leads.length_le
  obtain ⟨r', hr', hfault, hline, t, ht, ht'⟩ :=
    (hlike.parse (hlike.lead hstart hgap) (hlike.gap hstart hgap)).exists_error h hlim
  obtain ⟨fault', line', rest'⟩ := r'
  rw [hr.place_eq] at ht hline
  obtain rfl : tail = t := List.append_cancel_right ht
  obtain rfl : rest' = tail ++ next' := ht'
  obtain rfl : head.reverse = line' := hline
  rw [hr', hfault]

/-- The lines in front of a fault make up a source without a fault. -/
theorem Rejection.OnLine.parse_front (hr : r.OnLine front head tail next)
    (h : parse (front ++ (head ++ (tail ++ next))) = .error r) : ∃ t, parse front = .ok t := by
  cases hfront : parse front with
  | ok t => exact ⟨t, rfl⟩
  | error e =>
    exfalso
    obtain ⟨front', head', tail', next', hsource, he⟩ := exists_onLine hfront
    have hnext : next' ≠ [] := by
      rintro rfl
      have hlast := hr.front_eq
      rw [hsource, List.append_nil, lastLine_append_of_lastLine_eq_nil he.front_eq he.hasBreak_eq,
        List.append_eq_nil_iff] at hlast
      exact he.tail_ne_nil hlast.2
    have hstarts : startsLine (next' ++ (head ++ (tail ++ next))) := by
      have := he.next
      cases next' with
      | nil => exact absurd rfl hnext
      | cons c t => exact this
    -- What the front is rejected for would be found in the source, in front of the fault there.
    rw [hsource] at hfront
    have hearlier := he.parse_append hfront hstarts
    have hwhole : front ++ (head ++ (tail ++ next)) =
        front' ++ (head' ++ (tail' ++ (next' ++ (head ++ (tail ++ next))))) := by
      rw [hsource]
      simp only [List.append_assoc]
    rw [← hwhole, h] at hearlier
    have hplace := hr.place_eq
    cases hearlier
    have hlen := congrArg (·.rest.length) hplace
    have hpos := List.length_pos_iff.2 he.tail_ne_nil
    simp only [List.length_append] at hlen
    omega

/-- A fault that is found is reported alike, whatever follows its line. -/
theorem Rejection.OnLine.report_eq (hr : r.OnLine front head tail next) (next' : Text) :
    (⟨r.fault, ⟨head.reverse, tail ++ next'⟩⟩ : Rejection).report
        (front ++ (head ++ (tail ++ next'))) =
      r.report (front ++ (head ++ (tail ++ next))) := by
  have htake (next : Text) : (front ++ (head ++ (tail ++ next))).take
      ((front ++ (head ++ (tail ++ next))).length - (tail ++ next).length) = front ++ head := by
    rw [← List.append_assoc, List.length_append, Nat.add_sub_cancel, List.take_left]
  simp only [Rejection.report, hr.place_eq, htake, Place.column]

/-- A source that is rejected has a fault on some line: between `head` and `tail`, with the lines
`front` in front of it and `next` behind it. The lines in front are read without a fault, and
whatever follows the line, the source is rejected as before. -/
theorem exists_lines_of_parse_error (h : parse source = .error r) :
    ∃ front head tail next, source = front ++ (head ++ (tail ++ next)) ∧
      r.OnLine front head tail next ∧ (∃ t, parse front = .ok t) ∧
      ∀ next', startsLine next' → ∃ r', parse (front ++ (head ++ (tail ++ next'))) = .error r' ∧
        r'.report (front ++ (head ++ (tail ++ next'))) = r.report source := by
  obtain ⟨front, head, tail, next, rfl, hr⟩ := exists_onLine h
  exact ⟨front, head, tail, next, rfl, hr, hr.parse_front h,
    fun next' hn => ⟨_, hr.parse_append h hn, hr.report_eq next'⟩⟩

/-- A value on the line of its key, and a token further in on the next line. -/
theorem exists_lines_of_parse_error_stray :
    ∃ r, parse "a: 1\n  b # c\nd: 2\n".toList = .error r ∧
      ∃ front head tail next, "a: 1\n  b # c\nd: 2\n".toList = front ++ (head ++ (tail ++ next)) ∧
        r.OnLine front head tail next ∧ (∃ t, parse front = .ok t) ∧
        ∃ r', parse (front ++ (head ++ (tail ++ "\r- d\n".toList))) = .error r' ∧
          r'.report (front ++ (head ++ (tail ++ "\r- d\n".toList))) =
            r.report "a: 1\n  b # c\nd: 2\n".toList := by
  have h : (parse "a: 1\n  b # c\nd: 2\n".toList).isOk = false := by decide +kernel
  obtain ⟨r, hr⟩ := exists_eq_error_of_isOk_eq_false h
  obtain ⟨front, head, tail, next, hsource, hline, hfront, hreport⟩ :=
    exists_lines_of_parse_error hr
  exact ⟨r, hr, front, head, tail, next, hsource, hline, hfront, hreport "\r- d\n".toList rfl⟩

end YamlIndent
