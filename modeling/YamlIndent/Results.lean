/-!
# Steps that may fail

A step that may fail gives a result or says why it gives none. Of steps in turn, the first one that
fails ends them all.

## Main results

* `exists_of_bind_eq_ok`: of two steps that succeed, each one does.
* `exists_of_map_eq_ok`: behind a changed result is one that the step gave.
-/

namespace YamlIndent

variable {ε ε' α β : Type}

@[simp] theorem ok_bind (a : α) (f : α → Except ε β) : (Except.ok a >>= f) = f a := rfl

@[simp] theorem error_bind (e : ε) (f : α → Except ε β) : (Except.error e >>= f) = .error e := rfl

@[simp] theorem mapError_ok (f : ε → ε') (a : α) :
    (Except.ok a : Except ε α).mapError f = .ok a := rfl

@[simp] theorem mapError_error (f : ε → ε') (e : ε) :
    (Except.error e : Except ε α).mapError f = .error (f e) := rfl

theorem exists_eq_ok_of_isOk : {x : Except ε α} → x.isOk → ∃ a, x = .ok a
  | .ok a, _ => ⟨a, rfl⟩

theorem exists_eq_error_of_isOk_eq_false :
    {x : Except ε α} → x.isOk = false → ∃ e, x = .error e
  | .error e, _ => ⟨e, rfl⟩

/-- Of two steps that succeed the first one succeeds, and the second one on its result. -/
theorem exists_of_bind_eq_ok {x : Except ε α} {f : α → Except ε β} {b : β}
    (h : x >>= f = .ok b) : ∃ a, x = .ok a ∧ f a = .ok b := by
  cases x with
  | error e => cases h
  | ok a => exact ⟨a, rfl, h⟩

/-- Behind a changed result is one that the step gave. -/
theorem exists_of_map_eq_ok {x : Except ε α} {f : α → β} {b : β} (h : x.map f = .ok b) :
    ∃ a, x = .ok a ∧ f a = b := by
  cases x with
  | error e => cases h
  | ok a => exact ⟨a, rfl, Except.ok.inj h⟩

theorem eq_error_of_map {x : Except ε α} {f : α → β} {e : ε} (h : x.map f = .error e) :
    x = .error e := by
  cases x with
  | error e' => exact congrArg Except.error (Except.error.inj h)
  | ok a => cases h

/-- Steps whose results carry facts give what they give without the facts. -/
theorem map_val_bind {P : α → Prop} {Q : β → Prop} {x : Except ε { a // P a }}
    {f : { a // P a } → Except ε { b // Q b }} {y : Except ε α} {g : α → Except ε β}
    (hx : x.map (·.1) = y) (hf : ∀ a, (f a).map (·.1) = g a.1) :
    (x >>= f).map (·.1) = y >>= g := by
  subst hx
  cases x with
  | error e => rfl
  | ok a => exact hf a

theorem eq_ok_of_toOption {a : α} : {x : Except ε α} → x.toOption = some a → x = .ok a
  | .ok _, h => congrArg Except.ok (Option.some.inj h)

theorem exists_eq_error_of_toOption : {x : Except ε α} → x.toOption = none → ∃ e, x = .error e
  | .error e, _ => ⟨e, rfl⟩

end YamlIndent
