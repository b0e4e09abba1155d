/-! # Computations that may fail

How a result passes through a sequence of steps. -/

namespace HeaderBindings

variable {ε α β α' β' : Type}

@[simp] theorem ok_bind (a : α) (next : α → Except ε β) :
    (Except.ok a >>= next) = next a := rfl

@[simp] theorem error_bind (e : ε) (next : α → Except ε β) :
    (Except.error e >>= next) = .error e := rfl

@[simp] theorem pure_eq_ok (a : α) : (pure a : Except ε α) = .ok a := rfl

theorem bind_eq_ok_iff {x : Except ε α} {next : α → Except ε β} {b : β} :
    (x >>= next) = .ok b ↔ ∃ a, x = .ok a ∧ next a = .ok b := by
  cases x <;> simp

/-- Two computations that both fail, or both give a result, and then related ones. -/
inductive Agree (related : α → β → Prop) : Except ε α → Except ε β → Prop
  | ok {a : α} {b : β} (h : related a b) : Agree related (.ok a) (.ok b)
  | error (e e' : ε) : Agree related (.error e) (.error e')

theorem Agree.bind {related : α → β → Prop} {related' : α' → β' → Prop} {x : Except ε α}
    {y : Except ε β} {next : α → Except ε α'} {next' : β → Except ε β'} (h : Agree related x y)
    (hnext : ∀ a b, related a b → Agree related' (next a) (next' b)) :
    Agree related' (x >>= next) (y >>= next') := by
  cases h with
  | ok h => exact hnext _ _ h
  | error e e' => exact .error e e'

end HeaderBindings
