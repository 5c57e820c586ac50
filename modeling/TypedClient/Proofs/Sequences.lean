/-! Steps that may fail, one after the other. A sequence succeeds when each of its steps does, and it
fails with the first step that fails. -/

namespace TypedClient

variable {ε ε' σ α β : Type}

theorem bind_eq_ok {x : Except ε α} {f : α → Except ε β} {b : β} :
    x >>= f = .ok b ↔ ∃ a, x = .ok a ∧ f a = .ok b := by
  cases x with
  | error failure => simp [bind, Except.bind]
  | ok a => simp [bind, Except.bind]

section State

variable {x : EStateM ε σ α} {f : α → EStateM ε σ β} {s t u : σ}

theorem bind_of_ok {a : α} (h : x s = .ok a t) : (x >>= f) s = f a t := by
  simp [bind, EStateM.bind, h]

theorem bind_of_error {failure : ε} (h : x s = .error failure t) :
    (x >>= f) s = .error failure t := by
  simp [bind, EStateM.bind, h]

theorem get_bind (g : σ → EStateM ε σ β) : (get >>= g) s = g s s := rfl

theorem run_bind_eq_ok {b : β} :
    (x >>= f) s = .ok b u ↔ ∃ a t, x s = .ok a t ∧ f a t = .ok b u := by
  cases h : x s with
  | error failure t => simp [bind_of_error h]
  | ok a t =>
    rw [bind_of_ok h]
    constructor
    · exact fun hrest => ⟨a, t, rfl, hrest⟩
    · rintro ⟨_, _, heq, hrest⟩
      injection heq with ha ht
      rwa [ha, ht]

theorem run_bind_eq_error {failure : ε} :
    (x >>= f) s = .error failure u ↔
      x s = .error failure u ∨ ∃ a t, x s = .ok a t ∧ f a t = .error failure u := by
  cases h : x s with
  | error failure' t => simp [bind_of_error h]
  | ok a t =>
    rw [bind_of_ok h]
    constructor
    · exact fun hrest => .inr ⟨a, t, rfl, hrest⟩
    · rintro (heq | ⟨_, _, heq, hrest⟩)
      · nomatch heq
      · injection heq with ha ht
        rwa [ha, ht]

/-- Whether a step succeeds, with a result and a state that pass. -/
def succeedsWith (passes : α → σ → Bool) (x : EStateM ε σ α) (s : σ) : Bool :=
  match x s with
  | .ok a t => passes a t
  | .error _ _ => false

theorem exists_of_succeedsWith {passes : α → σ → Bool} (h : succeedsWith passes x s = true) :
    ∃ a t, x s = .ok a t ∧ passes a t = true := by
  unfold succeedsWith at h
  cases hx : x s with
  | ok a t =>
    rw [hx] at h
    exact ⟨a, t, rfl, h⟩
  | error failure t =>
    rw [hx] at h
    nomatch h

/-- Telling a failure in another way changes nothing about success. -/
theorem adaptExcept_eq_ok {g : ε → ε'} {a : α} : x.adaptExcept g s = .ok a t ↔ x s = .ok a t := by
  unfold EStateM.adaptExcept
  cases x s with
  | ok b u => simp
  | error failure u => simp

end State

end TypedClient
