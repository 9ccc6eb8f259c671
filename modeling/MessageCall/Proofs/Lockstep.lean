import MessageCall.Attempt

/-!
# Steps in lockstep

Two executions that differ in something that they never look at do the same all along.
`Attempt.Mirrors R A x y` says so of two steps: from states related by `R` they end alike, with one
error or with values related by `A`, and the states that they leave are related again. It holds of
compositions if it holds of the parts, so it is proved along the text of the two steps. Where they
are one and the same step, it says that the step does not tell related states apart.
-/

namespace MessageCall

namespace Attempt

variable {σ σ' ε ε' α β γ δ : Type} {R : σ → σ → Prop} {A : α → β → Prop} {C : γ → δ → Prop}

/-- Two steps have ended alike: with one error, or with related values. -/
inductive Ends (A : α → β → Prop) : Except ε α → Except ε β → Prop
  | ok {a : α} {b : β} (h : A a b) : Ends A (.ok a) (.ok b)
  | error (e : ε) : Ends A (.error e) (.error e)

namespace Ends

theorem refl (r : Except ε α) : Ends Eq r r := by
  cases r with
  | ok a => exact .ok rfl
  | error e => exact .error e

theorem eq {r r' : Except ε α} (h : Ends Eq r r') : r = r' := by
  cases h with
  | ok h => rw [h]
  | error e => rfl

theorem of_eq {r r' : Except ε α} (h : r = r') : Ends Eq r r' := h ▸ refl r

theorem mapError {r : Except ε α} {r' : Except ε β} (h : Ends A r r') (f : ε → ε') :
    Ends A (r.mapError f) (r'.mapError f) := by
  cases h with
  | ok h => exact .ok h
  | error e => exact .error (f e)

end Ends

/-- From related states the two steps end alike, and the states that they leave are related. -/
def Mirrors (R : σ → σ → Prop) (A : α → β → Prop) (x : Attempt σ ε α) (y : Attempt σ ε β) : Prop :=
  ∀ s t, R s t → Ends A (x s).1 (y t).1 ∧ R (x s).2 (y t).2

namespace Mirrors

variable {x : Attempt σ ε α} {y : Attempt σ ε β}

/-- No step tells equal states apart. -/
theorem self (x : Attempt σ ε α) : Mirrors Eq Eq x x := by
  rintro s _ rfl
  exact ⟨.refl _, rfl⟩

theorem pure {a : α} {b : β} (h : A a b) :
    Mirrors R A (Pure.pure a : Attempt σ ε α) (Pure.pure b) := fun _ _ hs => ⟨.ok h, hs⟩

theorem throw (e : ε) :
    Mirrors R A (MonadExcept.throw e : Attempt σ ε α) (MonadExcept.throw e : Attempt σ ε β) :=
  fun _ _ hs => ⟨.error e, hs⟩

theorem ofExcept {r : Except ε α} {r' : Except ε β} (h : Ends A r r') :
    Mirrors R A (Attempt.ofExcept r : Attempt σ ε α) (Attempt.ofExcept r') :=
  fun _ _ hs => ⟨h, hs⟩

/-- The ways in which the two steps can end. -/
theorem cases {s t : σ} (h : Mirrors R A x y) (hs : R s t) :
    (∃ e s' t', x s = (.error e, s') ∧ y t = (.error e, t') ∧ R s' t') ∨
      ∃ a b s' t', x s = (.ok a, s') ∧ y t = (.ok b, t') ∧ A a b ∧ R s' t' := by
  obtain ⟨hends, hafter⟩ := h s t hs
  rcases hx : x s with ⟨r, s'⟩
  rcases hy : y t with ⟨r', t'⟩
  rw [hx, hy] at hends hafter
  cases hends with
  | ok hab => exact .inr ⟨_, _, s', t', rfl, rfl, hab, hafter⟩
  | error e => exact .inl ⟨e, s', t', rfl, rfl, hafter⟩

/-- Composition. The second steps go on with related values. -/
theorem bind_of {f : α → Attempt σ ε γ} {g : β → Attempt σ ε δ} (h : Mirrors R A x y)
    (hfg : ∀ a b, A a b → Mirrors R C (f a) (g b)) : Mirrors R C (x >>= f) (y >>= g) := by
  intro s t hs
  rcases h.cases hs with ⟨e, s', t', hx, hy, hafter⟩ | ⟨a, b, s', t', hx, hy, hab, hafter⟩
  · rw [bind_of_error hx, bind_of_error hy]
    exact ⟨.error e, hafter⟩
  · rw [bind_of_ok hx, bind_of_ok hy]
    exact hfg a b hab s' t' hafter

theorem bind {y : Attempt σ ε α} {f : α → Attempt σ ε γ} {g : α → Attempt σ ε δ}
    (h : Mirrors R Eq x y) (hfg : ∀ a, Mirrors R C (f a) (g a)) :
    Mirrors R C (x >>= f) (y >>= g) :=
  h.bind_of fun a _ hab => hab ▸ hfg a

/-- A step may look at the state, if what it goes on with is the same in what matters. -/
theorem look {f : σ → Attempt σ ε α} {g : σ → Attempt σ ε β}
    (h : ∀ s t, R s t → Mirrors R A (f s) (g t)) :
    Mirrors R A (MonadState.get >>= f) (MonadState.get >>= g) := by
  intro s t hs
  rw [bind_of_ok (get_apply s), bind_of_ok (get_apply t)]
  exact h s t hs s t hs

theorem modify {f g : σ → σ} (h : ∀ s t, R s t → R (f s) (g t)) :
    Mirrors R Eq (modify f : Attempt σ ε PUnit) (modify g) := fun s t hs => ⟨.ok rfl, h s t hs⟩

theorem ite {c : Prop} [Decidable c] {x' : Attempt σ ε α} {y' : Attempt σ ε β}
    (h : Mirrors R A x y) (h' : Mirrors R A x' y') :
    Mirrors R A (if c then x else x') (if c then y else y') := by
  split
  · exact h
  · exact h'

theorem mapError (h : Mirrors R A x y) (f : ε → ε') :
    Mirrors R A (x.mapError f) (y.mapError f) := fun s t hs =>
  ⟨(h s t hs).1.mapError f, (h s t hs).2⟩

theorem outcome {y : Attempt σ ε α} (h : Mirrors R Eq x y) :
    Mirrors R Eq (x.outcome : Attempt σ ε' (Except ε α)) y.outcome := fun s t hs =>
  ⟨.ok (h s t hs).1.eq, (h s t hs).2⟩

/-- Steps on parts of two states, that need no more in common than the parts have. -/
theorem inside {S : σ' → σ' → Prop} {part : σ' → σ} {put : σ' → σ → σ'} (h : Mirrors R A x y)
    (hpart : ∀ s t, S s t → R (part s) (part t))
    (hput : ∀ s t s' t', S s t → R s' t' → S (put s s') (put t t')) :
    Mirrors S A (x.inside part put) (y.inside part put) := fun s t hs =>
  have hparts := h (part s) (part t) (hpart s t hs)
  ⟨hparts.1, hput s t _ _ hs hparts.2⟩

end Mirrors

end Attempt

end MessageCall
