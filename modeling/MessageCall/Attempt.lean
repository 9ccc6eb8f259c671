/-!
# Steps that may fail over a state that stays

A value of `Attempt σ ε α` is a step over a state `σ` that ends with a value or with an error, and
leaves a state in both cases. A failed step is not undone: whatever it changed before it failed is
still changed, and undoing it is a decision of the caller, who can look at the error with
`Attempt.outcome`.

Steps over a part of the state become steps over the whole of it by `Attempt.inside`.
-/

namespace MessageCall

/-- A step over `σ` with a value in `α` or an error in `ε`. -/
def Attempt (σ ε α : Type) : Type := σ → Except ε α × σ

namespace Attempt

variable {σ τ ε ε' α β : Type}

instance : Monad (Attempt σ ε) where
  pure a := fun s => (.ok a, s)
  bind m f := fun s =>
    match m s with
    | (.ok a, s) => f a s
    | (.error e, s) => (.error e, s)

instance : MonadStateOf σ (Attempt σ ε) where
  get := fun s => (.ok s, s)
  set s := fun _ => (.ok (), s)
  modifyGet f := fun s => (.ok (f s).1, (f s).2)

instance : MonadExceptOf ε (Attempt σ ε) where
  throw e := fun s => (.error e, s)
  tryCatch m handle := fun s =>
    match m s with
    | (.ok a, s) => (.ok a, s)
    | (.error e, s) => handle e s

/-- The step that ends with the given value or error and changes nothing. -/
def ofExcept (r : Except ε α) : Attempt σ ε α := fun s => (r, s)

/-- The step that always succeeds, with the value or the error of the given one. -/
def outcome (m : Attempt σ ε α) : Attempt σ ε' (Except ε α) := fun s => (.ok (m s).1, (m s).2)

/-- The step with another error in place of its own. -/
def mapError (f : ε → ε') (m : Attempt σ ε α) : Attempt σ ε' α := fun s =>
  ((m s).1.mapError f, (m s).2)

/-- The step on a part of a larger state. -/
def inside (part : τ → σ) (put : τ → σ → τ) (m : Attempt σ ε α) : Attempt τ ε α := fun t =>
  ((m (part t)).1, put t (m (part t)).2)

/-! ### What each combinator does to a state -/

@[simp] theorem pure_apply (a : α) (s : σ) : (pure a : Attempt σ ε α) s = (.ok a, s) := rfl

theorem bind_apply (m : Attempt σ ε α) (f : α → Attempt σ ε β) (s : σ) :
    (m >>= f) s =
      match m s with
      | (.ok a, s) => f a s
      | (.error e, s) => (.error e, s) := rfl

theorem bind_of_ok {m : Attempt σ ε α} {f : α → Attempt σ ε β} {s s' : σ} {a : α}
    (h : m s = (.ok a, s')) : (m >>= f) s = f a s' := by
  rw [bind_apply, h]

theorem bind_of_error {m : Attempt σ ε α} {f : α → Attempt σ ε β} {s s' : σ} {e : ε}
    (h : m s = (.error e, s')) : (m >>= f) s = (.error e, s') := by
  rw [bind_apply, h]

@[simp] theorem get_apply (s : σ) : (get : Attempt σ ε σ) s = (.ok s, s) := rfl

@[simp] theorem set_apply (s s' : σ) : (set s' : Attempt σ ε PUnit) s = (.ok (), s') := rfl

@[simp] theorem modify_apply (f : σ → σ) (s : σ) :
    (modify f : Attempt σ ε PUnit) s = (.ok (), f s) := rfl

@[simp] theorem throw_apply (e : ε) (s : σ) : (throw e : Attempt σ ε α) s = (.error e, s) := rfl

@[simp] theorem ofExcept_apply (r : Except ε α) (s : σ) :
    (ofExcept r : Attempt σ ε α) s = (r, s) := rfl

@[simp] theorem outcome_apply (m : Attempt σ ε α) (s : σ) :
    (m.outcome : Attempt σ ε' (Except ε α)) s = (.ok (m s).1, (m s).2) := rfl

@[simp] theorem mapError_apply (f : ε → ε') (m : Attempt σ ε α) (s : σ) :
    m.mapError f s = ((m s).1.mapError f, (m s).2) := rfl

@[simp] theorem inside_apply (part : τ → σ) (put : τ → σ → τ) (m : Attempt σ ε α) (t : τ) :
    m.inside part put t = ((m (part t)).1, put t (m (part t)).2) := rfl

theorem id_map_apply (m : Attempt σ ε α) : id <$> m = m := by
  funext s
  change (match m s with
    | (.ok a, s) => (.ok a, s)
    | (.error e, s) => (.error e, s)) = m s
  rcases m s with ⟨_ | _, _⟩ <;> rfl

theorem bind_assoc_apply (m : Attempt σ ε α) (f : α → Attempt σ ε β) (g : β → Attempt σ ε τ) :
    m >>= f >>= g = m >>= fun a => f a >>= g := by
  funext s
  rw [bind_apply, bind_apply, bind_apply]
  rcases m s with ⟨_ | _, _⟩ <;> rfl

instance : LawfulMonad (Attempt σ ε) :=
  LawfulMonad.mk' _ id_map_apply (fun _ _ => rfl) bind_assoc_apply

end Attempt

end MessageCall
