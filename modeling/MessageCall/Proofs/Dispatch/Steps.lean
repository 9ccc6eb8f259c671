import MessageCall.Proofs.Dispatch.Tracing
import MessageCall.Proofs.State.Balances
import MessageCall.Dispatch.Machine

/-!
# What all steps of a kind do

A statement about everything that an operation may do, whichever way it goes, is proved along its
text. `Attempt.Meets R E m` says that the step `m` relates every state to the one it leaves by the
preorder `R` and that it fails with an error in `E` only. It holds of a composition if it holds of
the parts.

The preorders come from a relation `R` of ledgers. `Machine.Touches R` says that nothing but the
view was touched, and `Machine.Moves R` leaves open what was recorded and what was observed.
Balances are moved by the transfer policy only. Everything else is done by operations that keep them
and by going back, and so it is within every `R` that admits both (`Ledger.Admits`). One proof then
serves the statements about ledgers, where `R` is `Ledger.Leads`, those about money, where `R` is
`Ledger.Conserves`, and those that are not about ledgers at all, where `R` says nothing.
-/

namespace MessageCall

namespace Attempt

variable {σ τ ε ε' α β : Type} {R : σ → σ → Prop} {E : ε → Prop} {m : Attempt σ ε α}

/-- The step relates states by `R` and its errors are in `E`. -/
structure Meets (R : σ → σ → Prop) (E : ε → Prop) (m : Attempt σ ε α) : Prop where
  keeps : ∀ s, R s (m s).2
  error : ∀ {s e}, (m s).1 = .error e → E e

namespace Meets

theorem of_eq {s t : σ} {r : Except ε α} (h : Meets R E m) (hm : m s = (r, t)) : R s t := by
  have hs := h.keeps s
  rw [hm] at hs
  exact hs

theorem mono {R' : σ → σ → Prop} {E' : ε → Prop} (h : Meets R E m)
    (hR : ∀ {s t}, R s t → R' s t) (hE : ∀ {e}, E e → E' e) : Meets R' E' m where
  keeps s := hR (h.keeps s)
  error he := hE (h.error he)

section Preorder

variable [IsPreorder σ R]

theorem pure (a : α) : Meets R E (Pure.pure a) where
  keeps := Std.Refl.refl
  error he := by cases he

theorem throw {e : ε} (he : E e) : Meets R E (MonadExcept.throw e : Attempt σ ε α) where
  keeps := Std.Refl.refl
  error he' := by
    cases he'
    exact he

theorem get : Meets R E (MonadState.get : Attempt σ ε σ) where
  keeps := Std.Refl.refl
  error he := by cases he

theorem bind {f : α → Attempt σ ε β} (h : Meets R E m) (hf : ∀ a, Meets R E (f a)) :
    Meets R E (m >>= f) where
  keeps s := by
    -- A first step that fails ends the composition, and has kept the relation on its own.
    have hm := h.keeps s
    rw [bind_apply]
    rcases hs : m s with ⟨_ | a, t⟩
    · rw [hs] at hm
      exact hm
    · rw [hs] at hm
      exact IsTrans.trans s t _ hm ((hf a).keeps t)
  -- The error is that of whichever step failed.
  error {s e} he := by
    rw [bind_apply] at he
    rcases hs : m s with ⟨e' | a, t⟩
    · rw [hs] at he
      cases he
      exact h.error (congrArg Prod.fst hs)
    · rw [hs] at he
      exact (hf a).error he

end Preorder

theorem ite {c : Prop} [Decidable c] {m' : Attempt σ ε α} (h : Meets R E m)
    (h' : Meets R E m') : Meets R E (if c then m else m') := by
  split
  · exact h
  · exact h'

/-- The step on a part of a state. -/
theorem inside {S : τ → τ → Prop} {part : τ → σ} {put : τ → σ → τ} (h : Meets R E m)
    (hR : ∀ t s, R (part t) s → S t (put t s)) : Meets S E (m.inside part put) where
  keeps t := hR t _ (h.keeps (part t))
  error {t} _ he := h.error (s := part t) he

theorem mapError {E' : ε' → Prop} {f : ε → ε'} (h : Meets R E m) (hE : ∀ {e}, E e → E' (f e)) :
    Meets R E' (m.mapError f) where
  keeps := h.keeps
  error {s e} he := by
    change ((m s).1.mapError f) = .error e at he
    cases hm : (m s).1 with
    | error e' =>
      rw [hm] at he
      cases he
      exact hE (h.error hm)
    | ok a =>
      rw [hm] at he
      cases he

/-- The step that has its error as an answer has none itself. -/
theorem outcome {E' : ε' → Prop} (h : Meets R E m) :
    Meets R E' (m.outcome : Attempt σ ε' (Except ε α)) where
  keeps := h.keeps
  error he := by cases he

end Meets

theorem apply_eq {s : σ} {r : Except ε α} (h : (m s).1 = r) : m s = (r, (m s).2) := by
  subst h
  rfl

/-- That there is a result can be decided also where results cannot be compared. -/
theorem eq_ok_of_isSome {r : Except ε α} (h : r.toOption.isSome = true) : ∃ a, r = .ok a := by
  cases r with
  | ok a => exact ⟨a, rfl⟩
  | error e => cases h

/-- A step with another after it fails where the one or the other fails. -/
theorem bind_eq_error {f : α → Attempt σ ε β} {s s' : σ} {e : ε}
    (h : (m >>= f) s = (.error e, s')) :
    m s = (.error e, s') ∨ ∃ a t, m s = (.ok a, t) ∧ f a t = (.error e, s') := by
  rw [bind_apply] at h
  rcases hs : m s with ⟨e' | a, t⟩
  · rw [hs] at h
    cases h
    exact .inl rfl
  · rw [hs] at h
    exact .inr ⟨a, t, rfl, h⟩

/-- A step that succeeds with another after it succeeds with both. -/
theorem bind_eq_ok {f : α → Attempt σ ε β} {s s' : σ} {b : β} (h : (m >>= f) s = (.ok b, s')) :
    ∃ a t, m s = (.ok a, t) ∧ f a t = (.ok b, s') := by
  rw [bind_apply] at h
  rcases hs : m s with ⟨_ | a, t⟩
  · rw [hs] at h
    cases h
  · rw [hs] at h
    exact ⟨a, t, rfl, h⟩

end Attempt

/-! ### Steps of a ledger -/

variable {store : Store}

namespace Ledger

/-- Nothing is known of the ledgers. -/
def Unrelated (_ _ : Ledger) : Prop := True

instance : IsPreorder Ledger Unrelated where
  refl _ := trivial
  trans _ _ _ _ _ := trivial

/-- A relation that going back stays within. -/
class Returns (R : Ledger → Ledger → Prop) : Prop extends IsPreorder Ledger R where
  back {l₀ l l' : Ledger} (h : R l₀ l) (h' : R l l') : R l₀ (Ledger.revertTo l.snapshot l').2

/-- A relation that holds of whatever operations and going back can do. -/
class Covers (store : Store) (R : Ledger → Ledger → Prop) : Prop extends Returns R where
  leads {l l' : Ledger} (h : Leads store l l') : R l l'

instance : Covers store (Leads store) where
  leads := id
  back := .back

instance : Covers store Unrelated where
  leads _ := trivial
  back _ _ := trivial

/-- A relation that holds of looking, and of whatever operations can do that keep all balances. -/
class Admits (store : Store) (R : Ledger → Ledger → Prop) : Prop extends Returns R where
  looks {l l' : Ledger} (h : LooksIf store l l') : R l l'
  op {l : Ledger} {op : LedgerOp} (h : op.KeepsBalances) : R l (op.perform store l).2

instance {R : Ledger → Ledger → Prop} [Covers store R] : Admits store R where
  looks h := Covers.leads h.leads
  op _ := Covers.leads ((Leads.refl _).op _)

/-- An operation that keeps all balances, with its answer left as it is. -/
theorem admits_of_perform {R : Ledger → Ledger → Prop} [Admits store R] {α : Type} {m : Step α}
    {f : α → Answer} (op : LedgerOp) (hop : op.KeepsBalances)
    (h : op.perform store = m >>= fun a => pure (f a)) (l : Ledger) : R l (m l).2 := by
  rw [← perform_ledger h]
  exact Admits.op hop

/-! ### What happens to balances -/

variable {l l' : Ledger}

theorem Leads.sound (h : Leads store l l') (hl : l.Sound store) : l'.Sound store :=
  (h.evolves hl).sound

/-- All balances are what they were. -/
structure Keeps (store : Store) (l l' : Ledger) : Prop where
  leads : Leads store l l'
  balances : l.Sound store → l'.balances store = l.balances store

/-- The sum of all balances is what it was, unless it was more than a word. -/
structure Conserves (store : Store) (l l' : Ledger) : Prop where
  leads : Leads store l l'
  supply : l.Sound store → l.supply store < span 32 → l'.supply store = l.supply store

theorem Keeps.conserves (h : Keeps store l l') : Conserves store l l' where
  leads := h.leads
  supply hl _ := congrArg Balances.supply (h.balances hl)

/-- Going back over a part of the way brings back the balances from there. -/
theorem Leads.balances_revertTo (hl : l.Sound store) (h : Leads store l l') :
    (Ledger.revertTo l.snapshot l').2.balances store = l.balances store :=
  hl.balances_of_report (h.evolves hl).revertTo_start.sound (h.evolves hl).report_revertTo

instance : IsPreorder Ledger (Keeps store) where
  refl l := ⟨.refl l, fun _ => rfl⟩
  trans _ _ _ h h' := ⟨h.leads.trans h'.leads,
    fun hl => (h'.balances (h.leads.sound hl)).trans (h.balances hl)⟩

instance : IsPreorder Ledger (Conserves store) where
  refl l := ⟨.refl l, fun _ _ => rfl⟩
  trans l l' l'' h h' := by
    refine ⟨h.leads.trans h'.leads, fun hl hsupply => ?_⟩
    have hsame := h.supply hl hsupply
    rw [← hsame] at hsupply ⊢
    exact h'.supply (h.leads.sound hl) hsupply

theorem Keeps.back {l₀ : Ledger} (h : Keeps store l₀ l) (h' : Leads store l l') :
    Keeps store l₀ (Ledger.revertTo l.snapshot l').2 where
  leads := .back h.leads h'
  balances hl := (h'.balances_revertTo (h.leads.sound hl)).trans (h.balances hl)

instance : Admits store (Keeps store) where
  back h h' := h.back h'.leads
  looks h := ⟨h.leads, fun hl => hl.balances_of_report (h.looks hl).sound (h.looks hl).report⟩
  op hop := ⟨(Leads.refl _).op _, fun hl => hl.balances_perform hop⟩

instance : Admits store (Conserves store) where
  back h h' := ⟨.back h.leads h'.leads, fun hl hsupply =>
    (congrArg Balances.supply (h'.leads.balances_revertTo (h.leads.sound hl))).trans
      (h.supply hl hsupply)⟩
  looks h := (Admits.looks h : Keeps store _ _).conserves
  op hop := (Admits.op hop : Keeps store _ _).conserves

end Ledger

/-! ### Steps of a view -/

namespace View

/-- The ledgers behind two views are related. -/
def Touches (R : Ledger → Ledger → Prop) (v v' : View) : Prop := R v.ledger v'.ledger

variable {R : Ledger → Ledger → Prop} {α : Type}

instance [IsPreorder Ledger R] : IsPreorder View (Touches R) where
  refl v := (Std.Refl.refl v.ledger : R v.ledger v.ledger)
  trans _ _ _ h h' := (IsTrans.trans _ _ _ h h' : R _ _)

theorem watched_apply {m : Ledger.Step α} {v : View} {r : Except InternalError α} {l : Ledger}
    (h : m v.ledger = (r, l)) (access : Access) :
    watched access m v = (r, { ledger := l, accesses := access :: v.accesses }) := by
  unfold watched
  rw [h]

theorem meets_watched {access : Access} {m : Ledger.Step α} (h : ∀ l, R l (m l).2) :
    (watched access m).Meets (Touches R) fun _ => True where
  keeps v := h v.ledger
  error _ := trivial

theorem meets_op {access : Access} {m : Ledger.Step α} {f : α → Answer} (op : LedgerOp)
    (h : op.perform store = m >>= fun a => pure (f a)) :
    (watched access m).Meets (Touches (Ledger.Leads store)) fun _ => True :=
  meets_watched (Ledger.leads_of_perform op h)

/-- An operation that reads only looks. -/
theorem looksIf_op {access : Access} {m : Ledger.Step α} {f : α → Answer} (op : LedgerOp)
    (hop : op.Reads) (h : op.perform store = m >>= fun a => pure (f a)) :
    (watched access m).Meets (Touches (Ledger.LooksIf store)) fun _ => True := by
  refine meets_watched fun l => ?_
  rw [← Ledger.perform_ledger h]
  exact Ledger.looksIf_perform hop l

end View

/-! ### Policies -/

namespace TransferPolicy

variable {Q R : Ledger → Ledger → Prop} {p : TransferPolicy}

/-- A policy that stays within `Q` when it is asked, and within `R` when it moves value. -/
structure Within (store : Store) (Q R : Ledger → Ledger → Prop) (p : TransferPolicy) : Prop where
  allows : ∀ sender value, (p.allows store sender value).Meets (View.Touches Q) fun _ => True
  transfer : ∀ sender recipient value,
    (p.transfer store sender recipient value).Meets (View.Touches R) fun _ => True

/-- A policy that only looks when it is asked, and moves value by operations. -/
abbrev Honest (store : Store) (p : TransferPolicy) : Prop :=
  p.Within store (Ledger.LooksIf store) (Ledger.Leads store)

theorem Honest.leads (hp : p.Honest store) :
    p.Within store (Ledger.Leads store) (Ledger.Leads store) where
  allows sender value := (hp.allows sender value).mono (fun h => h.leads) id
  transfer := hp.transfer

/-- Any policy is within no bounds. -/
theorem within_unrelated (p : TransferPolicy) :
    p.Within store Ledger.Unrelated Ledger.Unrelated where
  allows _ _ := ⟨fun _ => trivial, fun _ => trivial⟩
  transfer _ _ _ := ⟨fun _ => trivial, fun _ => trivial⟩

theorem balance_honest : Honest store balance where
  allows sender _ := .bind (View.looksIf_op (.balance sender) trivial rfl) fun _ => .pure _
  transfer sender recipient value := by
    -- Nothing is moved, or it is taken off one account and added to the other.
    refine .ite (.pure ()) (.bind ?_ fun _ => ?_)
    · exact View.meets_op (f := fun _ => .done) (.subBalance sender value) rfl
    · exact View.meets_op (f := fun _ => .done) (.addBalance recipient value) rfl

end TransferPolicy

/-! ### Steps of the dispatcher -/

/-- An internal error, which passes through the frames. -/
def Internal (e : CallError) : Prop := e.propagates = true

namespace Machine

variable {R R' : Ledger → Ledger → Prop} {m m' : Machine}

/-- Only the view is touched, and the ledgers behind it are related. -/
structure Touches (R : Ledger → Ledger → Prop) (m m' : Machine) : Prop where
  ledger : R m.view.ledger m'.view.ledger
  rest : m' = { m with view := m'.view }

instance [IsPreorder Ledger R] : IsPreorder Machine (Touches R) where
  refl m := ⟨(Std.Refl.refl m.view.ledger : R _ _), rfl⟩
  trans m m' m'' h h' := by
    refine ⟨IsTrans.trans _ _ _ h.ledger h'.ledger, ?_⟩
    rw [h'.rest, h.rest]

/-- The ledgers are related, the nesting level is the same, and no open trace node is lost. -/
structure Moves (R : Ledger → Ledger → Prop) (m m' : Machine) : Prop where
  ledger : R m.view.ledger m'.view.ledger
  depth : m'.depth = m.depth
  tracer : m.tracer.Carries m'.tracer

instance [IsPreorder Ledger R] : IsPreorder Machine (Moves R) where
  refl m := ⟨(Std.Refl.refl m.view.ledger : R _ _), rfl, Std.Refl.refl m.tracer⟩
  trans _ _ _ h h' := ⟨IsTrans.trans _ _ _ h.ledger h'.ledger, h'.depth.trans h.depth,
    IsTrans.trans _ _ _ h.tracer h'.tracer⟩

theorem Touches.mono (h : m.Touches R m') (hR : ∀ {l l'}, R l l' → R' l l') : m.Touches R' m' :=
  ⟨hR h.ledger, h.rest⟩

/-- Nothing but the view and the trace is different. -/
def Opens (m m' : Machine) : Prop := m' = { m with view := m'.view, tracer := m'.tracer }

instance : IsPreorder Machine Opens where
  refl _ := rfl
  trans first second third h h' := by
    calc
      third = { second with view := third.view, tracer := third.tracer } := h'
      _ = { first with view := third.view, tracer := third.tracer } := by rw [h]

theorem Opens.cancelled (h : m.Opens m') : m'.cancelled = m.cancelled := by rw [h]

theorem Touches.opens (h : m.Touches R m') : m.Opens m' := by
  rw [h.rest]
  rfl

theorem Touches.depth (h : m.Touches R m') : m'.depth = m.depth := by rw [h.rest]

theorem Touches.tracer (h : m.Touches R m') : m'.tracer = m.tracer := by rw [h.rest]

theorem Touches.moves (h : m.Touches R m') : m.Moves R m' where
  ledger := h.ledger
  depth := h.depth
  tracer := by
    rw [h.tracer]
    exact Std.Refl.refl m.tracer

end Machine

namespace Exec

variable {R : Ledger → Ledger → Prop} {α : Type} {m m' : Machine}

theorem meets_view {x : View.Step α} (h : x.Meets (View.Touches R) fun _ => True) :
    (Exec.view x).Meets (Machine.Touches R) Internal :=
  (h.inside fun _ _ h => ⟨h, rfl⟩).mapError fun _ => rfl

/-- An operation of the ledger that keeps all balances. -/
theorem meets_op [Ledger.Admits store R] {access : Access} {x : Ledger.Step α} {f : α → Answer}
    (op : LedgerOp) (hop : op.KeepsBalances) (h : op.perform store = x >>= fun a => pure (f a)) :
    (Exec.view (View.watched access x)).Meets (Machine.Touches R) Internal :=
  meets_view (View.meets_watched (Ledger.admits_of_perform op hop h))

/-- An operation of the ledger that only reads. -/
theorem meets_read {access : Access} {x : Ledger.Step α} {f : α → Answer} (op : LedgerOp)
    (hop : op.Reads) (h : op.perform store = x >>= fun a => pure (f a)) :
    (Exec.view (View.watched access x)).Meets (Machine.Touches (Ledger.LooksIf store)) Internal :=
  meets_view (View.looksIf_op op hop h)

/-! A step of the view, as a step of the machine. -/

theorem view_of_ok {x : View.Step α} {a : α} {v : View} (h : x m.view = (.ok a, v)) :
    Exec.view x m = (.ok a, { m with view := v }) := by
  simp only [Exec.view, Attempt.mapError_apply, Attempt.inside_apply, h]
  rfl

theorem view_of_error {x : View.Step α} {e : InternalError} {v : View}
    (h : x m.view = (.error e, v)) :
    Exec.view x m = (.error (.internal e), { m with view := v }) := by
  simp only [Exec.view, Attempt.mapError_apply, Attempt.inside_apply, h]
  rfl

theorem view_rest {x : View.Step α} {r : Except CallError α} (h : Exec.view x m = (r, m')) :
    m' = { m with view := m'.view } := by
  obtain ⟨-, rfl⟩ := Prod.mk.inj h
  rfl

/-- A step of the view that has succeeded. -/
theorem view_eq {x : View.Step α} {a : α} (h : Exec.view x m = (.ok a, m')) :
    x m.view = (.ok a, m'.view) ∧ m' = { m with view := m'.view } := by
  refine ⟨?_, view_rest h⟩
  obtain ⟨hanswer, rfl⟩ := Prod.mk.inj h
  refine Prod.ext ?_ rfl
  change ((x m.view).1.mapError CallError.internal) = .ok a at hanswer
  show (x m.view).1 = .ok a
  cases hx : (x m.view).1 with
  | error e =>
    rw [hx] at hanswer
    cases hanswer
  | ok b =>
    rw [hx] at hanswer
    cases hanswer
    rfl

/-- A watched step of the ledger that has failed. -/
theorem watched_error {access : Access} {x : Ledger.Step α} {e : CallError}
    (h : Exec.view (View.watched access x) m = (.error e, m')) :
    ∃ e', x m.view.ledger = (.error e', m'.view.ledger) := by
  rcases hx : x m.view.ledger with ⟨e' | a, l⟩
  · obtain ⟨-, rfl⟩ := Prod.mk.inj h
    exact ⟨e', Prod.ext rfl (congrArg Prod.snd hx).symm⟩
  · have hanswer : ((View.watched access x m.view).1.mapError CallError.internal) = .error e :=
      congrArg Prod.fst h
    rw [View.watched_apply hx] at hanswer
    cases hanswer

/-- What a watched step leaves is what the step of the ledger leaves. -/
theorem watched_ledger {access : Access} {x : Ledger.Step α} {r : Except CallError α}
    (h : Exec.view (View.watched access x) m = (r, m')) :
    m'.view.ledger = (x m.view.ledger).2 := by
  obtain ⟨-, rfl⟩ := Prod.mk.inj h
  rfl

/-- A watched step of the ledger that has succeeded. -/
theorem watched_eq {access : Access} {x : Ledger.Step α} {a : α}
    (h : Exec.view (View.watched access x) m = (.ok a, m')) :
    x m.view.ledger = (.ok a, m'.view.ledger) ∧ m' = { m with view := m'.view } := by
  obtain ⟨hview, hrest⟩ := view_eq h
  obtain ⟨hanswer, hafter⟩ := Prod.mk.inj hview
  exact ⟨Prod.ext hanswer (congrArg View.ledger hafter), hrest⟩

end Exec

end MessageCall
