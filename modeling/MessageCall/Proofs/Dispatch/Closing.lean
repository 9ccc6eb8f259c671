import MessageCall.Proofs.Dispatch.Opening

/-!
# The end of an operation

Once a frame's code has run, the operation keeps what the code did or goes back to the snapshot.
This module inverts that decision. `Operation.Ends` lists the ways in which an operation whose frame
has run can end with a result, and `Operation.closing_ok` shows that there are no others.

An operation may also end with an internal error, and then nothing is undone. What holds of the
machine in either case is `Operation.closing_meets`. It is stated relative to the machine that the
snapshot is of, since going back leads there, wherever the code went.
-/

namespace MessageCall

/-- The errors that running code ends with: faults of its own, and internal errors. -/
def Halting (e : CallError) : Prop := (∃ fault, e = .fault fault) ∨ Internal e

/-- The machines around running code are related. -/
def Active.Moves (R : Ledger → Ledger → Prop) (a a' : Active) : Prop :=
  a.machine.Moves R a'.machine

instance {R : Ledger → Ledger → Prop} [IsPreorder Ledger R] :
    IsPreorder Active (Active.Moves R) where
  refl a := (Std.Refl.refl a.machine : a.machine.Moves R a.machine)
  trans _ _ _ h h' := (IsTrans.trans _ _ _ h h' : Machine.Moves R _ _)

/-- The active frame with its machine at another nesting level. -/
def Active.atDepth (depth : Nat) (a : Active) : Active :=
  { a with machine := { a.machine with depth } }

/-- What a machine is related to stays so. -/
def Machine.Stays (R : Ledger → Ledger → Prop) (m₀ m m' : Machine) : Prop :=
  m₀.Moves R m → m₀.Moves R m'

instance {R : Ledger → Ledger → Prop} {m₀ : Machine} : IsPreorder Machine (m₀.Stays R) where
  refl _ := id
  trans _ _ _ h h' := h' ∘ h

section

variable {s : Setting} {op : Operation} {run : Runner} {frame : CallFrame} {m₀ m m' : Machine}
  {a a' : Active} {input : Bytes} {snapshot : Ledger.Snapshot} {R : Ledger → Ledger → Prop}

/-! ### What the last part may do -/

namespace Running

/-- A step of the dispatcher made by running code. -/
theorem meets_exec {α : Type} {E : CallError → Prop} {x : Exec α}
    (h : x.Meets (Machine.Moves R) E) : (Running.exec x).Meets (Active.Moves R) E :=
  h.inside fun _ _ h => h

theorem nested_of_cancelled (h : a.machine.cancelled = true) :
    nested run input a = (.error (.fault .cancelled), a) := if_pos h

theorem nested_of_depth (h : ¬ a.machine.cancelled = true)
    (hdepth : ¬ a.machine.depth + 1 < UInt64.size) :
    nested run input a = (.error (.internal .overflow), a) :=
  (if_neg h).trans (if_neg hdepth)

/-- A nested run that starts is the run one level deeper. -/
theorem nested_of_run (h : ¬ a.machine.cancelled = true)
    (hdepth : a.machine.depth + 1 < UInt64.size) :
    nested run input a =
      ((run input (a.atDepth (a.machine.depth + 1))).1,
        (run input (a.atDepth (a.machine.depth + 1))).2.atDepth a.machine.depth) :=
  (if_neg h).trans (if_pos hdepth)

/-- The nesting level is the same after a nested run, whatever it was given back. -/
theorem nested_meets [IsPreorder Ledger R]
    (hrun : ∀ input, (run input).Meets (Active.Moves R) Halting) (input : Bytes) :
    (nested run input).Meets (Active.Moves R) Halting where
  keeps a := by
    -- A run that does not start leaves everything as it is.
    by_cases hcancelled : a.machine.cancelled = true
    · rw [nested_of_cancelled hcancelled]
      exact Std.Refl.refl a
    · by_cases hdepth : a.machine.depth + 1 < UInt64.size
      · rw [nested_of_run hcancelled hdepth]
        have hmoves := (hrun input).keeps (a.atDepth (a.machine.depth + 1))
        exact ⟨hmoves.ledger, rfl, hmoves.tracer⟩
      · rw [nested_of_depth hcancelled hdepth]
        exact Std.Refl.refl a
  -- Besides the errors of the run there are those of the two checks.
  error {a e} he := by
    by_cases hcancelled : a.machine.cancelled = true
    · rw [nested_of_cancelled hcancelled] at he
      cases he
      exact .inl ⟨_, rfl⟩
    · by_cases hdepth : a.machine.depth + 1 < UInt64.size
      · rw [nested_of_run hcancelled hdepth] at he
        exact (hrun input).error he
      · rw [nested_of_depth hcancelled hdepth] at he
        cases he
        exact .inr rfl

variable [Ledger.Admits s.store R]

theorem deposit_meets (address : Address) (code : Bytes) :
    (deposit s address code).Meets (Active.Moves R) Internal := by
  refine .bind .get fun a => .ite (.pure _) ?_
  dsimp only
  split
  · exact .pure _
  · refine .bind ⟨fun a => (Std.Refl.refl a.machine : a.machine.Moves R a.machine), ?_⟩ fun _ => ?_
    · intro _ _ he
      cases he
    · refine .bind (meets_exec ?_) fun _ => .pure _
      exact (Exec.meets_op (f := fun _ => .done) (.setCode address code) trivial rfl).mono
        Machine.Touches.moves id

theorem install_meets (hrun : ∀ input, (run input).Meets (Active.Moves R) Halting)
    (address : Address) : (install s run address).Meets (Active.Moves R) Internal := by
  refine .bind (nested_meets hrun []).outcome fun r => ?_
  cases r with
  | ok code => exact deposit_meets address code
  | error e => exact .pure _

end Running

namespace Exec

/-- Settling a frame stays within the reach of the machine that the snapshot is of. -/
theorem settle_meets [Ledger.Returns R] (frame : CallFrame) (e : CallError) :
    (settle frame m₀.view.ledger.snapshot e).Meets (m₀.Stays R) Internal := by
  have hrevert : (Exec.view (View.revertTo m₀.view.ledger.snapshot)).Meets (m₀.Stays R) Internal :=
    { keeps := fun _ h => ⟨Ledger.Returns.back (Std.Refl.refl _) h.ledger, h.depth, h.tracer⟩
      error := fun he => (meets_view (R := Ledger.Unrelated)
        ⟨fun _ => trivial, fun _ => trivial⟩).error he }
  unfold settle
  by_cases he : e.propagates = true
  · -- An internal error passes through, and the ledger stays where the code has left it.
    rw [if_pos he]
    exact .throw he
  · rw [if_neg he]
    exact .bind hrevert fun _ => .pure _

theorem execute_meets [Ledger.Returns R]
    (hrun : ∀ input, (run input).Meets (Active.Moves R) Halting) (frame : CallFrame)
    (input : Bytes) :
    (execute run frame input m₀.view.ledger.snapshot).Meets (m₀.Stays R) Internal where
  -- What the code did is kept, or settled by going back to the start.
  keeps m h := by
    have hnested := (Running.nested_meets hrun input).keeps ⟨frame, m⟩
    unfold execute
    rcases hr : Running.nested run input ⟨frame, m⟩ with ⟨e | output, a⟩
    · rw [hr] at hnested
      exact (settle_meets a.frame e).keeps a.machine (IsTrans.trans _ _ _ h hnested)
    · rw [hr] at hnested
      exact IsTrans.trans _ _ _ h hnested
  -- Only settling the error of a run can fail.
  error {m e} he := by
    unfold execute at he
    rcases hr : Running.nested run input ⟨frame, m⟩ with ⟨e | output, a⟩
    · rw [hr] at he
      exact (settle_meets (R := R) a.frame e).error he
    · rw [hr] at he
      cases he

theorem settleCreation_meets [Ledger.Returns R] (address : Address) (frame : CallFrame)
    (error : Option CallError) :
    (settleCreation s address m₀.view.ledger.snapshot frame error).Meets (m₀.Stays R)
      Internal := by
  cases error with
  | none => exact .pure _
  | some e => exact .ite (.pure _) (.bind (settle_meets frame e) fun _ => .pure _)

end Exec

namespace Operation

/-- The last part of a creation: what running and storing its code came to is settled. -/
theorem closing_create (caller : Address) (initCode : Bytes) (gas : Gas) (value : Word) :
    (Operation.create caller initCode gas value).closing s run frame snapshot m =
      match Running.install s run frame.account { frame, machine := m } with
      | (.ok error, a) => Exec.settleCreation s frame.account snapshot a.frame error a.machine
      | (.error e, a) => (.error e, a.machine) := rfl

/-- The last part of any other operation. -/
theorem closing_call (h : op.callType ≠ .create) : op.closing s run frame snapshot =
    (Exec.execute run frame op.codeInput snapshot >>= fun result => pure { result }) := by
  cases op with
  | create => exact absurd rfl h
  | call => rfl
  | callCode => rfl
  | delegateCall => rfl

/-- **What the last part may do.** It stays within the reach of the machine that the snapshot is of,
and it fails with internal errors only. -/
theorem closing_meets [Ledger.Admits s.store R]
    (hrun : ∀ input, (run input).Meets (Active.Moves R) Halting) (op : Operation)
    (frame : CallFrame) :
    (op.closing s run frame m₀.view.ledger.snapshot).Meets (m₀.Stays R) Internal := by
  cases op with
  | create caller initCode gas value =>
    have hinstall := Running.install_meets (s := s) hrun frame.account
    -- First the code is run and stored, and then the error of that is settled.
    refine ⟨fun m h => ?_, fun {m e} he => ?_⟩
    · have hinstalled := hinstall.keeps ⟨frame, m⟩
      rw [closing_create]
      rcases hr : Running.install s run frame.account ⟨frame, m⟩ with ⟨e | error, a⟩
      · rw [hr] at hinstalled
        exact IsTrans.trans _ _ _ h hinstalled
      · rw [hr] at hinstalled
        exact (Exec.settleCreation_meets _ _ _).keeps _ (IsTrans.trans _ _ _ h hinstalled)
    · rw [closing_create] at he
      rcases hr : Running.install s run frame.account ⟨frame, m⟩ with ⟨e' | error, a⟩
      · rw [hr] at he
        cases he
        exact hinstall.error (congrArg Prod.fst hr)
      · rw [hr] at he
        exact (Exec.settleCreation_meets (R := R) _ _ _).error he
  -- A call of any kind settles its run and returns it.
  | call => exact .bind (Exec.execute_meets hrun frame _) fun _ => .pure _
  | callCode => exact .bind (Exec.execute_meets hrun frame _) fun _ => .pure _
  | delegateCall => exact .bind (Exec.execute_meets hrun frame _) fun _ => .pure _

end Operation

/-! ### How an operation ends whose frame has run -/

/-- **The ways to be aborted** after the code has ended with `r` in the state `a`. -/
inductive Operation.Aborts (s : Setting) (address : Address) (snapshot : Ledger.Snapshot)
    (a : Active) : Except CallError Bytes → CallError → Machine → Prop
  /-- The code itself was aborted. -/
  | passed {e : CallError} (he : Internal e) : Aborts s address snapshot a (.error e) e a.machine
  /-- A creation could not store its code. -/
  | unstored {code : Bytes} {e : CallError} {m : Machine}
    (hset : Exec.view (View.setCode s.store address code) a.machine = (.error e, m)) :
    Aborts s address snapshot a (.ok code) e m
  /-- The ledger could not go back to the snapshot. -/
  | stuck {r : Except CallError Bytes} {e : CallError} {m : Machine}
    (hrevert : Exec.view (View.revertTo snapshot) a.machine = (.error e, m)) :
    Aborts s address snapshot a r e m

/-- The address that an operation reports once its frame has run. -/
def Operation.newAddress (op : Operation) (address : Address) : Option Address :=
  if op.callType = .create then some address else none

theorem Operation.derived?_of_started
    (h : op.opening s m = (.ok (.started frame snapshot), m')) :
    op.derived? s m = op.newAddress frame.account := by
  by_cases hop : op.callType = .create
  · have hnew : op.newAddress frame.account = some frame.account := if_pos hop
    rw [hnew]
    obtain ⟨m₁, hrefusal, hprepare⟩ := opening_prepared h
    cases op with
    | create =>
      obtain ⟨_, _, heq, hderived⟩ := derived?_of_prepared hrefusal hprepare
      cases heq
      exact hderived
    | _ => cases hop
  · rw [derived?_of_call hop]
    exact (if_neg hop).symm

/-- **The ways to end with a result** after the code has ended with `r` in the state `a`. -/
inductive Operation.Ends (s : Setting) (op : Operation) (address : Address)
    (snapshot : Ledger.Snapshot) (a : Active) : Except CallError Bytes → Outcome → Machine → Prop
  /-- A call's code has run to its end. -/
  | returned {output : Bytes} (hop : op.callType ≠ .create) :
    Ends s op address snapshot a (.ok output) { result := .success a.frame output } a.machine
  /-- A creation has stored its code, at its price. -/
  | installed {code : Bytes} {cost : Gas} {frame : CallFrame} {m : Machine}
    (hop : op.callType = .create)
    (hcost : codeDepositCost code.length s.limits.createDataGas = .ok cost)
    (hpaid : a.frame.charge? cost = some frame)
    (hset : Exec.view (View.setCode s.store address code) a.machine = (.ok (), m)) :
    Ends s op address snapshot a (.ok code)
      { result := .success frame [], address := some address } m
  /-- A creation could not pay for its code, and its account stays without it. -/
  | bare {r : Except CallError Bytes} (hop : op.callType = .create)
    (hr : (∃ code, r = .ok code) ∨ r = .error .codeStoreOutOfGas) :
    Ends s op address snapshot a r
      { result := .success a.frame [], address := some address,
        depositError := some .codeStoreOutOfGas } a.machine
  /-- The operation has failed, and the ledger has gone back to the snapshot. -/
  | undone {r : Except CallError Bytes} {e : CallError} {m : Machine}
    (hr : r = .error e ∨
      (∃ code, r = .ok code) ∧ (e = .codeSizeExceeded ∨ e = .codeStoreOutOfGas))
    (he : ¬ Internal e)
    (hrevert : Exec.view (View.revertTo snapshot) a.machine = (.ok (), m)) :
    Ends s op address snapshot a r
      { result := .failure a.frame.exhaust e, address := op.newAddress address } m

/-- A run that is followed by a result was not aborted. -/
theorem Operation.Ends.not_internal {address : Address} {r : Except CallError Bytes} {o : Outcome}
    (h : op.Ends s address snapshot a r o m') : ∀ e, r = .error e → ¬ Internal e := by
  intro e he
  cases h with
  | returned => cases he
  | installed => cases he
  | bare _ hr =>
    -- The error that leaves the account without code is not an internal one.
    rcases hr with ⟨code, rfl⟩ | rfl
    · cases he
    · cases he
      exact nofun
  | undone hr hinternal =>
    rcases hr with rfl | ⟨⟨code, rfl⟩, -⟩
    · cases he
      exact hinternal
    · cases he

/-- Every operation whose frame has run reports the address that it should. -/
theorem Operation.Ends.address_eq {address : Address} {r : Except CallError Bytes} {o : Outcome}
    (h : op.Ends s address snapshot a r o m') : o.address = op.newAddress address := by
  cases h with
  | returned hop => exact (if_neg hop).symm
  | installed hop => exact (if_pos hop).symm
  | bare hop => exact (if_pos hop).symm
  | undone => rfl

/-- Nothing but the view changes when an operation ends. -/
theorem Operation.Ends.rest_eq {address : Address} {r : Except CallError Bytes} {o : Outcome}
    (h : op.Ends s address snapshot a r o m') : m' = { a.machine with view := m'.view } := by
  cases h with
  | returned => rfl
  | installed _ _ _ hset => exact Exec.view_rest hset
  | bare => rfl
  | undone _ _ hrevert => exact Exec.view_rest hrevert

/-- Nor does anything else change when it is aborted. -/
theorem Operation.Aborts.rest_eq {address : Address} {r : Except CallError Bytes} {e : CallError}
    (h : Aborts s address snapshot a r e m') : m' = { a.machine with view := m'.view } := by
  cases h with
  | passed => rfl
  | unstored hset => exact Exec.view_rest hset
  | stuck hrevert => exact Exec.view_rest hrevert

/-- So nothing but the view changes, whatever comes of an operation whose code has run. -/
theorem Operation.rest_eq_of_ran {address : Address} {r : Except CallError Bytes}
    {result : Except CallError Outcome}
    (hends : ∀ o, result = .ok o → op.Ends s address snapshot a r o m')
    (haborts : ∀ e, result = .error e → Aborts s address snapshot a r e m') :
    m' = { a.machine with view := m'.view } := by
  cases result with
  | ok o => exact (hends o rfl).rest_eq
  | error e => exact (haborts e rfl).rest_eq

/-- An operation that fails after its frame was prepared has gone back to its snapshot. -/
theorem Operation.Ends.back_of_error {address : Address} {r : Except CallError Bytes} {o : Outcome}
    (h : op.Ends s address snapshot a r o m') {e : CallError} (herror : o.result.error? = some e) :
    m'.view.ledger = (Ledger.revertTo snapshot a.machine.view.ledger).2 := by
  cases h with
  | returned => cases herror
  | installed => cases herror
  | bare => cases herror
  | undone _ _ hrevert => exact (congrArg Prod.snd (Exec.watched_eq hrevert).1).symm

/-- The error of a frame that was undone is not that of a refusal. -/
theorem Operation.refuses_of_undone {r : Except CallError Bytes} {e : CallError}
    (hr : r = .error e ∨
      (∃ code, r = .ok code) ∧ (e = .codeSizeExceeded ∨ e = .codeStoreOutOfGas))
    (hhalting : ∀ e, r = .error e → Halting e) (hinternal : ¬ Internal e) : e.refuses = false := by
  rcases hr with rfl | ⟨-, rfl | rfl⟩
  · rcases hhalting e rfl with ⟨fault, rfl⟩ | he
    · rfl
    · exact absurd he hinternal
  · rfl
  · rfl

theorem Exec.settle_ok {e : CallError} {result : CallResult}
    (h : settle frame snapshot e m = (.ok result, m')) :
    ¬ Internal e ∧ result = .failure frame.exhaust e ∧
      Exec.view (View.revertTo snapshot) m = (.ok (), m') := by
  unfold settle at h
  by_cases he : e.propagates = true
  · rw [if_pos he] at h
    cases h
  · rw [if_neg he] at h
    obtain ⟨_, m₁, hrevert, h⟩ := Attempt.bind_eq_ok h
    cases h
    exact ⟨he, rfl, hrevert⟩

theorem Exec.settle_error {e e' : CallError}
    (h : settle frame snapshot e m = (.error e', m')) :
    (Internal e ∧ e' = e ∧ m' = m) ∨
      Exec.view (View.revertTo snapshot) m = (.error e', m') := by
  unfold settle at h
  by_cases he : e.propagates = true
  · rw [if_pos he] at h
    cases h
    exact .inl ⟨he, rfl, rfl⟩
  · rw [if_neg he] at h
    refine .inr ((Attempt.bind_eq_error h).resolve_right ?_)
    rintro ⟨_, _, -, hdone⟩
    cases hdone

theorem Exec.settleCreation_error {address : Address} {error : Option CallError} {e' : CallError}
    (h : settleCreation s address snapshot frame error m = (.error e', m')) :
    (Internal e' ∧ error = some e' ∧ m' = m) ∨
      Exec.view (View.revertTo snapshot) m = (.error e', m') := by
  cases error with
  | none => cases h
  | some e =>
    simp only [settleCreation] at h
    split at h
    · cases h
    · rcases Attempt.bind_eq_error h with hsettle | ⟨_, _, -, hdone⟩
      · refine (settle_error hsettle).imp_left ?_
        rintro ⟨he, rfl, rfl⟩
        exact ⟨he, rfl, rfl⟩
      · cases hdone

theorem Exec.settleCreation_ok {address : Address} {error : Option CallError} {o : Outcome}
    (h : settleCreation s address snapshot frame error m = (.ok o, m')) :
    (error = none ∧ o = { result := .success frame [], address := some address } ∧ m' = m) ∨
      (error = some .codeStoreOutOfGas ∧ m' = m ∧ o = {
        result := .success frame []
        address := some address
        depositError := some .codeStoreOutOfGas }) ∨
      ∃ e, error = some e ∧ ¬ Internal e ∧
        o = { result := .failure frame.exhaust e, address := some address } ∧
        Exec.view (View.revertTo snapshot) m = (.ok (), m') := by
  cases error with
  | none =>
    cases h
    exact .inl ⟨rfl, rfl, rfl⟩
  | some e =>
    simp only [settleCreation] at h
    -- Under rules that do not revert it, a deposit that is too dear keeps the account.
    by_cases hkept : e = .codeStoreOutOfGas ∧ ¬ s.rules.codeStoreReverts = true
    · rw [if_pos hkept] at h
      cases h
      exact .inr (.inl ⟨congrArg some hkept.1, rfl, rfl⟩)
    · -- Every other error goes back to the snapshot, unless it is internal.
      rw [if_neg hkept] at h
      obtain ⟨result, m₁, hsettle, h⟩ := Attempt.bind_eq_ok h
      cases h
      obtain ⟨he, rfl, hrevert⟩ := settle_ok hsettle
      exact .inr (.inr ⟨e, rfl, he, rfl, hrevert⟩)

namespace Running

variable {address : Address} {code : Bytes} {error : Option CallError}

/-- Code that is too large, or that cannot be paid for, is not stored, and any other code is stored
once it has been paid for. -/
theorem deposit_apply (s : Setting) (address : Address) (code : Bytes) (a : Active) :
    (∃ e, deposit s address code a = (.ok (some e), a) ∧
      (e = .codeSizeExceeded ∨ e = .codeStoreOutOfGas)) ∨
    ∃ cost frame, codeDepositCost code.length s.limits.createDataGas = .ok cost ∧
      a.frame.charge? cost = some frame ∧
      deposit s address code a =
        (Running.exec (Exec.view (View.setCode s.store address code)) >>= fun _ => pure none)
          { a with frame } := by
  unfold deposit
  rw [Attempt.bind_of_ok (Attempt.get_apply a)]
  -- The length of the code is looked at before its price.
  by_cases hsize : s.limits.maxCodeSize.toNat < code.length
  · simp only [if_pos hsize]
    exact .inl ⟨_, rfl, .inl rfl⟩
  · simp only [if_neg hsize]
    cases hcost : codeDepositCost code.length s.limits.createDataGas with
    -- A price that is no amount of gas counts as one that cannot be paid.
    | error e => exact .inl ⟨_, rfl, .inr rfl⟩
    | ok cost =>
      dsimp only
      cases hpaid : a.frame.charge? cost with
      | none => exact .inl ⟨_, rfl, .inr rfl⟩
      | some frame => exact .inr ⟨cost, frame, rfl, hpaid, rfl⟩

theorem deposit_cases (h : deposit s address code a = (.ok error, a')) :
    (∃ e, error = some e ∧ (e = .codeSizeExceeded ∨ e = .codeStoreOutOfGas) ∧ a' = a) ∨
      error = none ∧ ∃ cost, codeDepositCost code.length s.limits.createDataGas = .ok cost ∧
        a.frame.charge? cost = some a'.frame ∧
        Exec.view (View.setCode s.store address code) a.machine = (.ok (), a'.machine) := by
  rcases deposit_apply s address code a with ⟨e, heq, hkind⟩ | ⟨cost, frame, hcost, hpaid, heq⟩
  · rw [heq] at h
    cases h
    exact .inl ⟨e, rfl, hkind, rfl⟩
  · rw [heq] at h
    obtain ⟨_, a₁, hset, h⟩ := Attempt.bind_eq_ok h
    cases h
    obtain ⟨hanswer, rfl⟩ := Prod.mk.inj hset
    exact .inr ⟨rfl, cost, hcost, hpaid, Prod.ext hanswer rfl⟩

theorem deposit_error {e : CallError} (h : deposit s address code a = (.error e, a')) :
    Exec.view (View.setCode s.store address code) a.machine = (.error e, a'.machine) := by
  rcases deposit_apply s address code a with ⟨_, heq, -⟩ | ⟨cost, frame, -, -, heq⟩
  · rw [heq] at h
    cases h
  · rw [heq] at h
    rcases Attempt.bind_eq_error h with hset | ⟨_, _, -, hdone⟩
    · obtain ⟨hanswer, rfl⟩ := Prod.mk.inj hset
      exact Prod.ext hanswer rfl
    · cases hdone

theorem install_error {r : Except CallError Bytes} {a₁ : Active} {e : CallError}
    (hr : nested run [] a = (r, a₁)) (h : install s run address a = (.error e, a')) :
    ∃ code, r = .ok code ∧ deposit s address code a₁ = (.error e, a') := by
  obtain ⟨r', a₂, hr', h⟩ := (Attempt.bind_eq_error h).resolve_left nofun
  rw [Attempt.outcome_apply, hr] at hr'
  cases hr'
  cases r with
  | error e => cases h
  | ok code => exact ⟨code, rfl, h⟩

theorem install_cases {r : Except CallError Bytes} {a₁ : Active}
    (hr : nested run [] a = (r, a₁)) (h : install s run address a = (.ok error, a')) :
    (∃ e, r = .error e ∧ error = some e ∧ a' = a₁) ∨
      ∃ code, r = .ok code ∧ deposit s address code a₁ = (.ok error, a') := by
  obtain ⟨r', a₂, hr', h⟩ := Attempt.bind_eq_ok h
  rw [Attempt.outcome_apply, hr] at hr'
  cases hr'
  cases r with
  | error e =>
    cases h
    exact .inl ⟨e, rfl, rfl, rfl⟩
  | ok code => exact .inr ⟨code, rfl, h⟩

end Running

namespace Operation

variable {r : Except CallError Bytes} {o : Outcome}

/-- **The end of an operation** with a result, read off from how its code has ended. -/
theorem closing_ok (hr : Running.nested run op.codeInput { frame, machine := m } = (r, a))
    (h : op.closing s run frame snapshot m = (.ok o, m')) :
    op.Ends s frame.account snapshot a r o m' := by
  by_cases hop : op.callType = .create
  · have hnew : op.newAddress frame.account = some frame.account := if_pos hop
    cases op with
    | create caller initCode gas value =>
      rw [closing_create] at h
      rcases hinstall : Running.install s run frame.account ⟨frame, m⟩ with ⟨e | error, a₁⟩
      · rw [hinstall] at h
        cases h
      · rw [hinstall] at h
        -- What the code came to and how the creation was settled exclude most combinations.
        have hsettled := Exec.settleCreation_ok h
        rcases Running.install_cases hr hinstall with ⟨e, rfl, rfl, rfl⟩ | ⟨code, rfl, hdeposit⟩
        · -- The code failed: either the account is kept, or the creation is undone.
          rcases hsettled with ⟨he, -⟩ | ⟨he, rfl, rfl⟩ | ⟨e', he, hinternal, rfl, hrevert⟩
          · cases he
          · cases he
            exact .bare hop (.inr rfl)
          · cases he
            rw [← hnew]
            exact .undone (.inl rfl) hinternal hrevert
        · rcases Running.deposit_cases hdeposit with
            ⟨e, rfl, hkind, rfl⟩ | ⟨rfl, cost, hcost, hpaid, hset⟩
          · -- The code ran but was not stored.
            rcases hsettled with ⟨he, -⟩ | ⟨-, rfl, rfl⟩ | ⟨e', he, hinternal, rfl, hrevert⟩
            · cases he
            · exact .bare hop (.inl ⟨code, rfl⟩)
            · cases he
              rw [← hnew]
              exact .undone (.inr ⟨⟨code, rfl⟩, hkind⟩) hinternal hrevert
          · -- The code was stored, so there was no error to settle.
            rcases hsettled with ⟨-, rfl, rfl⟩ | ⟨he, -⟩ | ⟨e', he, -⟩
            · exact .installed hop hcost hpaid hset
            · cases he
            · cases he
    | _ => cases hop
  · -- A call returns what its code returned, or is undone for the error of it.
    rw [closing_call hop] at h
    obtain ⟨result, m₁, hexecute, h⟩ := Attempt.bind_eq_ok h
    cases h
    unfold Exec.execute at hexecute
    rw [hr] at hexecute
    cases r with
    | ok output =>
      cases hexecute
      exact .returned hop
    | error e =>
      obtain ⟨he, rfl, hrevert⟩ := Exec.settle_ok hexecute
      have hnew : none = op.newAddress frame.account := (if_neg hop).symm
      rw [hnew]
      exact .undone (.inl rfl) he hrevert

/-- **The end of an operation that is aborted** once its code has run. -/
theorem closing_error {e : CallError}
    (hr : Running.nested run op.codeInput { frame, machine := m } = (r, a))
    (h : op.closing s run frame snapshot m = (.error e, m')) :
    Aborts s frame.account snapshot a r e m' := by
  by_cases hop : op.callType = .create
  · cases op with
    | create caller initCode gas value =>
      rw [closing_create] at h
      rcases hinstall : Running.install s run frame.account ⟨frame, m⟩ with ⟨e | error, a₁⟩
      · rw [hinstall] at h
        cases h
        obtain ⟨code, rfl, hdeposit⟩ := Running.install_error hr hinstall
        exact .unstored (Running.deposit_error hdeposit)
      · rw [hinstall] at h
        have hsettled := Exec.settleCreation_error h
        -- The failed code itself may have been stopped by an internal error.
        rcases Running.install_cases hr hinstall with ⟨e', rfl, rfl, rfl⟩ | ⟨code, rfl, hdeposit⟩
        · rcases hsettled with ⟨he, heq, rfl⟩ | hrevert
          · cases heq
            exact .passed he
          · exact .stuck hrevert
        · -- The errors of storing code are settled, so only going back can have failed.
          rcases Running.deposit_cases hdeposit with ⟨e', rfl, hkind, rfl⟩ | ⟨rfl, -⟩
          · rcases hsettled with ⟨he, heq, -⟩ | hrevert
            · cases heq
              rcases hkind with rfl | rfl <;> cases he
            · exact .stuck hrevert
          · cases h
    | _ => cases hop
  · -- A call passes an internal error on, or fails in going back.
    rw [closing_call hop] at h
    have hexecute := (Attempt.bind_eq_error h).resolve_right (by rintro ⟨_, _, -, ⟨⟩⟩)
    unfold Exec.execute at hexecute
    rw [hr] at hexecute
    cases r with
    | ok output => cases hexecute
    | error e' =>
      rcases Exec.settle_error hexecute with ⟨he, rfl, rfl⟩ | hrevert
      · exact .passed he
      · exact .stuck hrevert

end Operation

end

end MessageCall
