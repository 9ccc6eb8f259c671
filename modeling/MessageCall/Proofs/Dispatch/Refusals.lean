import MessageCall.Proofs.Dispatch.CallTree
import MessageCall.Proofs.State.Atomicity

/-!
# Refused operations touch nothing

The entry check of an operation has three guards in a fixed order: whether operations may be nested
at all, whether the nesting is too deep, and whether the transfer policy lets the value go. An
operation that one of them stops gets all of its gas back, has no address, and its code does not
run. Of the ledger nothing is asked but what the policy reads to decide, and that only by the last
guard. So nothing is looked for, created, written or undone, and no snapshot is taken.

A call of code in the caller's own account reports the caller's balance when its value may not go.
For that the balance is read once more after the policy has decided, and where the store fails to
answer then, there is nothing to report and the operation is aborted with the error
(`Operation.unread_not_refused`). This can only happen under a policy that has not read the balance
itself.

A call without value to an absent account ends in the same way where the rules say so, except that
it is only skipped after the absence of the account has been found out.

All of this is `Operation.Guarded`, and every operation is guarded if the policy only reads
(`Operation.refused_untouched`).
-/

namespace MessageCall

variable {store : Store}

/-! ### Policies that only read -/

/-- The later view has only read more, and nothing shows that it has. -/
structure View.ReadsOn (store : Store) (v v' : View) : Prop where
  accesses : ∃ addresses : List Address, v'.accesses = addresses.map Access.read ++ v.accesses
  reachable : Ledger.Reachable store v.ledger → Ledger.Reachable store v'.ledger
  untouched : Ledger.Reachable store v.ledger → Ledger.Untouched store v.ledger v'.ledger

namespace View.ReadsOn

variable {v v' v'' : View}

theorem refl (store : Store) (v : View) : ReadsOn store v v where
  accesses := ⟨[], rfl⟩
  reachable := id
  untouched _ := .refl store _

theorem trans (h : ReadsOn store v v') (h' : ReadsOn store v' v'') : ReadsOn store v v'' where
  accesses := by
    obtain ⟨as, has⟩ := h.accesses
    obtain ⟨as', has'⟩ := h'.accesses
    exact ⟨as' ++ as, by rw [has', has, List.map_append, List.append_assoc]⟩
  reachable hl := h'.reachable (h.reachable hl)
  untouched hl := (h.untouched hl).trans (h'.untouched (h.reachable hl))

/-- Reading a balance. -/
theorem balance (store : Store) (a : Address) (v : View) :
    ReadsOn store v (View.balance store a v).2 where
  accesses := ⟨[a], rfl⟩
  reachable hl := by
    have hop := hl.op (.balance a)
    rw [Ledger.perform_ledger (m := Ledger.balance store a) rfl] at hop
    exact hop
  untouched hl := by
    change Ledger.Untouched store v.ledger (Ledger.balance store a v.ledger).2
    rw [Ledger.balance, Ledger.snd_account_map]
    exact hl.sound.untouched_load a

end View.ReadsOn

namespace TransferPolicy

/-- A policy that only reads when it is asked, whatever it answers. -/
def OnlyReads (store : Store) (p : TransferPolicy) : Prop :=
  ∀ sender value v, View.ReadsOn store v (p.allows store sender value v).2

theorem balance_onlyReads : balance.OnlyReads store := by
  intro sender value v
  change View.ReadsOn store v
    ((View.balance store sender >>= fun b => pure (decide (value ≤ b))) v).2
  rw [Attempt.bind_pure_apply]
  exact .balance store sender v

theorem deny_onlyReads : deny.OnlyReads store := fun _ _ v => .refl store v

end TransferPolicy

/-! ### Operations that end at their opening -/

/-- The machine after an operation that has come no further than its opening. Of the trace, it has a
node of its own and nothing below. -/
def Machine.ended (m : Machine) (record : TraceRecord) (r : Except CallError Outcome) (v : View) :
    Machine :=
  { m with
    view := v
    tracer := ((m.tracer.enter record (m.depth = 0)).exit (r.map Outcome.result) (m.depth = 0)).2 }

theorem Exec.traced_of_view {body : Exec Outcome} {record : TraceRecord} {m : Machine}
    {r : Except CallError Outcome} {v : View}
    (h : body { m with tracer := m.tracer.enter record (m.depth = 0) } =
      (r, { m with view := v, tracer := m.tracer.enter record (m.depth = 0) })) :
    Exec.traced record body m = (r, m.ended record r v) := by
  -- The node that the tracer has opened is still there to be closed.
  have hopen : (m.tracer.enter record (m.depth = 0)).records (m.depth = 0) = true →
      (m.tracer.enter record (m.depth = 0)).frames ≠ [] := by
    rw [(m.tracer.enter_carries record _).records]
    exact Tracer.frames_of_enter
  have hclosed := (Tracer.exit_ok hopen (r.map Outcome.result)).1
  -- Closing it replaces its record, and the view is not touched.
  unfold traced Machine.ended
  rw [h]
  dsimp only
  rcases hexit : (m.tracer.enter record (m.depth = 0)).exit (r.map Outcome.result) (m.depth = 0)
    with ⟨closed, tracer⟩
  rw [hexit] at hclosed
  cases hclosed
  rfl

/-- The outcome gives back all gas, and there is nothing else in it but how it came to that. -/
structure Outcome.GivesBack (gas : Gas) (verdict : Verdict) (o : Outcome) : Prop where
  verdict : o.result.verdict = verdict
  gasLimit : o.result.gasLimit = gas
  gasLeft : o.result.gasLeft = gas
  output : o.result.output = []
  address : o.address = none
  depositError : o.depositError = none

/-- A result without used gas and without output gives back all gas. -/
theorem Outcome.givesBack (gas : Gas) (verdict : Verdict) :
    GivesBack gas verdict { result := { verdict, gasLimit := gas } } where
  verdict := rfl
  gasLimit := rfl
  gasLeft := Gas.left_zero gas
  output := rfl
  address := rfl
  depositError := rfl

namespace Operation

variable {s : Setting} {op : Operation} {m : Machine} {v : View}

/-- The operation stops at its opening with all gas given back, and leaves a view. Whatever would
have run its code is not asked to, and of the machine only the trace is different otherwise. -/
def Stops (s : Setting) (op : Operation) (m : Machine) (verdict : Verdict) (v : View) : Prop :=
  ∃ o : Outcome, o.GivesBack op.gas verdict ∧
    ∀ run, op.perform s run m = (.ok o, m.ended op.record (.ok o) v)

/-- The operation is aborted at its opening. -/
def AbortedWith (s : Setting) (op : Operation) (m : Machine) (e : CallError) (v : View) : Prop :=
  ∀ run, op.perform s run m = (.error e, m.ended op.record (.error e) v)

/-- An operation that its opening finishes is finished. -/
theorem stops_of_opening {verdict : Verdict}
    (h : op.opening s (op.entered m) =
      (.ok (.finished { verdict, gasLimit := op.gas }), { op.entered m with view := v })) :
    op.Stops s m verdict v := by
  refine ⟨_, Outcome.givesBack op.gas verdict, fun run => ?_⟩
  have hbody : op.body s run (op.entered m) =
      (.ok { result := { verdict, gasLimit := op.gas } }, { op.entered m with view := v }) := by
    rw [body, Attempt.bind_of_ok h]
    rfl
  rw [perform]
  exact Exec.traced_of_view hbody

theorem aborts_of_opening {e : CallError}
    (h : op.opening s (op.entered m) = (.error e, { op.entered m with view := v })) :
    op.AbortedWith s m e v := by
  intro run
  have hbody : op.body s run (op.entered m) = (.error e, { op.entered m with view := v }) := by
    rw [body, Attempt.bind_of_error h]
  rw [perform]
  exact Exec.traced_of_view hbody

/-! ### The three guards -/

/-- Nothing may be nested, and the operation is. -/
def Barred (s : Setting) (m : Machine) : Prop := s.limits.noRecursion = true ∧ 0 < m.depth

/-- The operation is nested too deeply. -/
def TooDeep (s : Setting) (m : Machine) : Prop := s.limits.maxCallDepth.toNat < m.depth

theorem refusal?_of_barred (h : Barred s m) (op : Operation) :
    op.refusal? s m = (.ok (some (.noOp op.gas)), m) := by
  obtain ⟨caller, value, detailed, heq, -⟩ := op.refusal?_eq s
  unfold Barred at h
  rw [heq]
  unfold Exec.refusal?
  rw [Attempt.bind_of_ok (Attempt.get_apply m)]
  simp only [if_pos h]
  rfl

theorem refusal?_of_tooDeep (h : ¬ Barred s m) (h' : TooDeep s m) (op : Operation) :
    op.refusal? s m = (.ok (some (.refused op.gas .depthExceeded)), m) := by
  obtain ⟨caller, value, detailed, heq, -⟩ := op.refusal?_eq s
  unfold Barred at h
  unfold TooDeep at h'
  rw [heq]
  unfold Exec.refusal?
  rw [Attempt.bind_of_ok (Attempt.get_apply m)]
  simp only [if_neg h, if_pos h']
  rfl

/-- Past the first two guards an operation that sends nothing passes. The policy is not asked. -/
theorem refusal?_of_sends_none (h : ¬ Barred s m) (h' : ¬ TooDeep s m)
    (hop : op.sends = none) : op.refusal? s m = (.ok none, m) := by
  unfold Barred at h
  unfold TooDeep at h'
  cases op with
  | delegateCall parent target input gas =>
    rw [refusal?]
    unfold Exec.refusal?
    rw [Attempt.bind_of_ok (Attempt.get_apply m)]
    simp only [if_neg h, if_neg h']
    rfl
  | _ => cases hop

/-- **The third guard**, which makes a refusal of the policy's answer if that is no. -/
def answered (s : Setting) (op : Operation) (caller : Address) (value : Word) (allowed : Bool) :
    Exec (Option CallResult) := do
  if allowed then return none
  else if op.callType = .callCode then
    let available ← Exec.view (View.balance s.store caller)
    return some (.refused op.gas (.insufficientBalance (some { requested := value, available })))
  else return some (.refused op.gas (.insufficientBalance none))

/-- Past the first two guards the policy is asked about what is sent. -/
theorem refusal?_of_sends (h : ¬ Barred s m) (h' : ¬ TooDeep s m) {caller : Address}
    {value : Word} (hop : op.sends = some (caller, value)) :
    op.refusal? s m = (Exec.view (s.env.transfers.allows s.store caller value) >>=
      op.answered s caller value) m := by
  unfold Barred at h
  unfold TooDeep at h'
  cases op with
  | delegateCall => cases hop
  | call | callCode | create =>
    cases hop
    rw [refusal?]
    unfold Exec.refusal?
    rw [Attempt.bind_of_ok (Attempt.get_apply m)]
    simp only [if_neg h, if_neg h']
    rfl

theorem answered_readsOn {caller : Address} {value : Word} {allowed : Bool}
    {result : Option CallResult} {m' : Machine}
    (h : op.answered s caller value allowed m = (.ok result, m')) :
    View.ReadsOn s.store m.view m'.view := by
  unfold answered at h
  split at h
  · cases h
    exact .refl s.store m.view
  · split at h
    · obtain ⟨available, m₁, hread, h⟩ := Attempt.bind_eq_ok h
      cases h
      have hreads := View.ReadsOn.balance s.store caller m.view
      rw [(Exec.view_eq hread).1] at hreads
      exact hreads
    · cases h
      exact .refl s.store m.view

/-- **The entry check only reads**, if the policy does. -/
theorem refusal?_readsOn (hp : s.env.transfers.OnlyReads s.store) {result : Option CallResult}
    {m' : Machine} (h : op.refusal? s m = (.ok result, m')) :
    View.ReadsOn s.store m.view m'.view := by
  -- By the guards in their order. The first two are decided without a look at the ledger.
  by_cases hbarred : Barred s m
  · rw [refusal?_of_barred hbarred] at h
    cases h
    exact .refl s.store m.view
  by_cases hdeep : TooDeep s m
  · rw [refusal?_of_tooDeep hbarred hdeep] at h
    cases h
    exact .refl s.store m.view
  -- Only a value that is sent has to be asked for.
  cases hop : op.sends with
  | none =>
    rw [refusal?_of_sends_none hbarred hdeep hop] at h
    cases h
    exact .refl s.store m.view
  | some sent =>
    rw [refusal?_of_sends hbarred hdeep hop] at h
    -- The policy only reads, and so does what is told of its answer.
    obtain ⟨allowed, m₁, hasked, h⟩ := Attempt.bind_eq_ok h
    have hreads := hp sent.1 sent.2 m.view
    rw [(Exec.view_eq hasked).1] at hreads
    exact hreads.trans (answered_readsOn h)

/-- The first two guards let the operation pass, and the policy, asked about what it sends, gives an
answer and leaves a view. -/
structure Asked (s : Setting) (op : Operation) (m : Machine) (caller : Address) (value : Word)
    (allowed : Bool) (v : View) : Prop where
  barred : ¬ Barred s m
  tooDeep : ¬ TooDeep s m
  sends : op.sends = some (caller, value)
  allows : s.env.transfers.allows s.store caller value m.view = (.ok allowed, v)

section Asked

variable {caller : Address} {value : Word} {allowed : Bool}

/-- To be asked shows nowhere, if the policy only reads. -/
theorem Asked.readsOn (hp : s.env.transfers.OnlyReads s.store)
    (h : op.Asked s m caller value allowed v) : View.ReadsOn s.store m.view v := by
  have hread := hp caller value m.view
  rw [h.allows] at hread
  exact hread

/-- The policy's answer goes to the third guard. -/
theorem Asked.refusal?_eq (h : op.Asked s m caller value allowed v) :
    op.refusal? s m = op.answered s caller value allowed { m with view := v } := by
  rw [refusal?_of_sends h.barred h.tooDeep h.sends]
  exact Attempt.bind_of_ok (Exec.view_of_ok h.allows)

/-- Entering a trace node is nothing that the guards look at. -/
theorem Asked.entered (h : op.Asked s m caller value allowed v) :
    op.Asked s (op.entered m) caller value allowed v :=
  ⟨h.barred, h.tooDeep, h.sends, h.allows⟩

theorem opening_of_refusal? {result : CallResult}
    (h : op.refusal? s m = (.ok (some result), { m with view := v })) :
    op.opening s m = (.ok (.finished result), { m with view := v }) := by
  rw [opening, Attempt.bind_of_ok h]
  rfl

/-- **A denied operation** ends before it has touched anything. -/
theorem Asked.stops (h : op.Asked s m caller value false v) (hop : op.callType ≠ .callCode) :
    op.Stops s m (.revert (.insufficientBalance none)) v := by
  refine stops_of_opening (opening_of_refusal? ?_)
  rw [h.entered.refusal?_eq]
  simp only [answered, Bool.false_eq_true, if_false, if_neg hop]
  rfl

/-- The balance is read once the policy has denied a call of code in the caller's own account. -/
theorem Asked.refusal?_callCode (h : op.Asked s m caller value false v)
    (hop : op.callType = .callCode) :
    op.refusal? s m = (do
      let available ← Exec.view (View.balance s.store caller)
      let funds : InsufficientFunds := { requested := value, available }
      return some (.refused op.gas (.insufficientBalance (some funds))) :
        Exec (Option CallResult)) { m with view := v } := by
  rw [h.refusal?_eq]
  simp only [answered, Bool.false_eq_true, if_false, if_pos hop]

theorem Asked.stops_detailed (h : op.Asked s m caller value false v)
    (hop : op.callType = .callCode) {available : Word} {v' : View}
    (hread : View.balance s.store caller v = (.ok available, v')) :
    op.Stops s m (.revert (.insufficientBalance (some { requested := value, available }))) v' := by
  refine stops_of_opening (opening_of_refusal? ?_)
  rw [h.entered.refusal?_callCode hop]
  exact Attempt.bind_of_ok (Exec.view_of_ok hread)

theorem Asked.aborts_unread (h : op.Asked s m caller value false v)
    (hop : op.callType = .callCode) {e : InternalError} {v' : View}
    (hread : View.balance s.store caller v = (.error e, v')) :
    op.AbortedWith s m (.internal e) v' := by
  refine aborts_of_opening ?_
  have hrefusal : op.refusal? s (op.entered m) =
      (.error (.internal e), { op.entered m with view := v' }) := by
    rw [h.entered.refusal?_callCode hop]
    exact Attempt.bind_of_error (Exec.view_of_error hread)
  rw [opening, Attempt.bind_of_error hrefusal]

end Asked

/-- The view after the absence of a call's target has been found out. -/
def soughtView (store : Store) (target : Address) (v : View) : View where
  ledger := (Ledger.accountExists store target v.ledger).2
  accesses := .exists target :: .snapshot :: v.accesses

/-- Once its target is known to be absent, a call without value is skipped where the rules say
so. -/
theorem prepareTarget_of_absent {target : Address} (hrules : s.rules.skipsEmptyCalls = true)
    (hnative : ¬ Precompile.isAt target s.rules.fork)
    (h : View.accountExists s.store target m.view = (.ok false, v)) :
    Exec.prepareTarget s target 0 m = (.ok true, { m with view := v }) := by
  unfold Exec.prepareTarget
  rw [Attempt.bind_of_ok (Exec.view_of_ok h)]
  simp only [Bool.false_eq_true, if_false, hnative, hrules, not_false_eq_true, and_self, if_true]
  rfl

/-- **A call without value to an absent account** ends before it has touched anything, where the
rules say so. -/
theorem Asked.stops_absent {caller target : Address} {input : Bytes} {gas : Gas}
    (h : (Operation.call caller target input gas 0).Asked s m caller 0 true v)
    (hrules : s.rules.skipsEmptyCalls = true) (hnative : ¬ Precompile.isAt target s.rules.fork)
    (habsent : (Ledger.accountExists s.store target v.ledger).1 = .ok false) :
    (Operation.call caller target input gas 0).Stops s m .noOp
      (soughtView s.store target v) := by
  let op := Operation.call caller target input gas 0
  let m₀ := op.entered m
  let marked : View := { v with accesses := .snapshot :: v.accesses }
  have h₀ : op.Asked s m₀ caller 0 true v := h.entered
  have hpassed : op.refusal? s m₀ = (.ok none, { m₀ with view := v }) :=
    h₀.refusal?_eq
  -- Before the account is looked for there is only the snapshot, which adds nothing to the journal.
  have hsnapshot : Exec.view View.snapshot { m₀ with view := v } =
      (.ok v.ledger.snapshot, { m₀ with view := marked }) := rfl
  have hsought : View.accountExists s.store target marked =
      (.ok false, soughtView s.store target v) := Prod.ext habsent rfl
  have hskipped : Exec.prepareTarget s target 0 { m₀ with view := marked } =
      (.ok true, { m₀ with view := soughtView s.store target v }) :=
    prepareTarget_of_absent hrules hnative hsought
  -- The preparation ends at the absent account, with nothing done.
  have hprepare : op.prepare s { m₀ with view := v } =
      (.ok (.finished (.noOp gas)), { m₀ with view := soughtView s.store target v }) := by
    show Exec.prepareCall s caller target gas 0 _ = _
    rw [Exec.prepareCall, Attempt.bind_of_ok hsnapshot, Attempt.bind_of_ok hskipped]
    rfl
  have hopening : op.opening s m₀ =
      (.ok (.finished (.noOp gas)), { m₀ with view := soughtView s.store target v }) := by
    rw [opening, Attempt.bind_of_ok hpassed]
    exact hprepare
  exact stops_of_opening hopening

/-! ### All operations -/

/-- **What the guards of an operation do.** In each case the operation ends at its opening, with all
gas given back, without running any code, and leaves the view that is named. -/
structure Guarded (s : Setting) (op : Operation) (m : Machine) : Prop where
  /-- Where nothing may be nested, the operation is skipped, and no access is made. -/
  barred : Barred s m → op.Stops s m .noOp m.view
  /-- Otherwise, nested too deeply, it is reverted for that, and no access is made. -/
  tooDeep : ¬ Barred s m → TooDeep s m → op.Stops s m (.revert .depthExceeded) m.view
  /-- Otherwise, if it sends nothing, it passes and nobody is asked. -/
  unasked : ¬ Barred s m → ¬ TooDeep s m → op.sends = none → op.refusal? s m = (.ok none, m)
  /-- Otherwise the policy is asked, and only reads, whatever it answers. -/
  asked : ∀ {caller value allowed v}, op.Asked s m caller value allowed v →
    View.ReadsOn s.store m.view v
  /-- An operation that is denied is reverted without details. -/
  denied : ∀ {caller value v}, op.Asked s m caller value false v → op.callType ≠ .callCode →
    op.Stops s m (.revert (.insufficientBalance none)) v
  /-- A call of code in the caller's own account is reverted with what was requested and what was
  there, for which the caller's balance is read. -/
  detailed : ∀ {caller value v available v'}, op.Asked s m caller value false v →
    op.callType = .callCode → View.balance s.store caller v = (.ok available, v') →
      op.Stops s m (.revert (.insufficientBalance (some { requested := value, available }))) v' ∧
        v'.accesses = .read caller :: v.accesses ∧ View.ReadsOn s.store m.view v'
  /-- If the balance cannot be read, it is aborted with the error. -/
  unread : ∀ {caller value v e v'}, op.Asked s m caller value false v →
    op.callType = .callCode → View.balance s.store caller v = (.error e, v') →
      op.AbortedWith s m (.internal e) v' ∧
        v'.accesses = .read caller :: v.accesses ∧ View.ReadsOn s.store m.view v'
  /-- A call without value to an absent account is skipped where the rules say so, unless the
  address is a native contract's. That the account is absent is all that has been asked. -/
  absent : ∀ {caller target input gas v}, op = .call caller target input gas 0 →
    op.Asked s m caller 0 true v → Ledger.Reachable s.store m.view.ledger →
    (Ledger.accountExists s.store target m.view.ledger).1 = .ok false →
    ¬ Precompile.isAt target s.rules.fork → s.rules.skipsEmptyCalls = true →
      op.Stops s m .noOp (soughtView s.store target v) ∧
        Ledger.Untouched s.store m.view.ledger (soughtView s.store target v).ledger

/-- **Refused operations touch nothing.** If the policy only reads, every operation is guarded, from
every machine. -/
theorem refused_untouched (s : Setting) (hp : s.env.transfers.OnlyReads s.store) (op : Operation)
    (m : Machine) : op.Guarded s m where
  -- The two guards on the depth end the operation where it stands.
  barred h := by
    have h : Barred s (op.entered m) := h
    exact stops_of_opening (opening_of_refusal? (refusal?_of_barred h op))
  tooDeep h h' := by
    have h : ¬ Barred s (op.entered m) := h
    exact stops_of_opening (opening_of_refusal? (refusal?_of_tooDeep h h' op))
  unasked h h' hop := refusal?_of_sends_none h h' hop
  asked h := h.readsOn hp
  denied h hop := h.stops hop
  -- Before the detail is told the balance is read once more.
  detailed {caller value v available v'} h hop hread := by
    have hreads := View.ReadsOn.balance s.store caller v
    rw [hread] at hreads
    obtain ⟨-, rfl⟩ := Prod.mk.inj hread
    exact ⟨h.stops_detailed hop hread, rfl, (h.readsOn hp).trans hreads⟩
  unread {caller value v e v'} h hop hread := by
    have hreads := View.ReadsOn.balance s.store caller v
    rw [hread] at hreads
    obtain ⟨-, rfl⟩ := Prod.mk.inj hread
    exact ⟨h.aborts_unread hop hread, rfl, (h.readsOn hp).trans hreads⟩
  absent {caller target input gas v} hop h hl habsent hnative hrules := by
    subst hop
    have hread := (h.readsOn hp).untouched hl
    have hreached := (h.readsOn hp).reachable hl
    -- The policy has only read, so the account is as absent as before.
    have hstill : (Ledger.accountExists s.store target v.ledger).1 = .ok false :=
      (hread.accountExists target).trans habsent
    have hlooked : Ledger.Untouched s.store v.ledger (soughtView s.store target v).ledger := by
      simp only [soughtView, Ledger.accountExists, Ledger.snd_load_map]
      exact hreached.sound.untouched_load target
    exact ⟨h.stops_absent hrules hnative hstill, hread.trans hlooked⟩

/-- An outermost operation passes the first two guards, and is denied where everything is. -/
theorem asked_of_deny {caller : Address} {value : Word} (hp : s.env.transfers = .deny)
    (hdepth : m.depth = 0) (hop : op.sends = some (caller, value)) :
    op.Asked s m caller value false m.view where
  barred h := Nat.ne_of_gt h.2 hdepth
  tooDeep h := by
    unfold TooDeep at h
    rw [hdepth] at h
    exact Nat.not_lt_zero _ h
  sends := hop
  allows := by
    rw [hp]
    rfl

/-- A creation that a policy denies, from a new machine. -/
theorem refused_untouched_denied :
    let s : Setting := { store := .sample, chain := default, env := { transfers := .deny } }
    let op := Operation.create 1 [0xfe] 100 7
    TransferPolicy.deny.OnlyReads s.store ∧ op.Asked s {} 1 7 false {} ∧
      op.Stops s {} (.revert (.insufficientBalance none)) {} ∧ op.Guarded s {} := by
  intro s op
  have hguarded : op.Guarded s {} :=
    refused_untouched s TransferPolicy.deny_onlyReads op {}
  have hasked : op.Asked s {} 1 7 false {} := asked_of_deny rfl rfl rfl
  exact ⟨TransferPolicy.deny_onlyReads, hasked, hguarded.denied hasked nofun, hguarded⟩

/-- **Where the balance cannot be read** there is no refusal: a policy denies without reading, and
then the store fails. -/
theorem unread_not_refused :
    let s : Setting := {
      store := Store.sample.withOutages { account := fun a => a = 1 }
      chain := default
      env := { transfers := .deny } }
    let op := Operation.callCode 1 2 [] 1000 7
    TransferPolicy.deny.OnlyReads s.store ∧ op.Asked s {} 1 7 false {} ∧
      ¬ ∃ detail v, op.Stops s {} (.revert (.insufficientBalance detail)) v := by
  intro s op
  have hasked : op.Asked s {} 1 7 false {} := asked_of_deny rfl rfl rfl
  refine ⟨TransferPolicy.deny_onlyReads, hasked, ?_⟩
  rintro ⟨detail, v, o, -, hstops⟩
  have hread : View.balance s.store 1 {} =
      (.error (.store (.custom "account unavailable")), { accesses := [.read 1] }) := by
    decide +kernel
  have haborts := hasked.aborts_unread rfl hread
  cases (haborts fun _ => pure []).symm.trans (hstops fun _ => pure [])

end Operation

end MessageCall
