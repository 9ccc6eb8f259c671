import MessageCall.Proofs.Dispatch.Lockstep
import MessageCall.Proofs.Dispatch.Refusals
import MessageCall.Proofs.Dispatch.Transfers
import MessageCall.Proofs.State.SelfPayment

/-!
# Calls to oneself

An account that calls itself and an account that runs its own code as if it were another's do the
same. The frames have the same sender, the same account, the same code and the same value, and
differ in their kind. But the one operation makes the account pay itself, and the other does not, so
from then on the journals differ: what the one has in addition is a payment that comes to nothing
(`Ledger.Idle`).

The two executions go in lockstep in spite of that, as the ledgers are twins all along
(`Setting.lockstep_twins`). At the end of the outer frame the one goes back to before the payment
and the other to where it was not made, which again leaves twins (`Operation.Ready.execute`).
-/

namespace MessageCall

open Attempt

/-- A call and a call of code count as one kind. -/
def CallType.merged : CallType → CallType
  | .callCode => .call
  | kind => kind

/-- The ledgers behind two views are twins above the given entries of their journals. -/
def View.Twins (below : List JournalEntry × List JournalEntry) (v v' : View) : Prop :=
  Ledger.Twins below.1 below.2 v.ledger v'.ledger

section

variable {linked : Bool} {s : Setting} {m m' : Machine} {l₀ : Ledger} {a : Address}
  {x : CachedAccount} {payment : List JournalEntry} {frame frame' : CallFrame} {run : Runner}
  {below : List JournalEntry × List JournalEntry}

theorem View.watched_mirrors {α : Type} {y z : Ledger.Step α}
    (h : y.Mirrors (Ledger.Twins below.1 below.2) Eq z) (access access' : Access) :
    (View.watched access y).Mirrors (View.Twins below) Eq (View.watched access' z) :=
  fun v v' hv => h v.ledger v'.ledger hv

/-- **Twins stay in lockstep**, where balances decide about transfers. -/
theorem Setting.lockstep_twins (hs : s.env.transfers = .balance) : s.Lockstep View.Twins where
  uses below α y hy := by
    -- Each use of the ledger answers alike on twins and leaves twins.
    cases hy with
    | accountExists a => exact View.watched_mirrors (Ledger.accountExists_even a) _ _
    | createAccount a => exact View.watched_mirrors (Ledger.createAccount_even a) _ _
    | balance a => exact View.watched_mirrors (Ledger.balance_even a) _ _
    | nonce a => exact View.watched_mirrors (Ledger.nonce_even a) _ _
    | codeHash a => exact View.watched_mirrors (Ledger.codeHash_even a) _ _
    | code a => exact View.watched_mirrors (Ledger.code_even a) _ _
    | setNonce a value => exact View.watched_mirrors (Ledger.setNonce_even a value) _ _
    | setCode a code => exact View.watched_mirrors (Ledger.setCode_even a code) _ _
    | setSlot a key value => exact View.watched_mirrors (Ledger.setSlot_even a key value) _ _
    | allows a value =>
      rw [hs]
      exact .bind (View.watched_mirrors (Ledger.balance_even a) _ _) fun _ => .pure rfl
    -- A payment is two writes, each of them on twins.
    | transfer a b value =>
      rw [hs]
      refine .ite (.pure rfl) ?_
      exact .bind (View.watched_mirrors (Ledger.subBalance_even a value) _ _) fun _ =>
        View.watched_mirrors (Ledger.addBalance_even b value) _ _
  -- A snapshot taken on both sides is of the same place in the twin parts of the journals.
  snapshot {below v v'} h :=
    ⟨(v.ledger.journal.entries, v'.ledger.journal.entries), h.rebase, h.weaken,
      View.watched_mirrors Ledger.revertTo_mirrors _ _⟩

/-! ### Opening the two operations -/

/-- The account is there and has the value. -/
structure Ledger.Affords (l : Ledger) (a : Address) (value : Word) (x : CachedAccount) : Prop where
  cached : l.current.get? a = some x
  present : x.present = true
  covered : value ≤ x.info.balance

/-- The frames of the two operations are ready. On the one side the account has paid itself since
the ledger `l₀`, of which the snapshots are. -/
structure Operation.Ready (store : Store) (a : Address) (l₀ : Ledger) (frame frame' : CallFrame)
    (m m' : Machine) (x : CachedAccount) (payment : List JournalEntry) : Prop where
  cached : l₀.current.get? a = some x
  idle : Ledger.Idle a x.info.balance payment
  frames : frame.Alike .merged frame'
  machines : m.Alike .merged (View.Twins (payment ++ l₀.journal.entries, l₀.journal.entries)) m'
  evolves : Ledger.Evolves store l₀ m'.view.ledger

/-- How the two operations are opened. -/
inductive Operation.SelfOpened (store : Store) (a : Address) :
    Except CallError Opening × Machine → Except CallError Opening × Machine → Prop
  | failed {m m' : Machine} {below : List JournalEntry × List JournalEntry} (e : CallError)
    (h : m.Alike .merged (View.Twins below) m') :
    SelfOpened store a (.error e, m) (.error e, m')
  | finished {m m' : Machine} {below : List JournalEntry × List JournalEntry} (result : CallResult)
    (h : m.Alike .merged (View.Twins below) m') :
    SelfOpened store a (.ok (.finished result), m) (.ok (.finished result), m')
  | started {m m' : Machine} {l₀ : Ledger} {frame frame' : CallFrame} {x : CachedAccount}
    {payment : List JournalEntry} (h : Ready store a l₀ frame frame' m m' x payment) :
    SelfOpened store a (.ok (.started frame l₀.snapshot), m)
      (.ok (.started frame' l₀.snapshot), m')

/-- The policy lets the account send what it has, and leaves it cached. -/
theorem Ledger.Sound.allows_covered (hs : s.env.transfers = .balance) {v : View}
    (hl : v.ledger.Sound s.store) {value balance : Word}
    (hexists : (Ledger.accountExists s.store a v.ledger).1 = .ok true)
    (hbalance : (Ledger.balance s.store a v.ledger).1 = .ok balance) (hvalue : value ≤ balance) :
    ∃ v' x, s.env.transfers.allows s.store a value v = (.ok true, v') ∧
      Ledger.Evolves s.store v.ledger v'.ledger ∧ v'.ledger.Affords a value x := by
  -- The policy loads the account to see its balance.
  -- The account is there, so the load succeeds.
  rcases Ledger.load_spec hl a with ⟨x, l, hload, hx, hr, hlooks⟩ | ⟨e, -, hr⟩
  · have hread := Ledger.balance_of_load hload
    have hpresent : x.present = true := by
      rw [hl.accountExists_eq, hr] at hexists
      exact Except.ok.inj hexists
    have hcovered : value ≤ x.info.balance := by
      rw [hread] at hbalance
      cases hbalance
      exact hvalue
    have hview := View.watched_apply hread (.read a)
    refine ⟨⟨l, .read a :: v.accesses⟩, x, ?_, hlooks.evolves, hx, hpresent, hcovered⟩
    rw [hs]
    show (View.balance s.store a >>= fun balance => pure (decide (value ≤ balance))) v = _
    unfold View.balance
    rw [Attempt.bind_of_ok hview, decide_eq_true hcovered]
    rfl
  · rw [hl.accountExists_eq, hr] at hexists
    cases hexists

namespace Operation

variable {input : Bytes} {gas : Gas} {value : Word}

/-- **The payment** goes through, and leaves a ledger that is a twin of the one without it. -/
theorem transfer_self (hs : s.env.transfers = .balance) {v : View}
    (h : v.ledger.Affords a value x) :
    ∃ v' payment, s.env.transfers.transfer s.store a a value v = (.ok (), v') ∧
      Ledger.Idle a x.info.balance payment ∧
      Ledger.Twins (payment ++ v.ledger.journal.entries) v.ledger.journal.entries
        v'.ledger v.ledger := by
  rw [hs]
  by_cases hvalue : value = 0
  · -- Nothing is moved, and nothing is read.
    refine ⟨v, [], ?_, Ledger.idle_nil _ _, .refl _⟩
    exact congrFun (if_pos hvalue) v
  · obtain ⟨l', payment, hpaid, hidle, htwins⟩ :=
      -- The payment adds two entries that undo to nothing.
      @Ledger.payment_to_self s.store _ _ _ h.cached h.present value h.covered
    obtain ⟨_, l₁, hdebit, hcredit⟩ := Attempt.bind_eq_ok hpaid
    refine ⟨⟨l', .write a :: .write a :: v.accesses⟩, payment, ?_, hidle, htwins⟩
    refine (congrFun (if_neg hvalue) v).trans ?_
    exact (Attempt.bind_of_ok (View.watched_apply hdebit (.write a))).trans
      (View.watched_apply hcredit (.write a))

/-- The frame of an account that runs its own code. -/
def selfFrame (a : Address) (gas : Gas) (value : Word) (kind : CallType) (code : Bytes)
    (codeHash : Hash) (depth : Nat) : CallFrame where
  sender := a
  account := a
  codeAddress := a
  code
  codeHash
  value
  gasLimit := gas
  depth
  callType := kind

/-- The account's code is read, and its frame is ready over a snapshot. -/
def startSelf (s : Setting) (a : Address) (gas : Gas) (value : Word) (kind : CallType)
    (snapshot : Ledger.Snapshot) : Exec Opening := do
  let frame ← Exec.frameFor s a (selfFrame a gas value kind)
  return .started frame snapshot

/-- Past the entry check, a call to oneself takes a snapshot and makes the payment. -/
theorem prepare_call_self (hs : s.env.transfers = .balance) (input : Bytes) (gas : Gas)
    (h : m.view.ledger.Affords a value x) :
    ∃ paid payment, (Operation.call a a input gas value).prepare s m =
        startSelf s a gas value .call m.view.ledger.snapshot { m with view := paid } ∧
      Ledger.Idle a x.info.balance payment ∧
      Ledger.Twins (payment ++ m.view.ledger.journal.entries) m.view.ledger.journal.entries
        paid.ledger m.view.ledger := by
  let found : View := ⟨m.view.ledger, .exists a :: .snapshot :: m.view.accesses⟩
  -- The account is cached by now, so that looking for it leaves the ledger as it is.
  have hexists : Ledger.accountExists s.store a m.view.ledger = (.ok true, m.view.ledger) := by
    rw [Ledger.accountExists_of_load (Ledger.load_of_cached h.cached), h.present]
  obtain ⟨paid, payment, htransfer, hidle, htwins⟩ := transfer_self (v := found) hs h
  exact ⟨paid, payment, prepare_call_of_found input gas hexists htransfer, hidle, htwins⟩

/-- Past the entry check, a call of one's own code takes a snapshot only. -/
theorem prepare_callCode_self (s : Setting) (m : Machine) (a : Address) (input : Bytes) (gas : Gas)
    (value : Word) : (Operation.callCode a a input gas value).prepare s m =
      startSelf s a gas value .callCode m.view.ledger.snapshot
        { m with view := (View.snapshot m.view).2 } := rfl

/-- From there on the two do the same. -/
theorem startSelf_opened (hs : s.env.transfers = .balance) (hcached : l₀.current.get? a = some x)
    (hidle : Ledger.Idle a x.info.balance payment)
    (halike : m.Alike .merged
      (View.Twins (payment ++ l₀.journal.entries, l₀.journal.entries)) m')
    (hevolves : Ledger.Evolves s.store l₀ m'.view.ledger) :
    SelfOpened s.store a (startSelf s a gas value .call l₀.snapshot m)
      (startSelf s a gas value .callCode l₀.snapshot m') := by
  -- Both sides read the same code, into frames that differ in their kind.
  have hframes : (Exec.frameFor s a (selfFrame a gas value .call)).Mirrors
      (Machine.Alike .merged (View.Twins (payment ++ l₀.journal.entries, l₀.journal.entries)))
      (CallFrame.Alike .merged) (Exec.frameFor s a (selfFrame a gas value .callCode)) :=
    Exec.frameFor_mirrors (Setting.lockstep_twins hs) a fun _ _ _ => ⟨.callCode, rfl, rfl⟩
  unfold startSelf
  rcases hframes.cases halike with
    ⟨e, m₁, m₁', hx, hx', hafter⟩ | ⟨frame, frame', m₁, m₁', hx, hx', hframe, hafter⟩
  · rw [Attempt.bind_of_error hx, Attempt.bind_of_error hx']
    exact .failed e hafter
  · have htouches := (Exec.frameFor_meets (R := Ledger.Leads s.store) a _).of_eq hx'
    rw [Attempt.bind_of_ok hx, Attempt.bind_of_ok hx']
    exact .started ⟨hcached, hidle, hframe, hafter,
      hevolves.trans (htouches.ledger.evolves hevolves.sound)⟩

/-- **The two operations are opened alike**, apart from the payment. -/
theorem opening_self (hs : s.env.transfers = .balance) (halike : m.Alike .merged Eq m')
    (hl : m.view.ledger.Sound s.store) {balance : Word}
    (hexists : (Ledger.accountExists s.store a m.view.ledger).1 = .ok true)
    (hbalance : (Ledger.balance s.store a m.view.ledger).1 = .ok balance)
    (hvalue : value ≤ balance) :
    SelfOpened s.store a ((Operation.call a a input gas value).opening s m)
      ((Operation.callCode a a input gas value).opening s m') := by
  have hstart : m.Alike .merged
      (View.Twins (m.view.ledger.journal.entries, m.view.ledger.journal.entries)) m' :=
    ⟨halike.view ▸ .refl _, halike.depth, halike.cancelled, halike.observed⟩
  -- The first two guards look at the depth only, and the third one at the balance.
  -- The depth of both machines is the same, and so are the two checks on it.
  by_cases hbarred : Barred s m
  · have hbarred' : Barred s m' := ⟨hbarred.1, halike.depth ▸ hbarred.2⟩
    unfold opening
    rw [Attempt.bind_of_ok (refusal?_of_barred hbarred _),
      Attempt.bind_of_ok (refusal?_of_barred hbarred' _)]
    exact .finished _ hstart
  have hbarred' : ¬ Barred s m' := fun h => hbarred ⟨h.1, halike.depth ▸ h.2⟩
  by_cases hdeep : TooDeep s m
  · have hdeep' : TooDeep s m' := by
      unfold TooDeep
      exact halike.depth ▸ hdeep
    unfold opening
    rw [Attempt.bind_of_ok (refusal?_of_tooDeep hbarred hdeep _),
      Attempt.bind_of_ok (refusal?_of_tooDeep hbarred' hdeep' _)]
    exact .finished _ hstart
  have hdeep' : ¬ TooDeep s m' := by
    unfold TooDeep
    exact halike.depth ▸ hdeep
  obtain ⟨v, x, hallows, hevolves, haffords⟩ := hl.allows_covered hs hexists hbalance hvalue
  have hasked : (Operation.call a a input gas value).Asked s m a value true v :=
    ⟨hbarred, hdeep, rfl, hallows⟩
  have hasked' : (Operation.callCode a a input gas value).Asked s m' a value true v :=
    ⟨hbarred', hdeep', rfl, halike.view ▸ hallows⟩
  unfold opening
  rw [Attempt.bind_of_ok hasked.refusal?_eq, Attempt.bind_of_ok hasked'.refusal?_eq]
  -- The policy has answered yes on both sides, and has left the account cached.
  obtain ⟨paid, payment, hprepare, hidle, htwins⟩ :=
    prepare_call_self (m := { m with view := v }) hs input gas haffords
  show SelfOpened s.store a ((Operation.call a a input gas value).prepare s { m with view := v })
    ((Operation.callCode a a input gas value).prepare s { m' with view := v })
  rw [hprepare, prepare_callCode_self]
  exact startSelf_opened hs haffords.cached hidle
    ⟨htwins, halike.depth, halike.cancelled, halike.observed⟩ (.refl hevolves.sound)

/-! ### Closing them -/

theorem settle_of_back {e : CallError} (he : ¬ e.propagates = true) {snapshot : Ledger.Snapshot}
    {l : Ledger} (h : Ledger.revertTo snapshot m.view.ledger = (.ok (), l)) (frame : CallFrame) :
    Exec.settle frame snapshot e m =
      (.ok (.failure frame.exhaust e), { m with view := ⟨l, .revert :: m.view.accesses⟩ }) := by
  have hback : View.revertTo snapshot m.view = (.ok (), ⟨l, .revert :: m.view.accesses⟩) :=
    View.watched_apply h .revert
  unfold Exec.settle
  rw [if_neg he]
  exact Attempt.bind_of_ok (Exec.view_of_ok hback)

/-- Both have ended with the same, in machines with twin ledgers. -/
structure EndAlike {α : Type} (done done' : Except CallError α × Machine) : Prop where
  answer : done.1 = done'.1
  machines : ∃ below, done.2.Alike .merged (View.Twins below) done'.2

/-- **Going back before the payment.** The code of the two frames does the same. If it fails, all
that it did is undone, and the payment with it where it was made. -/
theorem Ready.execute (h : Ready s.store a l₀ frame frame' m m' x payment)
    (hrun : ∀ below input, (run input).Uniform .merged (View.Twins below))
    (hmeets : ∀ input, (run input).Meets (Active.Moves (Ledger.Leads s.store)) Halting)
    (input : Bytes) :
    EndAlike (Exec.execute run frame input l₀.snapshot m)
      (Exec.execute run frame' input l₀.snapshot m') := by
  rcases Exec.execute_cases (hrun _) h.frames input l₀.snapshot l₀.snapshot h.machines with
    ⟨result, b, b', hx, hx', hafter⟩ | ⟨e, b, b', hx, hx', hafter, hnested⟩
  · rw [hx, hx']
    exact ⟨rfl, _, hafter⟩
  · obtain ⟨kind, -, hkind⟩ := hafter.frame
    rw [hx, hx']
    by_cases he : e.propagates = true
    · -- An internal error passes through, and the payment stays where it was made.
      unfold Exec.settle
      rw [if_pos he, if_pos he]
      exact ⟨rfl, _, hafter.machine⟩
    · -- What the code did is undone on both sides, and on the one side the payment below it.
      have hmoves := ((Running.nested_meets hmeets input).of_eq hnested).ledger
      obtain ⟨l, l', hback, hback', htwins⟩ := Ledger.Twins.revertTo_of_idle h.idle
        hafter.machine.view h.cached (h.evolves.trans (hmoves.evolves h.evolves.sound))
      rw [settle_of_back he hback, settle_of_back he hback', hkind]
      exact ⟨rfl, (l₀.journal.entries, l₀.journal.entries), htwins, hafter.machine.depth,
        hafter.machine.cancelled, hafter.machine.observed⟩

/-- Whatever is made of the result. -/
theorem EndAlike.map {α β : Type} {y z : Exec α} (h : EndAlike (y m) (z m')) (f : α → β) :
    EndAlike ((y >>= fun r => pure (f r)) m) ((z >>= fun r => pure (f r)) m') := by
  obtain ⟨hanswer, hmachines⟩ := h
  rcases hy : y m with ⟨r, m₁⟩
  rcases hz : z m' with ⟨r', m₁'⟩
  rw [hy, hz] at hanswer hmachines
  obtain rfl : r = r' := hanswer
  cases r with
  | error e =>
    rw [bind_of_error hy, bind_of_error hz]
    exact ⟨rfl, hmachines⟩
  | ok a =>
    rw [bind_of_ok hy, bind_of_ok hz]
    exact ⟨rfl, hmachines⟩

/-- **The two operations end alike**, up to the end of their trace nodes. -/
theorem body_self
    (hrun : ∀ below input, (run input).Uniform .merged (View.Twins below))
    (hmeets : ∀ input, (run input).Meets (Active.Moves (Ledger.Leads s.store)) Halting)
    (hopened : SelfOpened s.store a ((Operation.call a a input gas value).opening s m)
      ((Operation.callCode a a input gas value).opening s m')) :
    EndAlike ((Operation.call a a input gas value).body s run m)
      ((Operation.callCode a a input gas value).body s run m') := by
  unfold body
  rw [bind_apply, bind_apply]
  generalize (Operation.call a a input gas value).opening s m = opened at hopened ⊢
  generalize (Operation.callCode a a input gas value).opening s m' = opened' at hopened ⊢
  -- A frame on one side is a frame on the other; its code runs in lockstep.
  cases hopened with
  | failed e h => exact ⟨rfl, _, h⟩
  | finished result h => exact ⟨rfl, _, h⟩
  | @started _ _ _ frame frame' _ _ h =>
    have hcall : (Operation.call a a input gas value).callType ≠ .create := nofun
    have hlent : (Operation.callCode a a input gas value).callType ≠ .create := nofun
    dsimp only
    rw [closing_call hcall, closing_call hlent]
    exact (h.execute hrun hmeets input).map fun result => ({ result } : Outcome)

/-- At the end of the operations their trace nodes are closed, which leaves the answers and all but
the tracers. -/
theorem EndAlike.host {linked : Bool} {levels : Nat} {op op' : Operation}
    (h : EndAlike
      (op.body s (Script.interpreter linked s (Script.host linked s levels)) (op.entered m))
      (op'.body s (Script.interpreter linked s (Script.host linked s levels)) (op'.entered m'))) :
    EndAlike (Script.host linked s (levels + 1) op m)
      (Script.host linked s (levels + 1) op' m') := by
  obtain ⟨hanswer, below, hafter⟩ := h
  rw [Script.host_succ, Script.host_succ,
    Exec.traced_apply (body_meets_host linked s levels op) Prod.mk.eta.symm,
    Exec.traced_apply (body_meets_host linked s levels op') Prod.mk.eta.symm]
  exact ⟨hanswer, below, hafter.view, hafter.depth, hafter.cancelled, hafter.observed⟩

/-- **What the code of the two asks for** is the same, with the same results, down to the last
level. -/
theorem children_self (linked : Bool) (hs : s.env.transfers = .balance) (levels : Nat)
    (hopened : SelfOpened s.store a
      ((Operation.call a a input gas value).opening s
        ((Operation.call a a input gas value).entered m))
      ((Operation.callCode a a input gas value).opening s
        ((Operation.callCode a a input gas value).entered m'))) :
    List.Forall₂ (CallTree.Alike .merged)
      ((Operation.call a a input gas value).tree linked s (levels + 1) m).children
      ((Operation.callCode a a input gas value).tree linked s (levels + 1) m').children := by
  have hV := Setting.lockstep_twins hs
  let steps (op : Operation) (m : Machine) : List (Instruction × Active) :=
    (op.codeRun? linked s (Script.host linked s levels) m).elim [] CodeRun.steps
  obtain ⟨below, hsteps⟩ : ∃ below, List.Forall₂ (Script.StepAlike .merged (View.Twins below))
      (steps (.call a a input gas value) m) (steps (.callCode a a input gas value) m') := by
    -- The steps of both runs pair up.
    unfold steps codeRun?
    generalize (Operation.call a a input gas value).opening s _ = opened at hopened ⊢
    generalize (Operation.callCode a a input gas value).opening s _ = opened' at hopened ⊢
    cases hopened with
    | failed | finished => exact ⟨([], []), .nil⟩
    | started h =>
      exact ⟨_, Script.steps_alike hV (Script.host_uniform hV linked levels _) input
        ⟨h.frames, h.machines⟩⟩
  exact trees_alike (tree_alike hV linked levels) input hsteps

end Operation

/-- **A call to oneself is a call of one's own code.** Where balances decide about transfers, an
account that is there and has the value can call itself or call its own code: the result is the
same, also an error, and so is everything that the nested operations come to. The two ledgers that
are left answer every operation alike and have the same net effects, although the one journal may
hold a payment that the other does not. -/
theorem Script.call_to_oneself (linked : Bool) (s : Setting) (a : Address) (input : Bytes)
    (gas : Gas) (value : Word) {m : Machine} {balance : Word} (hs : s.env.transfers = .balance)
    (hm : m.view.ledger.Reachable s.store)
    (hexists : (Ledger.accountExists s.store a m.view.ledger).1 = .ok true)
    (hbalance : (Ledger.balance s.store a m.view.ledger).1 = .ok balance)
    (hvalue : value ≤ balance) :
    let call : Operation := .call a a input gas value
    let lent : Operation := .callCode a a input gas value
    let done := (dispatcher linked s).perform call m
    let done' := (dispatcher linked s).perform lent m
    done.1 = done'.1 ∧
      Ledger.SameAnswers s.store done.2.view.ledger done'.2.view.ledger ∧
      done.2.observed.calls = done'.2.observed.calls ∧
      List.Forall₂ (CallTree.Alike .merged) (callTree linked s call m).children
        (callTree linked s lent m).children := by
  intro call lent done done'
  let levels := s.limits.maxCallDepth.toNat + 1
  have hV := Setting.lockstep_twins hs
  have hhost := host_meets (Setting.transfers_honest hs).leads linked levels
  -- The two openings differ in the payment to oneself, and in that alone.
  have hopened : Operation.SelfOpened s.store a (call.opening s (call.entered m))
      (lent.opening s (lent.entered m)) :=
    Operation.opening_self hs ⟨rfl, rfl, rfl, rfl⟩ hm.sound hexists hbalance hvalue
  -- The code then runs in lockstep, and both operations end alike.
  have hends : Operation.EndAlike done done' :=
    (Operation.body_self (fun below => interpreter_uniform hV (host_uniform hV linked levels below))
      (interpreter_meets hhost) hopened).host
  obtain ⟨hanswer, below, hafter⟩ := hends
  -- Twins answer every question alike, if both are sound.
  have hsound : ∀ op, Ledger.Sound s.store ((dispatcher linked s).perform op m).2.view.ledger :=
    fun op => ((host_meets (Setting.transfers_honest hs).leads linked _ op).keeps m).ledger.sound
      hm.sound
  exact ⟨hanswer, hafter.view.sameAnswers (hsound call) (hsound lent),
    hafter.calls_eq, Operation.children_self linked hs levels hopened⟩

end

/-- A world in which all accounts have a balance of nine, and code that asks for too much of it,
then for the next level down, and then writes a slot. -/
def Setting.affluent : Setting where
  store := {
    account _ := .ok (some {
      nonce := 0, balance := 9, storageRoot := emptyTrieHash, codeHash := 1 })
    slot _ _ := .ok 0
    code _ := .ok (Script.encode [.call 2 0 20, .recurse, .store 3 7]) }
  chain := default

/-- Both succeed and leave the slot written, with journals that differ in length. -/
theorem Script.call_to_oneself_sample :
    let call : Operation := .call 1 1 (recursionTarget 1) 100 5
    let lent : Operation := .callCode 1 1 (recursionTarget 1) 100 5
    let done := (dispatcher true .affluent).perform call {}
    let done' := (dispatcher true .affluent).perform lent {}
    (done.2.view.ledger.journal.entries.length, done'.2.view.ledger.journal.entries.length) =
        (4, 2) ∧
      done.2.observed.calls.map (fun c => (c.depth, c.verdict)) =
        [(0, .success), (1, .revert (.insufficientBalance none)),
          (0, .revert (.insufficientBalance none))] ∧
      (Ledger.slot Setting.affluent.store 1 3 done.2.view.ledger).1 = .ok 7 ∧
      done.1 = done'.1 ∧
      Ledger.SameAnswers Setting.affluent.store done.2.view.ledger done'.2.view.ledger ∧
      done.2.observed.calls = done'.2.observed.calls ∧
      List.Forall₂ (CallTree.Alike .merged) (callTree true .affluent call {}).children
        (callTree true .affluent lent {}).children := by
  have hsame := @call_to_oneself true .affluent 1 (recursionTarget 1) 100 5 {} 9 rfl .new
    (by decide +kernel) (by decide +kernel) (by decide)
  exact ⟨by decide +kernel, by decide +kernel, by decide +kernel, hsame⟩

end MessageCall
