import MessageCall.Proofs.Dispatch.Recording
import MessageCall.Proofs.Dispatch.Transfers

/-!
# Payments of a call tree

Money moves by calls and creations, at the moment when their frames are prepared. An operation that
fails takes back what has been paid since it began, below it as well as by itself. So the balances
after an outermost operation can be told from its trace: every call and creation counts that has
not failed itself and is not below one that has (`Trace.committed`), and the payments of these
settle the difference of all balances (`Operation.balances_reconcile`).

`Ledger.Pays` carries this through an operation. Steps that keep all balances pay nothing, a
transfer is a payment of its own, and a run pays what the operations pay that it asks for, one after
the other.
-/

namespace MessageCall

/-! ### Committed operations -/

/-- What an operation has paid if it is committed. The other two kinds move nothing. -/
def TraceRecord.payments (record : TraceRecord) : List Payment :=
  match record.callType with
  | .call | .create => [⟨record.sender, record.target, record.value⟩]
  | .callCode | .delegateCall => []

mutual

/-- The **committed operations** of a trace: those that have ended without an error, below none that
has ended with one. -/
def Trace.committed : Trace → List TraceRecord
  | .node record calls =>
    if record.error.isSome then [] else record :: Trace.allCommitted calls

/-- The committed operations of traces. -/
def Trace.allCommitted : List Trace → List TraceRecord
  | [] => []
  | t :: ts => t.committed ++ Trace.allCommitted ts

end

/-- The payments of a trace. -/
def Trace.payments (t : Trace) : List Payment := t.committed.flatMap TraceRecord.payments

namespace Trace

variable {record : TraceRecord} {calls : List Trace}

theorem allCommitted_eq (ts : List Trace) : allCommitted ts = ts.flatMap committed := by
  induction ts with
  | nil => rfl
  | cons t ts ih => rw [allCommitted, ih, List.flatMap_cons]

theorem payments_of_error (h : record.error.isSome = true) :
    (Trace.node record calls).payments = [] := by
  unfold payments
  rw [committed, if_pos h]
  rfl

theorem payments_of_no_error (h : record.error = none) :
    (Trace.node record calls).payments = record.payments ++ calls.flatMap payments := by
  unfold payments
  rw [committed, if_neg (by rw [h]; exact nofun), allCommitted_eq, List.flatMap_cons,
    List.flatMap_assoc]

end Trace

/-! ### Ledgers before and after payments -/

namespace Ledger

variable {store : Store} {l l' l'' : Ledger} {ps qs : List Payment}

/-- From a sound ledger to a sound one in which payments have been made. -/
def Pays (store : Store) (ps : List Payment) (l l' : Ledger) : Prop :=
  l.Sound store → l'.Sound store ∧ Settles ps (l.balances store) (l'.balances store)

theorem Pays.trans (h : Pays store ps l l') (h' : Pays store qs l' l'') :
    Pays store (ps ++ qs) l l'' := by
  intro hl
  obtain ⟨hl', hfirst⟩ := h hl
  obtain ⟨hl'', hsecond⟩ := h' hl'
  exact ⟨hl'', hfirst.trans hsecond⟩

theorem Keeps.pays (h : Keeps store l l') : Pays store [] l l' :=
  fun hl => ⟨h.leads.sound hl, .of_eq (h.balances hl)⟩

/-- A payment of nothing is no payment. -/
theorem Keeps.pays_nothing (h : Keeps store l l') {p : Payment} (hp : p.amount = 0) :
    Pays store [p] l l' :=
  fun hl => ⟨h.leads.sound hl, (Settles.of_eq (h.balances hl)).cons_zero hp⟩

end Ledger

section

variable {s : Setting} {op : Operation} {m m' : Machine}

/-- The payments of an operation, with the address of its frame. -/
def Operation.payments (op : Operation) (address : Address) : List Payment :=
  match op with
  | .call caller target _ _ value => [⟨caller, target, value⟩]
  | .create caller _ _ value => [⟨caller, address, value⟩]
  | .callCode .. | .delegateCall .. => []

theorem CallNode.traceRecord_error (s : Setting) (call : CallNode) :
    (call.traceRecord s).error = call.message? := by
  unfold traceRecord
  cases call.op <;> rfl

theorem CallNode.payments_traceRecord (s : Setting) (call : CallNode) :
    (call.traceRecord s).payments =
      call.op.payments ((call.op.derived? s (call.op.entered call.before)).getD 0) := by
  unfold CallNode.traceRecord
  cases call.op <;> rfl

/-! ### Opening an operation -/

/-- Asking the policy of balances is only looking. -/
theorem Operation.refusal?_keeps (hs : s.env.transfers = .balance) (op : Operation) :
    (op.refusal? s).Meets (Machine.Touches (Ledger.Keeps s.store)) Internal := by
  have hp := Setting.transfers_honest hs
  exact (op.refusal?_meets hp id).mono (fun h => h.mono Ledger.Admits.looks) id

/-- A transfer that is carried out is a payment. -/
theorem Exec.transfer_pays (hs : s.env.transfers = .balance) {sender recipient : Address}
    {value : Word}
    (h : Exec.view (s.env.transfers.transfer s.store sender recipient value) m = (.ok (), m')) :
    m.view.ledger.Pays s.store [⟨sender, recipient, value⟩] m'.view.ledger := by
  intro hl
  obtain ⟨r, v', hm, hsound, htransfers⟩ :=
    TransferPolicy.balance_transfers hl sender recipient value
  rw [hs] at h
  rw [(Exec.view_eq h).1] at hm
  cases hm
  cases htransfers with
  | paid hpaid => exact ⟨hsound, hpaid⟩

theorem Exec.found_pays (hs : s.env.transfers = .balance) {caller address : Address} {value : Word}
    (h : Exec.found s caller address value m = (.ok (), m')) :
    m.view.ledger.Pays s.store [⟨caller, address, value⟩] m'.view.ledger := by
  obtain ⟨_, m₁, hcreate, h⟩ := Attempt.bind_eq_ok h
  have h₁ : m.Touches (Ledger.Keeps s.store) m₁ :=
    (meets_op (f := fun _ => .done) (.createAccount address) trivial rfl).of_eq hcreate
  split at h
  · obtain ⟨_, m₂, hset, h⟩ := Attempt.bind_eq_ok h
    have h₂ : m₁.Touches (Ledger.Keeps s.store) m₂ :=
      (meets_op (f := fun _ => .done) (.setNonce address _) trivial rfl).of_eq hset
    exact h₁.ledger.pays.trans (h₂.ledger.pays.trans (transfer_pays hs h))
  · exact h₁.ledger.pays.trans (transfer_pays hs h)

namespace Operation

/-- A frame that is prepared has been paid for, and nothing else has been paid. -/
theorem prepare_pays (hs : s.env.transfers = .balance) {frame : CallFrame}
    {snapshot : Ledger.Snapshot} (h : op.prepare s m = (.ok (.started frame snapshot), m')) :
    m.view.ledger.Pays s.store (op.payments frame.account) m'.view.ledger := by
  have hmarked : Ledger.Keeps s.store m.view.ledger m.marked.view.ledger :=
    (m.touches_marked (R := Ledger.Keeps s.store)).ledger
  cases prepare_cases h with
  | call htarget htransfer hframe =>
    -- The account of the target may be made, and nothing is paid for that.
    have h₁ := (Exec.prepareTarget_meets (R := Ledger.Keeps s.store) _ _).of_eq htarget
    have h₂ := (Exec.frameFor_meets (R := Ledger.Keeps s.store) _ _).of_eq hframe
    exact hmarked.pays.trans
      (h₁.ledger.pays.trans ((Exec.transfer_pays hs htransfer).trans h₂.ledger.pays))
  | callCode hframe | delegateCall hframe =>
    -- The other two kinds of calls move nothing.
    have hlooks := (Exec.frameFor_meets (R := Ledger.Keeps s.store) _ _).of_eq hframe
    exact hmarked.pays.trans hlooks.ledger.pays
  -- To count up and to found pays what the creation brings along.
  | create hcount hfound =>
    have hcounted := (Exec.countUp_meets (R := Ledger.Keeps s.store) _).of_eq hcount
    have hpays := Exec.found_pays hs hfound
    exact hcounted.ledger.pays.trans hpays

/-- An operation that is ended before its frame runs keeps all balances. Unless it is a refusal, it
is a call without value. -/
theorem opening_finished_keeps (hs : s.env.transfers = .balance)
    (hrecursion : s.limits.noRecursion = false) {result : CallResult}
    (h : op.opening s m = (.ok (.finished result), m')) :
    Ledger.Keeps s.store m.view.ledger m'.view.ledger ∧
      ((∃ e, result.error? = some e) ∨ result.error? = none ∧
        ∃ caller target input gas, op = .call caller target input gas 0) := by
  rcases opening_cases h with ⟨_, hrefusal, heq⟩ | ⟨m₁, hrefusal, hprepare⟩
  · cases heq
    have hkeeps := ((refusal?_keeps hs op).of_eq hrefusal).ledger
    exact ⟨hkeeps, .inl (refusal?_reverts hrecursion hrefusal)⟩
  · have h₁ := (refusal?_keeps hs op).of_eq hrefusal
    obtain ⟨h₂, rfl, hskipped⟩ := prepare_finished hprepare
    exact ⟨IsTrans.trans _ _ _ h₁.ledger (Ledger.Admits.looks h₂.ledger), .inr ⟨rfl, hskipped⟩⟩

/-- An operation whose frame is prepared has been paid for. Going back to its snapshot takes that
back as well. -/
theorem opening_started_pays (hs : s.env.transfers = .balance) {frame : CallFrame}
    {snapshot : Ledger.Snapshot} (h : op.opening s m = (.ok (.started frame snapshot), m')) :
    m.view.ledger.Pays s.store (op.payments frame.account) m'.view.ledger ∧
      ∃ base, snapshot = base.snapshot ∧ Ledger.Keeps s.store m.view.ledger base ∧
        Ledger.Leads s.store base m'.view.ledger := by
  obtain ⟨m₁, hrefusal, hprepare⟩ := opening_prepared h
  have h₁ := ((refusal?_keeps hs op).of_eq hrefusal).ledger
  obtain ⟨_, base, -, hlooked, hstands, hsnapshot, hleads⟩ :=
    opening_stands (Setting.transfers_honest hs) h
  refine ⟨h₁.pays.trans (prepare_pays hs hprepare), base, hsnapshot, ?_, hleads⟩
  exact IsTrans.trans _ _ _ (Ledger.Admits.looks hlooked.ledger) hstands.covered

end Operation

/-! ### Runs -/

namespace Script

variable {linked : Bool} {host : Host} {input : Bytes} {a a' : Active}
  {payments : Operation → Machine → List Payment}

/-- A host whose operations with results pay what `payments` says. -/
def HostPays (store : Store) (host : Host) (payments : Operation → Machine → List Payment) : Prop :=
  ∀ op m o m', host op m = (.ok o, m') →
    m.view.ledger.Pays store (payments op m) m'.view.ledger

theorem step_pays (hhost : HostPays s.store host payments)
    (herror : ∀ op m e, (host op m).1 = .error e → Internal e) {i : Instruction}
    {r : Except CallError (Option Bytes)} (h : step linked s host input i a = (r, a'))
    (hr : ∀ e, r = .error e → ¬ Internal e) :
    a.machine.view.ledger.Pays s.store
      ((requests input [(i, a)]).flatMap fun x => payments x.1 x.2) a'.machine.view.ledger := by
  cases hrequest : i.request? input a with
  | none =>
    have hquiet : Quiet (Ledger.Keeps s.store) i a r a' := step_quiet hrequest h
    rw [requests_of_none hrequest]
    exact hquiet.moves.ledger.pays
  | some op =>
    obtain ⟨o, m, hhanded, rfl, rfl⟩ := step_answered herror hrequest h hr
    rw [requests_of_some hrequest, List.flatMap_singleton]
    exact hhost op a.machine o m hhanded

/-- **A run pays what the operations pay that it asks for**, one after the other. -/
theorem Trail.pays (hhost : HostPays s.store host payments)
    (herror : ∀ op m e, (host op m).1 = .error e → Internal e)
    {steps : List (Instruction × Active)} {r : Except CallError Bytes}
    (h : Trail linked s host input a steps r a') (hr : ∀ e, r = .error e → ¬ Internal e) :
    a.machine.view.ledger.Pays s.store
      ((requests input steps).flatMap fun x => payments x.1 x.2) a'.machine.view.ledger := by
  induction h with
  | @halted a => exact (Std.Refl.refl _ : Ledger.Keeps s.store a.machine.view.ledger _).pays
  | @failed _ _ _ e h =>
    exact step_pays hhost herror h fun _ he => by cases he; exact hr e rfl
  | ended h => exact step_pays hhost herror h nofun
  | more h _ ih =>
    rw [requests_cons, List.flatMap_append]
    exact (step_pays hhost herror h nofun).trans (ih hr)

end Script

/-! ### Operations -/

namespace Operation

variable {linked : Bool} {levels : Nat} {o : Outcome}

/-- The balances after an operation that has ended from where its run has led. -/
theorem Ends.keeps {address : Address} {snapshot : Ledger.Snapshot} {a : Active}
    {r : Except CallError Bytes} (h : op.Ends s address snapshot a r o m')
    (hok : o.result.error? = none) :
    Ledger.Keeps s.store a.machine.view.ledger m'.view.ledger := by
  cases h with
  | returned => exact Std.Refl.refl _
  | installed _ _ _ hset =>
    exact ((Exec.meets_op (f := fun _ => .done) (.setCode address _) trivial rfl).of_eq hset).ledger
  | bare => exact Std.Refl.refl _
  | undone => cases hok

/-- What an operation with a result pays: nothing where it has failed, and else what its frame was
paid for and what has been paid below it. -/
theorem payments_recorded (h : Script.host linked s (levels + 1) op m = (.ok o, m')) :
    ((op.tree linked s (levels + 1) m).recorded s).payments =
      if o.result.error?.isSome then [] else
        op.payments (o.address.getD 0) ++ (op.tree linked s (levels + 1) m).children.flatMap
          fun t => (t.recorded s).payments := by
  have hresult : (op.tree linked s (levels + 1) m).call.result = .ok o := by
    rw [tree_done] at h
    exact congrArg Prod.fst h
  have herror : ((op.tree linked s (levels + 1) m).call.traceRecord s).error =
      o.result.error?.map CallError.message := by
    rw [CallNode.traceRecord_error, CallNode.message?, hresult]
  rw [CallTree.recorded_eq]
  -- The record of an operation has an error exactly if its result has.
  cases he : o.result.error? with
  | some e =>
    rw [he] at herror
    rw [Trace.payments_of_error (by rw [herror]; rfl)]
    rfl
  | none =>
    rw [he] at herror
    rw [Trace.payments_of_no_error herror, CallNode.payments_traceRecord, tree_op, tree_before,
      derived?_eq_address h, List.flatMap_map]
    rfl

/-- The address of an operation counts only where it is new. -/
theorem payments_newAddress (op : Operation) (address : Address) :
    op.payments ((op.newAddress address).getD 0) = op.payments address := by
  cases op <;> rfl

/-- **What an operation pays**, one level up. -/
theorem pays_of_hostPays (hs : s.env.transfers = .balance)
    (hrecursion : s.limits.noRecursion = false)
    (hhost : Script.HostPays s.store (Script.host linked s levels)
      fun op m => ((op.tree linked s levels m).recorded s).payments)
    (h : Script.host linked s (levels + 1) op m = (.ok o, m')) :
    m.view.ledger.Pays s.store ((op.tree linked s (levels + 1) m).recorded s).payments
      m'.view.ledger := by
  have hp := Setting.transfers_honest hs
  rw [payments_recorded h]
  obtain ⟨m₂, rfl, ⟨result, hopen, rfl, hrun⟩ | ⟨frame, snapshot, m₁, run, a, hopen, hrun, htrail,
    hends⟩⟩ := host_ok h
  · obtain ⟨hkeeps, ⟨e, he⟩ | ⟨he, caller, target, input, gas, rfl⟩⟩ :=
      opening_finished_keeps hs hrecursion hopen
    · rw [he]
      exact hkeeps.pays
    · -- A call that is skipped sends nothing.
      rw [he, children_of_finished hrun]
      exact hkeeps.pays_nothing rfl
  · -- The frame was opened, and with that its payment made.
    obtain ⟨hopened, base, rfl, hbase, hleads⟩ := opening_started_pays hs hopen
    cases he : o.result.error? with
    -- An error goes back behind the payment, and the record shows none.
    | some e =>
      have hmoves := (htrail.moves (Script.host_meets hp.leads linked levels)).1
      have hran : Ledger.Leads s.store base a.machine.view.ledger :=
        IsTrans.trans _ _ _ hleads hmoves.ledger
      have hback := hends.back_of_error he
      have hkeeps : Ledger.Keeps s.store m.view.ledger m₂.view.ledger := by
        rw [hback]
        exact hbase.back hran
      exact hkeeps.pays
    -- What counts is the payment at the entry and those of the code.
    | none =>
      rw [hends.address_eq, payments_newAddress, children_of_run hrun, List.flatMap_map]
      have hran := htrail.pays hhost (Script.host_error linked s levels) hends.not_internal
      have hended := (hends.keeps he).pays
      have hpays := hopened.trans (hran.trans hended)
      rw [List.append_nil] at hpays
      exact hpays

end Operation

/-- **Every host pays what its trace says**, however many levels it has left. -/
theorem Script.host_pays (hs : s.env.transfers = .balance)
    (hrecursion : s.limits.noRecursion = false) (linked : Bool) (levels : Nat) :
    HostPays s.store (host linked s levels)
      fun op m => ((op.tree linked s levels m).recorded s).payments := by
  induction levels with
  | zero =>
    intro op m o m' h
    cases h
  | succ levels ih =>
    intro op m o m' h
    exact Operation.pays_of_hostPays hs hrecursion ih h

/-- **Balances reconcile with the trace.** After an outermost operation with a result, the balance
of every account is what it was, and what it has received by committed calls and creations, less
what it has paid by them; and the sum of all balances is what it was. -/
theorem Operation.balances_reconcile (hs : s.env.transfers = .balance)
    (hrecursion : s.limits.noRecursion = false) (linked : Bool) (op : Operation) {o : Outcome}
    (hreachable : m.view.ledger.Reachable s.store) (hdepth : m.depth = 0) (hfull : m.tracer.Full)
    (h : (Script.dispatcher linked s).perform op m = (.ok o, m')) :
    ∃ root, m'.tracer.root? = some root ∧
      Settles root.payments (m.view.ledger.balances s.store) (m'.view.ledger.balances s.store) ∧
      m'.view.ledger.supply s.store = m.view.ledger.supply s.store := by
  have hroom : s.HasRoom (s.limits.maxCallDepth.toNat + 2) m.depth := hdepth ▸ .outermost s
  have hrecords := Script.host_records h hroom hfull
  rw [decide_eq_true hdepth] at hrecords
  obtain ⟨-, hsettles⟩ := Script.host_pays hs hrecursion linked _ op m o m' h hreachable.sound
  refine ⟨(Script.callTree linked s op m).recorded s, ?_, hsettles, hsettles.supply_eq⟩
  rw [hrecords]
  rfl

end

/-- A world in which the first account has ten, the second one passes on a part of what it gets, to
another account and to one whose code fails, and then runs code on its own account. -/
def Setting.sharing : Setting where
  store := {
    account address := .ok (some {
      balance := if address = 1 then 10 else 0
      codeHash := if address = 2 then 1 else if address = 4 then 2 else emptyCodeHash })
    slot _ _ := .ok 0
    code codeHash := .ok <|
      if codeHash = 1 then Script.encode [.call 3 0 2, .call 4 0 1, .callCode 3 0 1]
      else Script.encode [.revert] }
  chain := default

/-- A call with four operations in its trace, of which one has failed and one moves nothing. -/
theorem Operation.balances_reconcile_sample :
    let done := (Script.dispatcher true .sharing).perform (.call 1 2 [] 100 5) { tracer := .full }
    done.2.tracer.root?.map (fun t => (t.calls.length, t.payments)) =
        some (3, [⟨1, 2, 5⟩, ⟨2, 3, 2⟩]) ∧
      ∃ o, done.1 = .ok o ∧ ∃ root, done.2.tracer.root? = some root ∧
        Settles root.payments (Ledger.balances Setting.sharing.store {})
          (done.2.view.ledger.balances Setting.sharing.store) ∧
        done.2.view.ledger.supply Setting.sharing.store =
          Ledger.supply Setting.sharing.store {} := by
  intro done
  obtain ⟨o, ho⟩ : ∃ o, done.1 = .ok o := Attempt.eq_ok_of_isSome (by decide +kernel)
  exact ⟨by decide +kernel, o, ho, @balances_reconcile .sharing { tracer := .full } done.2 rfl rfl
    true (.call 1 2 [] 100 5) o .new rfl ⟨rfl, rfl⟩ (Attempt.apply_eq ho)⟩

end MessageCall
