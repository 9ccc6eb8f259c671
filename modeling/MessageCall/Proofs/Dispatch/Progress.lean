import MessageCall.Proofs.Dispatch.Recording
import MessageCall.Proofs.Dispatch.Transfers

/-!
# No operation is aborted without a reason

An internal error aborts an operation and all that are open around it, and there are many places
where one can come up. Over a store that answers, and with no more money in the world than fits into
a word, only one is left: a creation may run out of nonces, since its caller has the last one there
is (`CallTree.no_spurious_abort`).

Each of the others is excluded by something that every step keeps. Accounts, slots and code are
found because the ledger is sound. An amount that is moved is there because the entry check has
asked for it and nothing between the check and the transfer moves a balance, and there is room for
it since the sum of all balances stays what it is. These are the three parts of `Ledger.Solvent`.
Going back is possible because the present ledger has evolved from the one that the snapshot is of,
and the nesting levels can be counted because no code runs beyond the limit.

That the steps of the dispatcher have values is `Attempt.Reaches`, which is proved along their text.
So an operation that is aborted has run out of nonces, or it was aborted by an operation that its
code has asked for (`Operation.aborted_cases`).
-/

namespace MessageCall

/-! ### Steps that have values -/

namespace Attempt

variable {σ ε α β : Type} {P P' Q Q' : σ → Prop} {m : Attempt σ ε α} {s t : σ}

/-- From a state in `P` the step has a value and leads to a state in `Q`. -/
def Reaches (P Q : σ → Prop) (m : Attempt σ ε α) : Prop :=
  ∀ s, P s → ∃ a t, m s = (.ok a, t) ∧ Q t

namespace Reaches

theorem ne_error (h : Reaches P Q m) (hs : P s) {e : ε} : m s ≠ (.error e, t) := by
  obtain ⟨a, t', hm, -⟩ := h s hs
  rw [hm]
  exact nofun

theorem mono (h : Reaches P Q m) (hQ : ∀ {s}, Q s → Q' s) : Reaches P Q' m := by
  intro s hs
  obtain ⟨a, t, hm, ht⟩ := h s hs
  exact ⟨a, t, hm, hQ ht⟩

theorem pure (a : α) : Reaches P P (Pure.pure a : Attempt σ ε α) := fun s hs => ⟨a, s, rfl, hs⟩

theorem get : Reaches P P (MonadState.get : Attempt σ ε σ) := fun s hs => ⟨s, s, rfl, hs⟩

theorem bind {f : α → Attempt σ ε β} (h : Reaches P P' m) (hf : ∀ a, Reaches P' Q (f a)) :
    Reaches P Q (m >>= f) := by
  intro s hs
  obtain ⟨a, t, hm, ht⟩ := h s hs
  rw [bind_of_ok hm]
  exact hf a t ht

theorem ite {c : Prop} [Decidable c] {m' : Attempt σ ε α} (h : Reaches P Q m)
    (h' : Reaches P Q m') : Reaches P Q (if c then m else m') := by
  split
  · exact h
  · exact h'

end Reaches

end Attempt

/-! ### Solvent ledgers -/

variable {store : Store} {due : Option (Address × Word)}

/-- Where all accounts, slots and codes are found, an operation has an answer if it moves no
balance. -/
theorem LedgerOp.onReports_ok {op : LedgerOp} (hop : op.KeepsBalances) {codes : WordMap 256 Bytes}
    {ρ : Reports} (hρ : ∀ a, ∃ r, ρ a = .ok r ∧ (∀ key, ∃ value, r.slot key = .ok value) ∧
      ∃ code, Ledger.codeOver store codes r.info.codeHash = .ok code) :
    ∃ answer, (op.onReports store codes ρ).1 = .ok answer := by
  -- Each answer is a part of a report that is known, or is found by one.
  cases op with
  | accountExists a | account a | balance a | nonce a | codeHash a =>
    obtain ⟨r, hr, -⟩ := hρ a
    simp only [onReports, looking, hr]
    exact ⟨_, rfl⟩
  | code a =>
    obtain ⟨r, hr, -, code, hcode⟩ := hρ a
    simp only [onReports, looking, hr, Except.bind, hcode]
    exact ⟨_, rfl⟩
  | slot a key =>
    obtain ⟨r, hr, hslot, -⟩ := hρ a
    obtain ⟨value, hvalue⟩ := hslot key
    simp only [onReports, looking, hr, Except.bind, hvalue]
    exact ⟨_, rfl⟩
  -- These write without regard to what was there.
  | createAccount a | setNonce a _ | setCode a _ =>
    obtain ⟨r, hr, -⟩ := hρ a
    simp only [onReports, writing, hr]
    exact ⟨_, rfl⟩
  | setSlot a key =>
    -- Noting what the slot held before takes a reading of it.
    obtain ⟨r, hr, hslot, -⟩ := hρ a
    obtain ⟨value, hvalue⟩ := hslot key
    simp only [onReports, writing, hr, Change.apply, Change.setSlot, hvalue]
    exact ⟨_, rfl⟩
  | addBalance | subBalance => exact hop.elim

namespace Ledger

variable {l l' : Ledger}

/-- A sound ledger with no more money than fits into a word, in which an amount that is due can be
paid. -/
structure Solvent (store : Store) (due : Option (Address × Word)) (l : Ledger) : Prop where
  sound : l.Sound store
  supply : l.supply store < span 32
  affords : ∀ payer amount, due = some (payer, amount) →
    ∃ b, l.balances store payer = .ok b ∧ amount ≤ b

namespace Solvent

/-- Nothing is due any more. -/
theorem settled (h : l.Solvent store due) : l.Solvent store none := ⟨h.sound, h.supply, nofun⟩

theorem keeps (h : l.Solvent store due) (hl : Keeps store l l') : l'.Solvent store due := by
  have hsame := hl.balances h.sound
  refine ⟨hl.leads.sound h.sound, ?_, ?_⟩
  · rw [Ledger.supply, hsame]
    exact h.supply
  · rw [hsame]
    exact h.affords

theorem conserves (h : l.Solvent store none) (hl : Conserves store l l') :
    l'.Solvent store none := by
  refine ⟨hl.leads.sound h.sound, ?_, nofun⟩
  rw [hl.supply h.sound h.supply]
  exact h.supply

/-- **Over a store that answers, an operation has an answer** if it moves no balance. -/
theorem perform_ok (h : l.Solvent store due) (hstore : store.Answers) {op : LedgerOp}
    (hop : op.KeepsBalances) : ∃ answer, (op.perform store l).1 = .ok answer := by
  obtain ⟨l', hperform, -⟩ := perform_spec h.sound op
  rw [hperform]
  refine LedgerOp.onReports_ok hop fun a => ?_
  obtain ⟨r, hr⟩ := exists_report hstore l a
  exact ⟨r, hr, h.sound.exists_slot hstore hr, h.sound.exists_code hstore hr⟩

end Solvent

end Ledger

/-- The ledger behind the view is solvent. -/
def View.Solvent (store : Store) (due : Option (Address × Word)) (v : View) : Prop :=
  v.ledger.Solvent store due

/-- The ledger of the machine is solvent. -/
def Machine.Solvent (store : Store) (due : Option (Address × Word)) (m : Machine) : Prop :=
  m.view.ledger.Solvent store due

/-- An operation that moves no balance, with its answer left as it is. -/
theorem View.reaches_op (hstore : store.Answers) {α : Type} {access : Access} {x : Ledger.Step α}
    {f : α → Answer} (op : LedgerOp) (hop : op.KeepsBalances)
    (h : op.perform store = x >>= fun a => pure (f a)) :
    (View.watched access x).Reaches (View.Solvent store due) (View.Solvent store due) := by
  intro v hv
  obtain ⟨answer, hanswer⟩ := Ledger.Solvent.perform_ok hv hstore hop
  have hkeeps : Ledger.Keeps store v.ledger (x v.ledger).2 :=
    Ledger.admits_of_perform op hop h v.ledger
  rcases hx : x v.ledger with ⟨e | a, l⟩
  · rw [h, Attempt.bind_of_error hx] at hanswer
    cases hanswer
  · rw [hx] at hkeeps
    exact ⟨a, _, View.watched_apply hx access, Ledger.Solvent.keeps hv hkeeps⟩

/-- **A transfer that is due is carried out.** -/
theorem TransferPolicy.transfer_reaches (hstore : store.Answers) (sender recipient : Address)
    (value : Word) : (balance.transfer store sender recipient value).Reaches
      (View.Solvent store (some (sender, value))) (View.Solvent store none) := by
  intro v hv
  obtain ⟨r, v', hm, hsound, htransfers⟩ := balance_transfers hv.sound sender recipient value
  have hknown := hv.sound.balances_known hstore
  have hsupply : v'.ledger.supply store = v.ledger.supply store :=
    htransfers.supply_eq hknown hv.supply
  rcases htransfers.cases_of_known hknown hv.supply with ⟨rfl, -⟩ | ⟨-, hshort⟩
  · exact ⟨(), v', hm, hsound, hsupply.trans_lt hv.supply, nofun⟩
  · -- The sender has what is due.
    obtain ⟨b, hb, hle⟩ := hv.affords sender value rfl
    exact absurd (hshort b hb) (Word.sub?_ne_none hle)

/-! ### Opening an operation -/

section

variable {s : Setting} {op : Operation} {m m' : Machine} {e : CallError}

/-- A creation by an account whose nonce is the last there is. -/
def Operation.AtLastNonce (store : Store) (op : Operation) (l : Ledger) : Prop :=
  match op with
  | .create caller _ _ _ => (Ledger.nonce store caller l).1 = .ok 0xffffffffffffffff
  | _ => False

/-- A creation that passes its entry check and then cannot count up the nonce of its caller. -/
def Operation.RunsOut (s : Setting) (op : Operation) (m : Machine) : Prop :=
  op.Passes s m ∧ op.AtLastNonce s.store m.view.ledger

theorem eq_last_of_succ? {n : UInt64} (h : succ? n = none) : n = 0xffffffffffffffff := by
  unfold succ? at h
  by_cases hn : n.toNat + 1 < UInt64.size
  · rw [if_pos hn] at h
    cases h
  · have hlt := n.toNat_lt
    refine UInt64.toNat_inj.mp ?_
    simp only [UInt64.size] at hn
    simp only [UInt64.reduceToNat]
    omega

namespace Exec

theorem reaches_view {α : Type} {due' : Option (Address × Word)} {x : View.Step α}
    (h : x.Reaches (View.Solvent store due) (View.Solvent store due')) :
    (Exec.view x).Reaches (Machine.Solvent store due) (Machine.Solvent store due') := by
  intro m hm
  obtain ⟨a, v, hx, hv⟩ := h m.view hm
  refine ⟨a, { m with view := v }, ?_, hv⟩
  simp only [Exec.view, Attempt.mapError_apply, Attempt.inside_apply, hx]
  rfl

theorem reaches_op (hstore : store.Answers) {α : Type} {access : Access} {x : Ledger.Step α}
    {f : α → Answer} (op : LedgerOp) (hop : op.KeepsBalances)
    (h : op.perform store = x >>= fun a => pure (f a)) :
    (Exec.view (View.watched access x)).Reaches (Machine.Solvent store due)
      (Machine.Solvent store due) :=
  reaches_view (View.reaches_op hstore op hop h)

theorem snapshot_reaches : (Exec.view View.snapshot).Reaches (Machine.Solvent store due)
    (Machine.Solvent store due) :=
  fun m hm => ⟨m.view.ledger.snapshot, _, rfl, hm⟩

/-- Telling the tracer an address does not touch the ledger. -/
theorem setTarget_reaches (address : Address) :
    (modify fun m : Machine =>
        { m with tracer := m.tracer.setTarget address (m.depth = 0) } : Exec PUnit).Reaches
      (Machine.Solvent store due) (Machine.Solvent store due) :=
  fun _ hm => ⟨(), _, rfl, hm⟩

variable (hstore : s.store.Answers)

include hstore

theorem frameFor_reaches (codeAddress : Address) (frameOf : Bytes → Hash → Nat → CallFrame) :
    (frameFor s codeAddress frameOf).Reaches (Machine.Solvent s.store due)
      (Machine.Solvent s.store due) := by
  refine .bind (reaches_op hstore (.code codeAddress) trivial rfl) fun code => ?_
  refine .bind (reaches_op hstore (.codeHash codeAddress) trivial rfl) fun codeHash => ?_
  exact .bind .get fun _ => .pure _

theorem prepareTarget_reaches (target : Address) (value : Word) :
    (prepareTarget s target value).Reaches (Machine.Solvent s.store due)
      (Machine.Solvent s.store due) := by
  refine .bind (reaches_op hstore (.accountExists target) trivial rfl) fun found => ?_
  refine .ite (.pure _) (.ite (.pure _) (.bind ?_ fun _ => .pure _))
  exact reaches_op (f := fun _ => .done) hstore (.createAccount target) trivial rfl

/-- Only the last nonce cannot be counted up. -/
theorem countUp_error {caller : Address} (hm : m.Solvent s.store due)
    (h : countUp s caller m = (.error e, m')) :
    e = .internal .overflow ∧
      (Ledger.nonce s.store caller m.view.ledger).1 = .ok 0xffffffffffffffff := by
  have hnonce : (Exec.view (View.nonce s.store caller)).Reaches (Machine.Solvent s.store due)
      (Machine.Solvent s.store due) := reaches_op hstore (.nonce caller) trivial rfl
  obtain ⟨nonce, m₁, hread, h₁⟩ := hnonce m hm
  unfold countUp at h
  rw [Attempt.bind_of_ok hread] at h
  -- Either there is a next nonce, or the last one has been reached.
  cases hnext : succ? nonce with
  | none =>
    simp only [hnext] at h
    cases h
    refine ⟨rfl, ?_⟩
    rw [← eq_last_of_succ? hnext]
    exact congrArg Prod.fst (watched_eq hread).1
  | some next =>
    simp only [hnext] at h
    -- Setting the next nonce cannot fail.
    have hset : (Exec.view (View.setNonce s.store caller next) >>= fun _ => pure nonce).Reaches
        (Machine.Solvent s.store due) (Machine.Solvent s.store due) :=
      .bind (reaches_op (f := fun _ => .done) hstore (.setNonce caller next) trivial rfl)
        fun _ => .pure _
    exact absurd h (hset.ne_error h₁)

omit hstore in
/-- The last nonce cannot be counted up. -/
theorem countUp_of_last {caller : Address}
    (h : (Ledger.nonce s.store caller m.view.ledger).1 = .ok 0xffffffffffffffff) :
    countUp s caller m =
      (.error (.internal .overflow), (Exec.view (View.nonce s.store caller) m).2) := by
  have hread : Exec.view (View.nonce s.store caller) m =
      (.ok 0xffffffffffffffff, (Exec.view (View.nonce s.store caller) m).2) := by
    refine Attempt.apply_eq ?_
    show (Ledger.nonce s.store caller m.view.ledger).1.mapError CallError.internal = _
    rw [h]
    rfl
  have hlast : succ? 0xffffffffffffffff = none := by decide
  unfold countUp
  rw [Attempt.bind_of_ok hread]
  simp only [hlast]
  rfl

variable (hs : s.env.transfers = .balance)

include hs

theorem transfer_reaches (sender recipient : Address) (value : Word) :
    (Exec.view (s.env.transfers.transfer s.store sender recipient value)).Reaches
      (Machine.Solvent s.store (some (sender, value))) (Machine.Solvent s.store none) := by
  rw [hs]
  exact reaches_view (TransferPolicy.transfer_reaches hstore sender recipient value)

theorem found_reaches (caller address : Address) (value : Word) :
    (found s caller address value).Reaches (Machine.Solvent s.store (some (caller, value)))
      (Machine.Solvent s.store none) := by
  have htransfer := transfer_reaches hstore hs caller address value
  refine .bind ?_ fun _ => .ite (.bind ?_ fun _ => htransfer) htransfer
  · exact reaches_op (f := fun _ => .done) hstore (.createAccount address) trivial rfl
  · exact reaches_op (f := fun _ => .done) hstore (.setNonce address _) trivial rfl

/-- The entry check always comes to a decision. -/
theorem refusal?_reaches (caller : Address) (value : Option Word) (gas : Gas) (detailed : Bool) :
    (refusal? s caller value gas detailed).Reaches (Machine.Solvent s.store none)
      (Machine.Solvent s.store none) := by
  have hbalance : (View.balance s.store caller).Reaches (View.Solvent s.store none)
      (View.Solvent s.store none) := View.reaches_op hstore (.balance caller) trivial rfl
  refine .bind .get fun m => .ite (.pure _) (.ite (.pure _) ?_)
  cases value with
  | none => exact .pure _
  | some value =>
    have hallows : (s.env.transfers.allows s.store caller value).Reaches
        (View.Solvent s.store none) (View.Solvent s.store none) := by
      rw [hs]
      exact .bind hbalance fun _ => .pure _
    refine .bind (reaches_view hallows) fun allowed => .ite (.pure _) (.ite ?_ (.pure _))
    exact .bind (reaches_view hbalance) fun _ => .pure _

end Exec

namespace Operation

/-- Looking does not change a nonce. -/
theorem atLastNonce_of_looks {l l' : Ledger} (hl : l.Sound store) (h : l.Looks store l') :
    op.AtLastNonce store l' ↔ op.AtLastNonce store l := by
  cases op with
  | create caller =>
    obtain ⟨_, hnonce, -⟩ := Ledger.nonce_spec hl caller
    obtain ⟨_, hnonce', -⟩ := Ledger.nonce_spec h.sound caller
    show (Ledger.nonce store caller l').1 = _ ↔ (Ledger.nonce store caller l).1 = _
    rw [hnonce, hnonce', h.report]
  | _ => exact Iff.rfl

/-- An operation that passes its entry check can pay for what it sends. -/
theorem Passes.solvent (hs : s.env.transfers = .balance) (hpasses : op.Passes s m)
    (hm : m.Solvent s.store none) : m.Solvent s.store op.sends := by
  refine ⟨hm.sound, hm.supply, fun payer amount hsends => ?_⟩
  have hallows := hpasses.2.2 payer amount hsends
  rw [hs] at hallows
  exact TransferPolicy.balance_allows hallows

variable (hstore : s.store.Answers) (hs : s.env.transfers = .balance)

include hstore hs

/-- **An operation can be prepared** that can pay for what it sends, unless it is a creation by an
account with the last nonce. -/
theorem prepare_error (hm : m.Solvent s.store op.sends) (h : op.prepare s m = (.error e, m')) :
    e = .internal .overflow ∧ op.AtLastNonce s.store m.view.ledger := by
  -- Reading the code into a frame cannot fail over a store that answers.
  have hframe : ∀ {due : Option (Address × Word)} {target : Address}
      {f : Bytes → Hash → Nat → CallFrame} {snapshot : Ledger.Snapshot},
      (Exec.frameFor s target f >>= fun frame => pure (Opening.started frame snapshot)).Reaches
        (Machine.Solvent s.store due) (Machine.Solvent s.store due) :=
    .bind (Exec.frameFor_reaches hstore _ _) fun _ => .pure _
  -- The only step that can fail on a solvent machine is counting up.
  cases op with
  | call caller target input gas value =>
    have hprepare : ((Operation.call caller target input gas value).prepare s).Reaches
        (Machine.Solvent s.store (some (caller, value))) (Machine.Solvent s.store none) := by
      refine .bind Exec.snapshot_reaches fun _ => ?_
      refine .bind (Exec.prepareTarget_reaches hstore target value) fun skipped => ?_
      refine .ite (.mono (.pure _) Ledger.Solvent.settled) ?_
      exact .bind (Exec.transfer_reaches hstore hs caller target value) fun _ => hframe
    exact absurd h (hprepare.ne_error hm)
  | callCode caller target input gas value =>
    exact absurd h (Attempt.Reaches.ne_error (.bind Exec.snapshot_reaches fun _ => hframe) hm)
  | delegateCall parent target input gas =>
    exact absurd h (Attempt.Reaches.ne_error (.bind Exec.snapshot_reaches fun _ => hframe) hm)
  | create caller initCode gas value =>
    rcases Attempt.bind_eq_error h with hcount | ⟨nonce, m₁, hcount, h⟩
    · exact Exec.countUp_error hstore hm hcount
    · -- Once the nonce has been counted up, the rest is as for a call.
      have hkeeps : m.Touches (Ledger.Keeps s.store) m₁ := (Exec.countUp_meets caller).of_eq hcount
      have hm₁ : m₁.Solvent s.store (some (caller, value)) := Ledger.Solvent.keeps hm hkeeps.ledger
      refine absurd h (Attempt.Reaches.ne_error (Q := Machine.Solvent s.store none) ?_ hm₁)
      refine .bind Exec.snapshot_reaches fun _ => .bind (Exec.setTarget_reaches _) fun _ => ?_
      exact .bind (Exec.found_reaches hstore hs _ _ _) fun _ => .bind .get fun _ => .pure _

/-- **An operation can be opened**, unless it is a creation that runs out of nonces. -/
theorem opening_error (hm : m.Solvent s.store none) (h : op.opening s m = (.error e, m')) :
    e = .internal .overflow ∧ op.RunsOut s m := by
  -- The check itself cannot fail, so the preparation has.
  rcases Attempt.bind_eq_error h with hrefusal | ⟨refused, m₁, hrefusal, h⟩
  · obtain ⟨caller, value, detailed, heq, -⟩ := op.refusal?_eq s
    rw [heq] at hrefusal
    exact absurd hrefusal ((Exec.refusal?_reaches hstore hs _ _ _ _).ne_error hm)
  · cases refused with
    | some result => cases h
    | none =>
      have hp := Setting.transfers_honest hs
      have hlooks : m.Touches (Ledger.LooksIf s.store) m₁ :=
        (op.refusal?_meets hp id).of_eq hrefusal
      have hpasses : op.Passes s m := (refusal?_eq_none_iff hrefusal).mp rfl
      have hm₁ : m₁.Solvent s.store op.sends :=
        Ledger.Solvent.keeps (hpasses.solvent hs hm) (Ledger.Admits.looks hlooks.ledger)
      obtain ⟨he, hlast⟩ := prepare_error hstore hs hm₁ h
      -- The check has only looked, so the nonce is still the one that the operation has found.
      exact ⟨he, hpasses, (atLastNonce_of_looks hm.sound (hlooks.ledger.looks hm.sound)).mp hlast⟩

/-- A creation that runs out of nonces is not opened. -/
theorem opening_of_runsOut (hm : m.Solvent s.store none) (h : op.RunsOut s m) :
    (op.opening s m).1 = .error (.internal .overflow) := by
  -- The check passes, and the nonce is at its end.
  obtain ⟨hpasses, hlast⟩ := h
  obtain ⟨caller, value, detailed, heq, -⟩ := op.refusal?_eq s
  obtain ⟨refused, m₁, hrefusal, hm₁⟩ :=
    Exec.refusal?_reaches hstore hs caller value op.gas detailed m hm
  rw [← heq] at hrefusal
  obtain rfl : refused = none := (refusal?_eq_none_iff hrefusal).mpr hpasses
  -- The nonce is read after the check, which has only looked.
  have hlooks : m.Touches (Ledger.LooksIf s.store) m₁ :=
    (op.refusal?_meets (Setting.transfers_honest hs) id).of_eq hrefusal
  have hlast₁ : op.AtLastNonce s.store m₁.view.ledger :=
    (atLastNonce_of_looks hm.sound (hlooks.ledger.looks hm.sound)).mpr hlast
  unfold opening
  rw [Attempt.bind_of_ok hrefusal]
  -- Only a creation has a nonce to count up.
  cases op with
  | create caller initCode gas value =>
    show (Exec.prepareCreation s caller initCode gas value m₁).1 = _
    rw [Exec.prepareCreation, Attempt.bind_of_error (Exec.countUp_of_last hlast₁)]
  | _ => exact hlast.elim

end Operation

/-! ### Runs -/

namespace Script

variable {linked : Bool} {host : Host} {input : Bytes} {a a' : Active} {i : Instruction}

/-- An instruction that asks for no operation fails with faults only. -/
theorem step_fault (hstore : s.store.Answers) (ha : a.machine.Solvent s.store none)
    (hrequest : i.request? input a = none)
    (h : step linked s host input i a = (.error e, a')) : ∃ fault, e = .fault fault := by
  -- What an instruction does on its own fails with a fault, or does not fail at all.
  cases i with
  | stop | output | outputZeros | observe => cases h
  | cancel =>
    cases linked with
    | false => cases h
    | true => cases h
  -- The next three are the ones that fail.
  | revert | invalid =>
    cases h
    exact ⟨_, rfl⟩
  | burn gas =>
    rw [step_burn] at h
    cases hpaid : a.frame.charge? gas with
    | none =>
      rw [hpaid] at h
      cases h
      exact ⟨_, rfl⟩
    | some frame =>
      rw [hpaid] at h
      cases h
  | store key value =>
    -- Writing could be aborted, but not over a store that answers.
    have hset : (Exec.view (View.setSlot s.store a.frame.account key value)).Reaches
        (Machine.Solvent s.store none) (Machine.Solvent s.store none) :=
      Exec.reaches_op (f := fun _ => .done) hstore (.setSlot a.frame.account key value) trivial rfl
    obtain ⟨_, m, hm, -⟩ := hset a.machine ha
    rw [step_store, hm] at h
    cases h
  | recurse =>
    rw [step_recurse hrequest] at h
    cases h
  | _ => cases hrequest

/-- A step that is aborted has asked for an operation that was. -/
theorem step_aborted (hstore : s.store.Answers) (ha : a.machine.Solvent s.store none)
    (h : step linked s host input i a = (.error e, a')) (he : Internal e) :
    ∃ op, i.request? input a = some op ∧ (host op a.machine).1 = .error e := by
  cases hrequest : i.request? input a with
  | some op =>
    rw [step_request hrequest] at h
    rcases hhanded : host op a.machine with ⟨e' | o, m⟩
    · rw [hhanded] at h
      cases h
      exact ⟨op, rfl, congrArg Prod.fst hhanded⟩
    · rw [hhanded] at h
      cases h
  | none =>
    obtain ⟨fault, rfl⟩ := step_fault hstore ha hrequest h
    cases he

/-- **A run that is aborted has asked for an operation that was**, if its level can be counted. -/
theorem Trail.aborted (hstore : s.store.Answers) {steps : List (Instruction × Active)}
    {r : Except CallError Bytes}
    (hhost : ∀ op, (host op).Meets (Machine.Moves (Ledger.Conserves s.store)) Internal)
    (h : Trail linked s host input a steps r a') (ha : a.machine.Solvent s.store none)
    (hdepth : a.machine.depth < UInt64.size) (hr : r = .error e) (he : Internal e) :
    ∃ x ∈ requests input steps, (host x.1 x.2).1 = .error e := by
  -- Only an instruction that asks for an operation can be aborted.
  have hfails : ∀ {i : Instruction} {a a' : Active}, a.machine.Solvent s.store none →
      step linked s host input i a = (.error e, a') →
      ∃ x ∈ requests input [(i, a)], (host x.1 x.2).1 = .error e := by
    intro i a a' ha h
    obtain ⟨op, hrequest, hop⟩ := step_aborted hstore ha h he
    rw [requests_of_some hrequest]
    exact ⟨_, List.mem_singleton_self _, hop⟩
  -- The level stays the same along the run, so what is shown of the start holds at the end.
  induction h with
  | halted hstops =>
    -- A run that is halted at the start has met a stop or the last level.
    rcases hstops e hr with ⟨fault, rfl⟩ | ⟨-, hnot⟩
    · cases he
    · exact absurd hdepth hnot
  | failed h =>
    cases hr
    exact hfails ha h
  | ended => cases hr
  -- The first step went through, so the operation is among the later ones.
  | @more a a₁ a' i steps r h _ ih =>
    have hmoves : a.Moves (Ledger.Conserves s.store) a₁ := (step_meets hhost i).of_eq h
    obtain ⟨x, hx, hop⟩ := ih (Ledger.Solvent.conserves ha hmoves.ledger)
      (hmoves.depth ▸ hdepth) hr
    rw [requests_cons]
    exact ⟨x, List.mem_append_right _ hx, hop⟩

end Script

/-! ### Operations -/

namespace Operation

variable {linked : Bool} {levels : Nat}

/-- A run asks for operations in machines that are as solvent as the one before. -/
theorem request_solvent (hstore : s.store.Answers) (hs : s.env.transfers = .balance)
    (hm : m.Solvent s.store none) {run : CodeRun} {op' : Operation}
    (hrun : op.codeRun? linked s (Script.host linked s levels) m = some run)
    (hasked : (op', m') ∈ Script.requests op.codeInput run.steps) : m'.Solvent s.store none :=
  have hp := Setting.transfers_conserve hstore hs
  Ledger.Solvent.conserves hm (request_moves hp hrun hasked).ledger

/-- **An operation that is aborted** has run out of nonces, or was aborted by an operation that its
code has asked for. -/
theorem aborted_cases (hstore : s.store.Answers) (hs : s.env.transfers = .balance)
    (hlimit : s.limits.maxCallDepth.toNat + 1 < UInt64.size) (hm : m.Solvent s.store none)
    (h : Script.host linked s (levels + 1) op m = (.error e, m')) :
    (e = .internal .overflow ∧ op.RunsOut s m) ∨
      ∃ run op' m₁, op.codeRun? linked s (Script.host linked s levels) m = some run ∧
        (op', m₁) ∈ Script.requests op.codeInput run.steps ∧
        (Script.host linked s levels op' m₁).1 = .error e := by
  have hp := Setting.transfers_conserve hstore hs
  have hhost := Script.host_meets hp linked levels
  have he : Internal e := Script.host_error linked s _ op m e (congrArg Prod.fst h)
  have hentered : (op.entered m).Solvent s.store none := hm
  obtain ⟨m₂, hcourse, -⟩ := host_course h
  -- Aborted in opening, or else in its code.
  cases hcourse with
  | unopened hopen =>
    obtain ⟨hoverflow, hrunsOut⟩ := opening_error hstore hs hentered hopen
    exact .inl ⟨hoverflow, hrunsOut⟩
  | @ran frame snapshot m₁ _ run a _ hopen hrun htrail _ haborts =>
    right
    obtain ⟨m₀, hm₀, rfl, hm₁⟩ := opening_based hp hopen
    have hsolvent₀ : m₀.Solvent s.store none := Ledger.Solvent.conserves hentered hm₀.ledger
    have hsolvent₁ : m₁.Solvent s.store none := Ledger.Solvent.conserves hsolvent₀ hm₁.ledger
    have hmoves := (htrail.moves hhost).1
    generalize hended : run.ended = r at htrail haborts
    -- Of the three ways for a frame to be aborted, two cannot happen.
    cases haborts e rfl with
    | passed =>
      -- The levels are counted below the limit, so the counter does not overflow.
      have hdepth : m₁.depth + 1 < UInt64.size := by
        have := depth_le_of_run hrun
        have : m₁.depth = m.depth := hm₁.depth.trans hm₀.depth
        omega
      obtain ⟨⟨op', m₂⟩, hasked, hop⟩ := htrail.aborted hstore hhost hsolvent₁ hdepth rfl he
      exact ⟨run, op', m₂, hrun, hasked, hop⟩
    | @unstored code _ _ hset =>
      -- New code can be stored.
      have hsolvent : (a.atDepth m₁.depth).machine.Solvent s.store none :=
        Ledger.Solvent.conserves hsolvent₁ hmoves.ledger
      have hstores : (Exec.view (View.setCode s.store frame.account code)).Reaches
          (Machine.Solvent s.store none) (Machine.Solvent s.store none) :=
        Exec.reaches_op (f := fun _ => .done) hstore (.setCode frame.account code) trivial rfl
      exact absurd hset (hstores.ne_error hsolvent)
    | stuck hrevert =>
      -- The run has led on from the ledger that the snapshot is of.
      have hleads : Ledger.Leads s.store m₀.view.ledger a.machine.view.ledger :=
        (IsTrans.trans _ _ _ hm₁.ledger hmoves.ledger : Ledger.Conserves s.store _ _).leads
      have hback := ((hleads.evolves hsolvent₀.sound).revertTo hsolvent₀.sound le_rfl).1
      have hreverted := congrArg Prod.fst hrevert
      change (Except.mapError CallError.internal
        (Ledger.revertTo m₀.view.ledger.snapshot a.machine.view.ledger).1) = .error e at hreverted
      rw [hback] at hreverted
      cases hreverted

/-- A creation that runs out of nonces is aborted. -/
theorem host_of_runsOut (hstore : s.store.Answers) (hs : s.env.transfers = .balance)
    (hm : m.Solvent s.store none) (h : op.RunsOut s m) :
    (Script.host linked s (levels + 1) op m).1 = .error (.internal .overflow) := by
  have hentered : (op.entered m).Solvent s.store none := hm
  have hopening : (op.opening s (op.entered m)).1 = .error (.internal .overflow) :=
    opening_of_runsOut hstore hs hentered h
  rcases hdone : Script.host linked s (levels + 1) op m with ⟨result, m'⟩
  obtain ⟨m₂, hcourse, -⟩ := host_course hdone
  -- An operation that is not opened is aborted with what its opening has failed with.
  cases hcourse with
  | unopened hopen =>
    rw [hopen] at hopening
    cases hopening
    rfl
  | unstarted hopen =>
    rw [hopen] at hopening
    cases hopening
  | ran hopen =>
    rw [hopen] at hopening
    cases hopening

end Operation

namespace CallTree

variable {linked : Bool} {levels : Nat} (hstore : s.store.Answers)
  (hs : s.env.transfers = .balance) (hlimit : s.limits.maxCallDepth.toNat + 1 < UInt64.size)
  (hroom : s.HasRoom levels m.depth) (hm : m.Solvent s.store none)

include hstore hs hm

include hroom in
/-- Every operation in a tree has room for its nesting and a solvent ledger, if the one at the root
has. -/
theorem part_solvent {t : CallTree} (ht : t.PartOf (op.tree linked s levels m)) :
    ∃ (n : Nat) (op' : Operation) (m' : Machine), t = op'.tree linked s n m' ∧
      s.HasRoom n m'.depth ∧ m'.Solvent s.store none := by
  refine part_induction (fun h hrun hasked => ?_) ⟨hroom, hm⟩ ht
  exact ⟨(Operation.request_hasRoom h.1 hrun hasked).2,
    Operation.request_solvent hstore hs h.2 hrun hasked⟩

include hlimit hroom

/-- An operation that is aborted has run out of nonces, or one below it has. -/
theorem root_aborted (h : (op.tree linked s levels m).call.result = .error e) :
    e = .internal .overflow ∧
      ∃ u : CallTree, u.PartOf (op.tree linked s levels m) ∧ u.call.op.RunsOut s u.call.before := by
  induction levels generalizing op m with
  | zero => exact absurd rfl hroom.levels_ne_zero
  | succ levels ih =>
    have hdone : (Script.host linked s (levels + 1) op m).1 = .error e := by
      rw [Operation.tree_done]
      exact h
    rcases Operation.aborted_cases hstore hs hlimit hm (Attempt.apply_eq hdone) with
      ⟨rfl, hrunsOut⟩ | ⟨run, op', m', hrun, hasked, hop⟩
    · -- It ran out itself.
      refine ⟨rfl, _, .root _, ?_⟩
      rw [Operation.tree_op, Operation.tree_before]
      exact hrunsOut
    · -- What the code has asked for is a child, and that is where it has gone wrong.
      obtain ⟨-, hroom'⟩ := Operation.request_hasRoom hroom hrun hasked
      have hm' := Operation.request_solvent hstore hs hm hrun hasked
      rw [Operation.tree_done] at hop
      obtain ⟨rfl, u, hu, hrunsOut⟩ := ih hroom' hm' hop
      refine ⟨rfl, u, .child ?_ hu, hrunsOut⟩
      rw [Operation.children_of_run hrun]
      exact List.mem_map.mpr ⟨(op', m'), hasked, rfl⟩

/-- **An operation is aborted exactly if** it runs out of nonces, or one below it does. -/
theorem root_aborted_iff : (op.tree linked s levels m).call.result = .error e ↔
    e = .internal .overflow ∧
      ∃ u : CallTree, u.PartOf (op.tree linked s levels m) ∧ u.call.op.RunsOut s u.call.before := by
  refine ⟨root_aborted hstore hs hlimit hroom hm, ?_⟩
  rintro ⟨rfl, u, hu, hrunsOut⟩
  -- What runs out of nonces is aborted itself.
  obtain ⟨n, op', m', rfl, hroom', hm'⟩ := part_solvent hstore hs hroom hm hu
  have haborted : (op'.tree linked s n m').call.result = .error (.internal .overflow) := by
    rw [Operation.tree_op, Operation.tree_before] at hrunsOut
    cases n with
    | zero => exact absurd rfl hroom'.levels_ne_zero
    | succ n => exact Operation.host_of_runsOut hstore hs hm' hrunsOut
  rcases hresult : (op.tree linked s levels m).call.result with e | o
  · rw [(root_aborted hstore hs hlimit hroom hm hresult).1]
  · -- In a tree with a result at the root it would have a result.
    have hdone : Script.host linked s levels op m =
        (.ok o, (op.tree linked s levels m).call.after) := by
      rw [Operation.tree_done, hresult]
    obtain ⟨n', op'', m'', heq, o', m₂, hok⟩ := part_ok hdone hu
    rw [Operation.tree_done] at hok
    rw [heq, (Prod.mk.inj hok).1] at haborted
    cases haborted

end CallTree

/-- **No spurious abort.** Over a store that answers and in which the balances sum up to a word,
with the policy of balances and a limit on the nesting below the largest number, take any sequence
of outermost operations that starts from a new ledger, whatever the tracer records. An operation
among them, be it outermost or nested, is aborted by nothing but an overflow, and this happens
exactly if it is a creation that passes its entry check and whose caller has the last nonce, or has
led to such a creation. -/
theorem CallTree.no_spurious_abort {m₀ : Machine} (hstore : s.store.Answers)
    (hsupply : s.store.supply < span 32) (hs : s.env.transfers = .balance)
    (hlimit : s.limits.maxCallDepth.toNat + 1 < UInt64.size) (hledger : m₀.view.ledger = {})
    (hdepth : m₀.depth = 0) (linked : Bool) (ops : List Operation) (op : Operation) :
    let before := Script.performAll linked s ops m₀
    let tree := Script.callTree linked s op before
    tree.call.result = ((Script.dispatcher linked s).perform op before).1 ∧
      ∀ (t : CallTree) (e : CallError), t.PartOf tree →
        (t.call.result = .error e ↔ e = .internal .overflow ∧
          ∃ u : CallTree, u.PartOf t ∧ u.call.op.RunsOut s u.call.before) := by
  intro before tree
  -- The operations before this one leave all the money in the world.
  have hmoves : m₀.Moves (Ledger.Conserves s.store) before :=
    Script.performAll_moves (Setting.transfers_conserve hstore hs) linked ops m₀
  have hm₀ : m₀.Solvent s.store none := by
    unfold Machine.Solvent
    rw [hledger]
    exact ⟨Ledger.sound_new s.store, (Ledger.supply_new s.store).trans_lt hsupply, nofun⟩
  -- The supply is conserved, so there is never more than a word holds.
  have hm : before.Solvent s.store none := Ledger.Solvent.conserves hm₀ hmoves.ledger
  have hroom : s.HasRoom (s.limits.maxCallDepth.toNat + 2) before.depth :=
    (hmoves.depth.trans hdepth) ▸ .outermost s
  -- Each part of the tree is on a solvent machine of its own.
  refine ⟨(congrArg Prod.fst (Operation.callTree_done linked s op before)).symm, fun t e ht => ?_⟩
  obtain ⟨n, op', m', rfl, hroom', hm'⟩ := part_solvent hstore hs hroom hm ht
  exact root_aborted_iff hstore hs hlimit hroom' hm'

end

/-- A world in which the first account has ten, and the second one has the last nonce and code that
creates an account. -/
def Setting.exhausted : Setting where
  store := {
    account address := .ok (some {
      nonce := if address = 2 then 0xffffffffffffffff else 0
      balance := if address = 1 then 10 else 0
      codeHash := if address = 2 then 1 else emptyCodeHash })
    slot _ _ := .ok 0
    code _ := .ok (Script.encode [.burn 7, .create 50 3 []]) }
  chain := default

namespace Setting

theorem exhausted_answers : exhausted.store.Answers where
  account _ := ⟨_, rfl⟩
  slot _ _ := ⟨0, rfl⟩
  code _ := ⟨_, rfl⟩

/-- There is one account with money. -/
theorem supply_exhausted : exhausted.store.supply = 10 := by
  have hworth : ∀ address, exhausted.store.worth address = if 1 = address then 10 else 0 := by
    intro address
    show (if address = 1 then (10 : Word) else 0).toNat = _
    by_cases h : address = 1
    · rw [if_pos h, if_pos h.symm]
      rfl
    · rw [if_neg h, if_neg fun h' => h h'.symm]
      rfl
  unfold Store.supply
  rw [Finset.sum_congr rfl fun address _ => hworth address, Finset.sum_ite_eq,
    if_pos (Finset.mem_univ _)]

end Setting

/-- A call that is aborted, after one that was not, because the account that it calls cannot create
another one. -/
theorem CallTree.no_spurious_abort_sample :
    let before := Script.performAll true .exhausted [.call 1 3 [] 9 2] { tracer := .top }
    let tree := Script.callTree true .exhausted (.call 1 2 [] 100 5) before
    tree.call.result = .error (.internal .overflow) ∧
      (tree.call.result =
          ((Script.dispatcher true .exhausted).perform (.call 1 2 [] 100 5) before).1 ∧
        ∀ (t : CallTree) (e : CallError), t.PartOf tree →
          (t.call.result = .error e ↔ e = .internal .overflow ∧
            ∃ u : CallTree, u.PartOf t ∧ u.call.op.RunsOut .exhausted u.call.before)) := by
  have hsupply : Setting.exhausted.store.supply < span 32 := by
    rw [Setting.supply_exhausted]
    decide +kernel
  exact ⟨by decide +kernel, @no_spurious_abort .exhausted { tracer := .top }
    Setting.exhausted_answers hsupply rfl (by decide +kernel) rfl rfl true [.call 1 3 [] 9 2]
    (.call 1 2 [] 100 5)⟩

end MessageCall
