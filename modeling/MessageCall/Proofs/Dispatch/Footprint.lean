import MessageCall.Proofs.Dispatch.Frames
import MessageCall.Proofs.Dispatch.Transfers
import MessageCall.Proofs.State.Footprint

/-!
# The footprint of a call tree

What an execution has changed can be told from its trace. Code writes slots of the account on which
its frame acts, and that account is named by the record of the operation. Only creations set code
and nonces, those of the new account and the nonce of the one that creates it. So the footprint of
an operation is that of its own node together with the footprints of the operations below it
(`CallTree.writes`), and every operation is confined to it, however it ends
(`Script.host_confined`).

An operation is taken apart in its three parts. What opens it is confined to its own node
(`Operation.opening_confined`). While its code runs, the frame acts on the account that the record
names, and what the code asks for is confined to what is below (`Script.Trail.confined`). Where the
operation fails in the end, it goes back to a point that was within the footprint as well.

An account acts in a tree only if it was called or created there, or is the one from which the
outermost operation comes (`CallTree.reached`). So an account whose code is only lent to others
keeps its storage, its code and its nonce.
-/

namespace MessageCall

variable {store : Store} {F G : Footprint}

/-! ### Steps within a footprint -/

namespace Ledger

variable {l l' l₀ : Ledger}

theorem LooksIf.confined (h : LooksIf store l l') : Confined store F l l' where
  leads := h.leads
  permits hl a := by
    rw [(h.looks hl).report]
    exact .refl F a _

/-- Going back over a part of the way is within the footprint of what came before it. -/
theorem Confined.back (h : Confined store F l₀ l) (h' : Leads store l l') :
    Confined store F l₀ (Ledger.revertTo l.snapshot l').2 where
  leads := .back h.leads h'
  permits hl a := by
    rw [(h'.evolves (h.leads.sound hl)).report_revertTo]
    exact h.permits hl a

theorem confined_of_perform (hstore : store.Blank) {α : Type} {m : Step α} {f : α → Answer}
    (op : LedgerOp) (hop : op.writes ≤ F) (h : op.perform store = m >>= fun a => pure (f a))
    (l : Ledger) : Confined store F l (m l).2 := by
  rw [← perform_ledger h]
  exact confined_op hstore op hop l

/-- An account that is created where there was none when it was looked for. -/
theorem confined_createAccount (hstore : store.Blank) {address : Address}
    (hlooks : LooksIf store l l') (habsent : (Ledger.accountExists store address l).1 = .ok false) :
    Confined store F l (Ledger.createAccount store address l').2 where
  leads := hlooks.leads.trans
    (leads_of_perform (f := fun _ => .done) (.createAccount address) rfl l')
  permits hl a := by
    have hlooked := hlooks.looks hl
    rw [hl.accountExists_eq, asked_eq_ok] at habsent
    obtain ⟨l₁, hcreate, -, hreport, -⟩ := createAccount_spec hlooked.sound address
    rw [hcreate]
    show F.Permits a _ (l₁.report store a)
    rw [hreport, hlooked.report]
    exact LedgerOp.createAccount_permits hstore hl habsent a

end Ledger

/-- Moving balances is within every footprint. -/
theorem TransferPolicy.balance_confined (hstore : store.Blank) (sender recipient : Address)
    (value : Word) : (balance.transfer store sender recipient value).Meets
      (View.Touches (Ledger.Confined store F)) fun _ => True := by
  refine .ite (.pure ()) (.bind ?_ fun _ => ?_)
  · exact View.meets_watched
      (Ledger.confined_of_perform (f := fun _ => .done) hstore (.subBalance sender value)
        (fun _ _ h => h.elim) rfl)
  · exact View.meets_watched
      (Ledger.confined_of_perform (f := fun _ => .done) hstore (.addBalance recipient value)
        (fun _ _ h => h.elim) rfl)

section

variable {s : Setting} {op : Operation} {m m' : Machine}

theorem Exec.confined_op (hstore : s.store.Blank) {α : Type} {access : Access}
    {x : Ledger.Step α} {f : α → Answer} (op : LedgerOp) (hop : op.writes ≤ F)
    (h : op.perform s.store = x >>= fun a => pure (f a)) :
    (Exec.view (View.watched access x)).Meets (Machine.Touches (Ledger.Confined s.store F))
      Internal :=
  meets_view (View.meets_watched (Ledger.confined_of_perform hstore op hop h))

/-- Setting code is within every footprint where it fails. -/
theorem Exec.setCode_failed {a : Address} {code : Bytes} {e : CallError}
    (h : Exec.view (View.setCode s.store a code) m = (.error e, m')) :
    Ledger.Confined s.store F m.view.ledger m'.view.ledger where
  leads := by
    rw [watched_ledger h]
    exact Ledger.leads_of_perform (f := fun _ => .done) (.setCode a code) rfl _
  permits hl b := by
    obtain ⟨e', hset⟩ := watched_error h
    rw [(Ledger.setCode_spec hl a code).report_of_error hset]
    exact .refl F b _

/-- Setting a nonce that is in the footprint. -/
theorem Exec.setNonce_confined (hstore : s.store.Blank) {a : Address} (hF : F a .nonce)
    (nonce : UInt64) : (Exec.view (View.setNonce s.store a nonce)).Meets
      (Machine.Touches (Ledger.Confined s.store F)) Internal := by
  refine confined_op (f := fun _ => .done) hstore (.setNonce a nonce) ?_ rfl
  rintro _ _ ⟨rfl, rfl⟩
  exact hF

/-- Making sure that the target of a call exists is within every footprint, because an account is
only created where there is none. -/
theorem Exec.prepareTarget_confined (hstore : s.store.Blank) (target : Address) (value : Word) :
    (prepareTarget s target value).Meets (Machine.Touches (Ledger.Confined s.store F))
      Internal where
  keeps m := by
    -- The target is looked up first.
    have hread : (Exec.view (View.accountExists s.store target)).Meets
        (Machine.Touches (Ledger.LooksIf s.store)) Internal :=
      meets_read (.accountExists target) trivial rfl
    unfold prepareTarget
    rw [Attempt.bind_apply]
    rcases hfound : Exec.view (View.accountExists s.store target) m with ⟨e | found, m₁⟩
    · exact (hread.of_eq hfound).mono Ledger.LooksIf.confined
    · have hlooks := hread.of_eq hfound
      -- An account is only made where there is none.
      cases found with
      | true => exact hlooks.mono Ledger.LooksIf.confined
      | false =>
        simp only [Bool.false_eq_true, if_false]
        -- A call of nothing to an account that is not there is skipped.
        split
        · exact hlooks.mono Ledger.LooksIf.confined
        · rw [Attempt.bind_pure_apply]
          -- An absent account is blank in every part, so making it changes none.
          have habsent : (Ledger.accountExists s.store target m.view.ledger).1 = .ok false :=
            congrArg Prod.fst (watched_eq hfound).1
          have hcreate : m₁.Touches Ledger.Unrelated
              (Exec.view (View.createAccount s.store target) m₁).2 :=
            (meets_op (f := fun _ => .done) (.createAccount target) trivial rfl).keeps m₁
          have hlooked : m.Touches Ledger.Unrelated m₁ := hlooks.mono fun _ => trivial
          refine ⟨?_, (IsTrans.trans _ _ _ hlooked hcreate).rest⟩
          exact Ledger.confined_createAccount hstore hlooks.ledger habsent
  error he := (prepareTarget_meets (R := Ledger.Unrelated) target value).error he

/-! ### Opening an operation -/

namespace Operation

/-- A footprint with room for what an operation does before its code runs: a creation that passes
its entry checks counts up the nonce of its caller and puts an account in place. -/
def Founds (s : Setting) (op : Operation) (m : Machine) (F : Footprint) : Prop :=
  op.callType = .create → op.Passes s m → F op.record.sender .nonce ∧
    ∀ address, op.derived? s m = some address → ∀ part, F address part

/-- Nothing but a creation changes anything before its code runs. -/
theorem prepare_confined_of_call (hs : s.env.transfers = .balance) (hstore : s.store.Blank)
    (hop : op.callType ≠ .create) :
    (op.prepare s).Meets (Machine.Touches (Ledger.Confined s.store F)) Internal :=
  prepare_touches_of Ledger.LooksIf.confined (Exec.prepareTarget_confined hstore)
    (fun caller target value => hs ▸ TransferPolicy.balance_confined hstore caller target value) hop

/-- **Opening an operation** is within its footprint, however the opening ends. -/
theorem opening_confined (hs : s.env.transfers = .balance) (hstore : s.store.Blank)
    (hF : op.Founds s m F) {r : Except CallError Opening} (h : op.opening s m = (r, m')) :
    Ledger.Confined s.store F m.view.ledger m'.view.ledger := by
  -- The entry check only looks.
  have hchecks := op.refusal?_meets (Setting.transfers_honest hs) id
  unfold opening at h
  rcases hrefusal : op.refusal? s m with ⟨e | _ | result, m₁⟩
  · rw [Attempt.bind_of_error hrefusal] at h
    cases h
    -- A check that failed, or that ended the operation, has written nothing.
    exact (hchecks.of_eq hrefusal).ledger.confined
  · rw [Attempt.bind_of_ok hrefusal] at h
    have hpass : op.Passes s m := (refusal?_eq_none_iff hrefusal).mp rfl
    have h₁ := (hchecks.of_eq hrefusal).ledger.confined (F := F)
    refine IsTrans.trans _ _ _ h₁ ?_
    by_cases hop : op.callType = .create
    · -- A creation that has passed writes its sender's nonce and its new account, which `F` has.
      obtain ⟨hsender, hplaced⟩ := hF hop hpass
      cases op with
      | create caller initCode gas value =>
        have hcounts : (Exec.countUp s caller).Meets
            (Machine.Touches (Ledger.Confined s.store F)) Internal :=
          Exec.countUp_meets_of Ledger.LooksIf.confined (Exec.setNonce_confined hstore hsender)
        -- The nonce is counted up first, and that may fail.
        simp only [prepare, Exec.prepareCreation] at h
        rcases hcounted : Exec.countUp s caller m₁ with ⟨e | nonce, m₂⟩
        · rw [Attempt.bind_of_error hcounted] at h
          cases h
          exact (hcounts.of_eq hcounted).ledger
        · -- Once the nonce is known, so is the address of the new account.
          have haddress := hplaced _ (derived?_of_counted hrefusal hcounted)
          refine IsTrans.trans _ _ _ (hcounts.of_eq hcounted).ledger ?_
          rw [Attempt.bind_of_ok hcounted,
            Attempt.bind_of_ok (rfl : Exec.view View.snapshot m₂ = _),
            Attempt.bind_of_ok (Attempt.modify_apply _ _)] at h
          refine (Attempt.Meets.of_eq (R := Machine.Touches (Ledger.Confined s.store F))
            (E := Internal) ?_ h).ledger
          -- What remains is to make the account, to set its nonce and to pay it.
          refine .bind (Exec.found_meets_of ?_ ?_ ?_) fun _ => .bind .get fun _ => .pure _
          · refine Exec.confined_op (f := fun _ => .done) hstore (.createAccount _) ?_ rfl
            rintro _ part rfl
            exact haddress part
          · exact Exec.setNonce_confined hstore (haddress .nonce)
          · rw [hs]
            exact TransferPolicy.balance_confined hstore _ _ _
      | _ => cases hop
    · -- Preparing a call moves money at most, and balances are no part of a footprint.
      exact ((prepare_confined_of_call hs hstore hop).of_eq h).ledger
  · rw [Attempt.bind_of_ok hrefusal] at h
    cases h
    exact (hchecks.of_eq hrefusal).ledger.confined

/-- The ledger that an operation's snapshot is of is within the footprint. -/
theorem Stands.confined (hstore : s.store.Blank) {l base : Ledger}
    (hF : op.callType = .create → F op.record.sender .nonce) (h : op.Stands s.store l base) :
    Ledger.Confined s.store F l base := by
  cases op with
  | create caller initCode gas value =>
    -- A creation stands on the ledger with the nonce counted up.
    obtain ⟨nonce, next, l₁, hnonce, -, hset⟩ := h
    have h₁ : Ledger.Confined s.store F l (Ledger.nonce s.store caller l).2 :=
      Ledger.confined_of_perform hstore (.nonce caller) (fun _ _ h => h.elim) rfl l
    have h₂ : Ledger.Confined s.store F l₁ (Ledger.setNonce s.store caller next l₁).2 := by
      refine Ledger.confined_of_perform (f := fun _ => .done) hstore (.setNonce caller next) ?_
        rfl l₁
      rintro _ _ ⟨rfl, rfl⟩
      exact hF rfl
    rw [hnonce] at h₁
    rw [hset] at h₂
    exact IsTrans.trans _ _ _ h₁ h₂
  | call | callCode | delegateCall =>
    obtain rfl : base = l := h
    exact Std.Refl.refl base

/-- So is everything that going back to the snapshot may lead to. By the time of the snapshot the
nonce of a creation's caller has been counted up, and nothing else was written. -/
theorem opening_back_confined (hp : s.env.transfers.Honest s.store) (hstore : s.store.Blank)
    (hF : op.callType = .create → op.Passes s m → F op.record.sender .nonce) {frame : CallFrame}
    {snapshot : Ledger.Snapshot} {l : Ledger}
    (h : op.opening s m = (.ok (.started frame snapshot), m'))
    (hran : Ledger.Leads s.store m'.view.ledger l) :
    Ledger.Confined s.store F m.view.ledger (Ledger.revertTo snapshot l).2 := by
  obtain ⟨m₁, base, hpass, hlooks, hstands, rfl, hleads⟩ := opening_stands hp h
  have hbase := hstands.confined (F := F) hstore fun hop => hF hop hpass
  exact (IsTrans.trans _ _ _ hlooks.ledger.confined hbase).back (hleads.trans hran)

end Operation

/-! ### Runs -/

namespace Script

variable {linked : Bool} {host : Host} {input : Bytes} {a a' : Active} {R : Ledger → Ledger → Prop}

/-- An instruction writes the storage on which its frame acts, or does what the operation does that
it asks for. -/
theorem step_within [IsPreorder Ledger R]
    (hset : ∀ key value, (Exec.view (View.setSlot s.store a.frame.account key value)).Meets
      (Machine.Touches R) Internal)
    {i : Instruction} {r : Except CallError (Option Bytes)}
    (h : step linked s host input i a = (r, a'))
    (hasked : ∀ x ∈ requests input [(i, a)], R x.2.view.ledger (host x.1 x.2).2.view.ledger) :
    R a.machine.view.ledger a'.machine.view.ledger := by
  -- An instruction that asks for nothing can only write a slot of the own account.
  cases hrequest : i.request? input a with
  | none =>
    have hquiet : Quiet R i a r a' := step_quiet_of hset hrequest h
    exact hquiet.moves.ledger
  | some op =>
    -- An operation is written down as whatever the host did.
    rw [requests_of_some hrequest] at hasked
    rw [step_request hrequest] at h
    have hview : a'.machine.view = (host op a.machine).2.view := by
      rw [← resumed_view op a, h]
    rw [hview]
    exact hasked _ List.mem_cons_self

/-- **A run is within a relation** if writing the storage is on which its frame acts, and all that
its code asks for. -/
theorem Trail.within [IsPreorder Ledger R] {steps : List (Instruction × Active)}
    {r : Except CallError Bytes} (h : Trail linked s host input a steps r a')
    (hset : ∀ key value, (Exec.view (View.setSlot s.store a.frame.account key value)).Meets
      (Machine.Touches R) Internal)
    (hasked : ∀ x ∈ requests input steps, R x.2.view.ledger (host x.1 x.2).2.view.ledger) :
    R a.machine.view.ledger a'.machine.view.ledger := by
  -- Induction on the trail. The first instruction asks for the head of the requests.
  induction h with
  | @halted a => exact Std.Refl.refl a.machine.view.ledger
  | failed h => exact step_within hset h hasked
  | ended h => exact step_within hset h hasked
  | @more a a₁ a' i steps r h _ ih =>
    rw [requests_cons] at hasked
    have hfirst := step_within hset h fun x hx => hasked x (List.mem_append_left _ hx)
    -- After the first instruction the frame still acts on the same account.
    have hgone : SameRun a (step linked s host input i a).2 := step_continues i a
    rw [h] at hgone
    have hsame : a₁.frame.account = a.frame.account := CallFrame.Continues.account hgone
    rw [← hsame] at hset
    exact IsTrans.trans _ _ _ hfirst (ih hset fun x hx => hasked x (List.mem_append_right _ hx))

/-- **A run is within the footprint** if the storage on which its frame acts is, and so is all that
its code asks for. -/
theorem Trail.confined (hstore : s.store.Blank) {steps : List (Instruction × Active)}
    {r : Except CallError Bytes} (h : Trail linked s host input a steps r a')
    (hown : F a.frame.account .storage)
    (hasked : ∀ x ∈ requests input steps,
      Ledger.Confined s.store F x.2.view.ledger (host x.1 x.2).2.view.ledger) :
    Ledger.Confined s.store F a.machine.view.ledger a'.machine.view.ledger := by
  refine h.within (fun key value => ?_) hasked
  refine Exec.confined_op (f := fun _ => .done) hstore (.setSlot a.frame.account key value) ?_ rfl
  rintro _ _ ⟨rfl, rfl⟩
  exact hown

end Script

/-! ### The footprint of a tree -/

/-- The footprint of an operation itself, as its record has it: the storage of the account on which
its code acts, and for a creation the code of the new account. The nonces of the new account and of
the one that creates it are in it if the creation passes its entry checks. -/
def CallNode.writes (s : Setting) (call : CallNode) : Footprint := fun a part =>
  let record := call.traceRecord s
  match part with
  | .storage => record.executing = a
  | .code => record.callType = .create ∧ record.target = a
  | .nonce => record.callType = .create ∧ call.op.Passes s call.before ∧
      (record.sender = a ∨ record.target = a)

/-- The **footprint of a tree**: those of all its operations. -/
def CallTree.writes (s : Setting) (t : CallTree) : Footprint := fun a part =>
  ∃ u : CallTree, u.PartOf t ∧ u.call.writes s a part

theorem CallTree.writes_le {t u : CallTree} (hu : u ∈ t.children) :
    u.writes s ≤ t.writes s := by
  rintro a part ⟨v, hv, hwrites⟩
  exact ⟨v, .child hu hv, hwrites⟩

namespace TraceRecord

variable (result : Except CallError CallResult) (record : TraceRecord)

/-! How an operation ends does not change what was asked for. -/

@[simp] theorem ended_callType : (record.ended result).callType = record.callType := by
  cases result <;> rfl

@[simp] theorem ended_sender : (record.ended result).sender = record.sender := by
  cases result <;> rfl

@[simp] theorem ended_target : (record.ended result).target = record.target := by
  cases result <;> rfl

@[simp] theorem ended_executing : (record.ended result).executing = record.executing := by
  cases result <;> rfl

end TraceRecord

namespace Operation

variable {linked : Bool} {levels : Nat}

@[simp] theorem openRecord_callType (s : Setting) (op : Operation) (m : Machine) :
    (op.openRecord s m).callType = op.callType := by
  cases op <;> rfl

/-- What an operation does before its code runs is in the footprint of its node. -/
theorem founds_of_tree (h : (op.tree linked s levels m).call.writes s ≤ F) :
    op.Founds s (op.entered m) F := by
  intro hop hpass
  have hrecord := traceRecord_eq linked s levels op m
  have htype : ((op.tree linked s levels m).call.traceRecord s).callType = .create := by
    -- The record of the call shows the same type, and the entry check is that of the same machine.
    rw [hrecord, TraceRecord.ended_callType, openRecord_callType, hop]
  have hpasses : (op.tree linked s levels m).call.op.Passes s
      (op.tree linked s levels m).call.before := by
    rw [tree_op, tree_before]
    exact hpass
  -- The sender's nonce is in the footprint, and so is every part of the new account.
  refine ⟨h _ .nonce ⟨htype, hpasses, .inl ?_⟩, fun address haddress part => h _ part ?_⟩
  · rw [hrecord, TraceRecord.ended_sender]
    rfl
  · have htarget : ((op.tree linked s levels m).call.traceRecord s).target = address := by
      rw [hrecord, TraceRecord.ended_target, openRecord, haddress]
      rfl
    cases part with
    | storage =>
      show TraceRecord.executing _ = address
      rw [← htarget]
      unfold TraceRecord.executing
      rw [htype]
    | code => exact ⟨htype, htarget⟩
    | nonce => exact ⟨htype, hpasses, .inr htarget⟩

/-- **The end of an operation** whose code has run is where the run has led, or the point to which
the operation goes back, and a creation may have set its code. -/
theorem ended_confined (hstore : s.store.Blank) {address : Address} {snapshot : Ledger.Snapshot}
    {a : Active} {r : Except CallError Bytes} {result : Except CallError Outcome} {l : Ledger}
    (hends : ∀ o, result = .ok o → op.Ends s address snapshot a r o m')
    (haborts : ∀ e, result = .error e → Aborts s address snapshot a r e m')
    (hcode : op.callType = .create → F address .code)
    (hran : Ledger.Confined s.store F l a.machine.view.ledger)
    (hback : Ledger.Confined s.store F l (Ledger.revertTo snapshot a.machine.view.ledger).2) :
    Ledger.Confined s.store F l m'.view.ledger := by
  cases result with
  -- The operation ended: its code is kept, stored or taken back.
  | ok o =>
    cases hends o rfl with
    | returned => exact hran
    | bare => exact hran
    -- Code is stored at the new account, which the footprint has for a creation.
    | @installed code _ _ _ hop _ _ hset =>
      have hsets : (Exec.view (View.setCode s.store address code)).Meets
          (Machine.Touches (Ledger.Confined s.store F)) Internal := by
        refine Exec.confined_op (f := fun _ => .done) hstore (.setCode address code) ?_ rfl
        rintro _ _ ⟨rfl, rfl⟩
        exact hcode hop
      exact IsTrans.trans _ _ _ hran (hsets.of_eq hset).ledger
    | undone _ _ hrevert =>
      rw [Exec.watched_ledger hrevert]
      exact hback
  -- The operation was aborted: it stops where it was, or in going back.
  | error e =>
    cases haborts e rfl with
    | passed => exact hran
    | unstored hset => exact IsTrans.trans _ _ _ hran (Exec.setCode_failed hset)
    | stuck hrevert =>
      rw [Exec.watched_ledger hrevert]
      exact hback

/-- **An operation is confined to a footprint** that has its own node in it and all that its code
asks for, whatever comes of the operation. -/
theorem confined_of_children (hs : s.env.transfers = .balance) (hstore : s.store.Blank)
    {result : Except CallError Outcome}
    (h : Script.host linked s (levels + 1) op m = (result, m'))
    (hown : (op.tree linked s (levels + 1) m).call.writes s ≤ F)
    (hasked : ∀ u ∈ (op.tree linked s (levels + 1) m).children,
      Ledger.Confined s.store F u.call.before.view.ledger u.call.after.view.ledger) :
    Ledger.Confined s.store F m.view.ledger m'.view.ledger := by
  have hfounds := founds_of_tree hown
  obtain ⟨m₂, hcourse, rfl⟩ := host_course h
  -- Closing the trace node does not touch the ledger.
  show Ledger.Confined s.store F m.view.ledger m₂.view.ledger
  cases hcourse with
  | unopened hopen => exact opening_confined (m := op.entered m) hs hstore hfounds hopen
  | unstarted hopen => exact opening_confined (m := op.entered m) hs hstore hfounds hopen
  | @ran frame snapshot m₁ _ run a _ hopen hrun htrail hends haborts =>
    have hopened := opening_confined (m := op.entered m) hs hstore hfounds hopen
    obtain ⟨-, -, haccount⟩ := opening_frame hopen
    have hstorage : F frame.account .storage := by
      refine hown _ .storage ?_
      show TraceRecord.executing _ = _
      rw [traceRecord_eq, TraceRecord.ended_executing, haccount]
    -- The code writes to its own account and through the operations it asks for.
    have hran : Ledger.Confined s.store F m₁.view.ledger a.machine.view.ledger :=
      htrail.confined hstore hstorage (asked_of_children hrun hasked)
    refine ended_confined hstore hends haborts (fun hop => ?_) (IsTrans.trans _ _ _ hopened hran)
      (opening_back_confined (m := op.entered m) (Setting.transfers_honest hs) hstore
        (fun hop hpass => (hfounds hop hpass).1) hopen hran.leads)
    -- The account of a creation's frame is the target of its record.
    have hrecord := traceRecord_eq linked s (levels + 1) op m
    have htype : (op.openRecord s m).callType = .create := by rw [openRecord_callType, hop]
    refine hown _ .code ⟨?_, ?_⟩
    · rw [hrecord, TraceRecord.ended_callType, htype]
    · rw [hrecord, TraceRecord.ended_target, haccount]
      unfold TraceRecord.executing
      rw [htype]

end Operation

variable {linked : Bool}

/-- **Every operation is confined to the footprint of its tree**, at every level and whatever comes
of it. -/
theorem Script.host_confined (hs : s.env.transfers = .balance) (hstore : s.store.Blank)
    (linked : Bool) (levels : Nat) (op : Operation) (m : Machine) :
    Ledger.Confined s.store ((op.tree linked s levels m).writes s) m.view.ledger
      (host linked s levels op m).2.view.ledger := by
  -- By the levels: the footprints of the operations below are parts of this one.
  induction levels generalizing op m with
  | zero => exact Std.Refl.refl m.view.ledger
  | succ levels ih =>
    have hdone : host linked s (levels + 1) op m = (_, _) := Prod.mk.eta.symm
    refine Operation.confined_of_children hs hstore hdone (fun a part h => ⟨_, .root _, h⟩) ?_
    -- A child writes within its own footprint, hence within that of the whole tree.
    intro u hu
    have hle := CallTree.writes_le (s := s) hu
    obtain ⟨n, run, op', m', heq, -, -, rfl⟩ := Operation.child_cases hu
    obtain rfl : levels = n := Nat.succ.inj heq
    have hchild := (ih op' m').mono hle
    rw [Operation.tree_done] at hchild
    rw [Operation.tree_before]
    exact hchild

/-! ### Who acts in a tree -/

/-- Code asks for operations in the name of the account on which its frame acts. -/
theorem Instruction.request?_sender {input : Bytes} {a : Active} {i : Instruction}
    (h : i.request? input a = some op) : op.record.sender = a.frame.account := by
  cases i with
  | call | callCode | delegateCall | create =>
    cases h
    rfl
  | recurse =>
    obtain ⟨-, rfl⟩ := request?_recurse_eq_some h
    rfl
  | _ => cases h

namespace CallTree

/-- A tree whose records **hang together**: each operation comes from the account on which the code
above it acts. -/
def Chained (s : Setting) (t : CallTree) : Prop :=
  ∀ u : CallTree, u.PartOf t → ∀ w ∈ u.children,
    (w.call.traceRecord s).sender = (u.call.traceRecord s).executing

theorem child_sender {levels : Nat} {u : CallTree} (hu : u ∈ (op.tree linked s levels m).children) :
    (u.call.traceRecord s).sender =
      ((op.tree linked s levels m).call.traceRecord s).executing := by
  -- The child was asked for by an instruction of the frame of its parent.
  obtain ⟨n, run, op', m', rfl, hrun, hasked, rfl⟩ := Operation.child_cases hu
  obtain ⟨i, b, hstep, hrequest, rfl⟩ := Script.mem_requests.mp hasked
  obtain ⟨frame, snapshot, m₁, a, hopen, hsteps, hnested⟩ := Operation.codeRun?_eq_some hrun
  obtain ⟨a₁, htrail, -⟩ := Script.nested_trail hnested
  obtain ⟨-, -, haccount⟩ := Operation.opening_frame hopen
  rw [hsteps] at hstep
  have hgone : frame.Continues b.frame := htrail.continues.2 _ hstep
  calc
    ((op'.tree linked s n b.machine).call.traceRecord s).sender = op'.record.sender := by
      rw [Operation.traceRecord_eq, TraceRecord.ended_sender]
      rfl
    _ = b.frame.account := Instruction.request?_sender hrequest
    _ = frame.account := hgone.account
    _ = ((op.tree linked s (n + 1) m).call.traceRecord s).executing := by
      rw [Operation.traceRecord_eq, TraceRecord.ended_executing, haccount]

/-- **The records of an operation hang together** with those of the operations below it. -/
theorem chained (linked : Bool) (levels : Nat) (op : Operation) (m : Machine) :
    (op.tree linked s levels m).Chained s := by
  intro u hu w hw
  obtain ⟨_, _, _, rfl, -⟩ := part_is_tree s.env.transfers.within_unrelated hu
  exact child_sender hw

/-- **How an account comes to act** in a tree: the operation at the root comes from it, or it was
called or created. -/
theorem reached {t u : CallTree} {a : Address}
    (hchained : t.Chained s) (hu : u.PartOf t)
    (ha : (u.call.traceRecord s).sender = a ∨ (u.call.traceRecord s).executing = a) :
    (t.call.traceRecord s).sender = a ∨ ∃ v : CallTree, v.PartOf t ∧
      ((v.call.traceRecord s).callType = .call ∨ (v.call.traceRecord s).callType = .create) ∧
      (v.call.traceRecord s).target = a := by
  -- The account on which the code of an operation acts is its target or its sender.
  have root : ∀ {v : CallTree}, (v.call.traceRecord s).executing = a →
      (v.call.traceRecord s).sender = a ∨
        ((v.call.traceRecord s).callType = .call ∨ (v.call.traceRecord s).callType = .create) ∧
        (v.call.traceRecord s).target = a := by
    intro v hv
    unfold TraceRecord.executing at hv
    cases htype : (v.call.traceRecord s).callType <;> rw [htype] at hv
    · exact .inr ⟨.inl rfl, hv⟩
    · exact .inl hv
    · exact .inl hv
    · exact .inr ⟨.inr rfl, hv⟩
  -- Down the tree: an account reached further down was reached by a call on the way.
  induction hu with
  | root =>
    rcases ha with ha | ha
    · exact .inl ha
    · exact (root ha).imp_right fun h => ⟨u, .root u, h⟩
  | @child w t hw hu ih =>
    -- What the child comes from is what the code of the root acts on.
    rcases ih fun v hv => hchained v (.child hw hv) with hw' | ⟨v, hv, h⟩
    · rw [hchained t (.root t) w hw] at hw'
      exact (root hw').imp_right fun h => ⟨t, .root t, h⟩
    · exact .inr ⟨v, .child hw hv, h⟩

/-- An account whose code is **only lent**: the operation at the root does not come from it, and
whatever goes to it runs its code on another account. -/
def OnlyLends (s : Setting) (t : CallTree) (a : Address) : Prop :=
  (t.call.traceRecord s).sender ≠ a ∧ ∀ u : CallTree, u.PartOf t →
    (u.call.traceRecord s).target = a →
      (u.call.traceRecord s).callType = .callCode ∨ (u.call.traceRecord s).callType = .delegateCall

/-- **What an operation has changed**, for those who read the ledger before and after it, in terms
of the records in its tree. -/
structure KeepsToFootprint (s : Setting) (t : CallTree) : Prop where
  /-- A slot is another one only if the account is one on which code has acted. -/
  slot : ∀ a key, (Ledger.slot s.store a key t.call.after.view.ledger).1 ≠
      (Ledger.slot s.store a key t.call.before.view.ledger).1 →
    ∃ u : CallTree, u.PartOf t ∧ (u.call.traceRecord s).executing = a
  /-- The digest of the code is another one only if the account is the target of a creation. -/
  codeHash : ∀ a, (Ledger.codeHash s.store a t.call.after.view.ledger).1 ≠
      (Ledger.codeHash s.store a t.call.before.view.ledger).1 →
    ∃ u : CallTree, u.PartOf t ∧ (u.call.traceRecord s).callType = .create ∧
      (u.call.traceRecord s).target = a
  /-- The nonce is another one only if the account is the sender or the target of a creation that
  has passed its entry checks. -/
  nonce : ∀ a, (Ledger.nonce s.store a t.call.after.view.ledger).1 ≠
      (Ledger.nonce s.store a t.call.before.view.ledger).1 →
    ∃ u : CallTree, u.PartOf t ∧ (u.call.traceRecord s).callType = .create ∧
      u.call.op.Passes s u.call.before ∧
      ((u.call.traceRecord s).sender = a ∨ (u.call.traceRecord s).target = a)
  /-- An account that has existed still exists. -/
  remains : ∀ a, (Ledger.accountExists s.store a t.call.before.view.ledger).1 = .ok true →
    (Ledger.accountExists s.store a t.call.after.view.ledger).1 = .ok true
  /-- An account whose code is only lent is what it was. -/
  lent : ∀ a, t.OnlyLends s a →
    (∀ key, (Ledger.slot s.store a key t.call.after.view.ledger).1 =
      (Ledger.slot s.store a key t.call.before.view.ledger).1) ∧
    (Ledger.codeHash s.store a t.call.after.view.ledger).1 =
      (Ledger.codeHash s.store a t.call.before.view.ledger).1 ∧
    (Ledger.nonce s.store a t.call.after.view.ledger).1 =
      (Ledger.nonce s.store a t.call.before.view.ledger).1

/-- An account whose code is only lent is not in the footprint. -/
theorem OnlyLends.not_writes {t : CallTree} {a : Address} (h : t.OnlyLends s a)
    (hchained : t.Chained s) (part : Part) : ¬ t.writes s a part := by
  rintro ⟨u, hu, hwrites⟩
  obtain ⟨hroot, hlent⟩ := h
  -- In each case the account acts, and so it would have been called or created.
  have hacts : (u.call.traceRecord s).sender = a ∨ (u.call.traceRecord s).executing = a ∨
      (u.call.traceRecord s).callType = .create ∧ (u.call.traceRecord s).target = a := by
    cases part with
    | storage => exact .inr (.inl hwrites)
    | code => exact .inr (.inr hwrites)
    | nonce =>
      obtain ⟨htype, -, hsender | htarget⟩ := hwrites
      · exact .inl hsender
      · exact .inr (.inr ⟨htype, htarget⟩)
  have hreached : (t.call.traceRecord s).sender = a ∨ ∃ v : CallTree, v.PartOf t ∧
      ((v.call.traceRecord s).callType = .call ∨ (v.call.traceRecord s).callType = .create) ∧
      (v.call.traceRecord s).target = a := by
    rcases hacts with hsends | hexecutes | ⟨htype, htarget⟩
    · exact reached hchained hu (.inl hsends)
    · exact reached hchained hu (.inr hexecutes)
    · exact .inr ⟨u, hu, .inr htype, htarget⟩
  -- A call or creation of the account is what lending its code excludes.
  rcases hreached with hsends | ⟨v, hv, htype, htarget⟩
  · exact hroot hsends
  · rcases hlent v hv htarget with hkind | hkind <;> rw [hkind] at htype <;>
      rcases htype with htype | htype <;> cases htype

/-- An operation that is confined to the footprint of its tree keeps to it. -/
theorem keepsToFootprint {t : CallTree} (hl : t.call.before.view.ledger.Sound s.store)
    (h : Ledger.Confined s.store (t.writes s) t.call.before.view.ledger
      t.call.after.view.ledger)
    (hchained : t.Chained s) : t.KeepsToFootprint s where
  slot _ key hne := not_not.mp fun hnot => hne (h.slot_eq hl hnot key)
  codeHash _ hne := not_not.mp fun hnot => hne (h.codeHash_eq hl hnot)
  nonce _ hne := not_not.mp fun hnot => hne (h.nonce_eq hl hnot)
  remains _ hp := h.accountExists hl hp
  lent _ ha := ⟨fun key => h.slot_eq hl (ha.not_writes hchained .storage) key,
    h.codeHash_eq hl (ha.not_writes hchained .code), h.nonce_eq hl (ha.not_writes hchained .nonce)⟩

/-- **The footprint of an execution.** Over a store that is blank, and with the policy of balances,
every operation in the tree of an outermost one keeps to the footprint that its records give,
whatever comes of it; and a tracer of all operations holds the records of the tree. -/
theorem footprint_of_execution (hs : s.env.transfers = .balance) (hstore : s.store.Blank)
    (linked : Bool) (op : Operation) {r : Except CallError Outcome}
    (hreachable : m.view.ledger.Reachable s.store) (hdepth : m.depth = 0) (hfull : m.tracer.Full)
    (h : (Script.dispatcher linked s).perform op m = (r, m')) :
    let tree := Script.callTree linked s op m
    m'.tracer.root? = some (tree.recorded s) ∧ tree.call.before = m ∧ tree.call.after = m' ∧
      ∀ t : CallTree, t.PartOf tree → t.KeepsToFootprint s := by
  intro tree
  -- The tracer has room for every level from here on.
  have hroom : s.HasRoom (s.limits.maxCallDepth.toNat + 2) m.depth := hdepth ▸ .outermost s
  have hrecords := Script.host_records h hroom hfull
  rw [decide_eq_true hdepth] at hrecords
  refine ⟨by rw [hrecords]; rfl, Operation.tree_before _, ?_, fun t ht => ?_⟩
  · rw [Operation.callTree_done] at h
    exact congrArg Prod.snd h
  · obtain ⟨n, op', m₁, rfl, hleads⟩ := part_is_tree (Setting.transfers_honest hs).leads ht
    -- The footprint of each part bounds what that part has done.
    have hconfined := Script.host_confined hs hstore linked n op' m₁
    rw [Operation.tree_done] at hconfined
    refine keepsToFootprint ?_ ?_ (chained linked n op' m₁)
    · rw [Operation.tree_before]
      exact (hreachable.leads hleads).sound
    · rw [Operation.tree_before]
      exact hconfined

end CallTree

end

/-- A world in which the second account runs the code of the third one on itself, and then creates
an account. -/
def Setting.lending : Setting where
  store := {
    account address := .ok (some {
      nonce := 0, balance := 0, storageRoot := emptyTrieHash
      codeHash := if address = 2 then 1 else if address = 3 then 2 else emptyCodeHash })
    slot _ _ := .ok 0
    code codeHash := .ok <|
      if codeHash = 1 then
        Script.encode [.delegateCall 3 0, .create 0 0 (Script.encode [.store 1 1])]
      else Script.encode [.store 5 7] }
  chain := default

/-- The code of the third account has written a slot of the second one, and none of its own. -/
theorem CallTree.footprint_of_execution_sample :
    let store := Setting.lending.store
    let op := Operation.call 1 2 [] 0 0
    let tree := Script.callTree true .lending op { tracer := .full }
    let done := (Script.dispatcher true .lending).perform op { tracer := .full }
    let after := done.2.view.ledger
    ((Ledger.slot store 2 5 after).1, (Ledger.slot store 3 5 after).1,
        (Ledger.nonce store 2 after).1) = (.ok 7, .ok 0, .ok 1) ∧
      done.2.tracer.root? = some (tree.recorded .lending) ∧
      tree.call.before = { tracer := .full } ∧ tree.call.after = done.2 ∧
      ∀ t : CallTree, t.PartOf tree → t.KeepsToFootprint .lending := by
  intro store op tree done after
  have hdone : done = (done.1, done.2) := Prod.mk.eta.symm
  exact ⟨by decide +kernel,
    @footprint_of_execution .lending { tracer := .full } done.2 rfl (fun _ _ _ => rfl) true op
      done.1 .new rfl ⟨rfl, rfl⟩ hdone⟩

end MessageCall
