import MessageCall.Proofs.Dispatch.CallTree
import MessageCall.Proofs.State.Backing

/-!
# All or nothing

An operation that is reverted has changed nothing that shows. There is one exception: a creation
that has passed its entry checks has counted up the nonce of its caller, since it does so before it
takes its snapshot.

A refused operation has only looked at the ledger. Any other operation that is reverted has gone
back to its snapshot, and whatever its frame and the frames below it did in between is gone
(`Ledger.Evolves.report_revertTo`). So the reports afterwards are those of the ledger that the
snapshot is of, and equal reports show the same.
-/

namespace MessageCall

variable {store : Store} {l base l' : Ledger} {caller : Address}

/-! ### A nonce that is counted up -/

/-- A ledger shows what another one showed, but one nonce is one higher, and its account exists. -/
structure Ledger.CountsUp (store : Store) (caller : Address) (l l' : Ledger) : Prop where
  counted : ∃ nonce next, (Ledger.nonce store caller l).1 = .ok nonce ∧
    next.toNat = nonce.toNat + 1 ∧
    (Ledger.account store caller l').1 =
      (Ledger.account store caller l).1.map ({ · with nonce := next }) ∧
    Ledger.ShowsSame store (Ledger.setNonce store caller next l).2 l'
  present : (Ledger.accountExists store caller l').1 = .ok true
  others : ∀ address, address ≠ caller →
    (Ledger.accountExists store address l').1 = (Ledger.accountExists store address l).1 ∧
    (Ledger.account store address l').1 = (Ledger.account store address l).1
  slots : ∀ address key,
    (Ledger.slot store address key l').1 = (Ledger.slot store address key l).1

theorem toNat_of_succ? {n next : UInt64} (h : succ? n = some next) : next.toNat = n.toNat + 1 := by
  unfold succ? at h
  by_cases hn : n.toNat + 1 < UInt64.size
  · rw [if_pos hn] at h
    cases h
    rw [UInt64.toNat_add]
    exact Nat.mod_eq_of_lt hn
  · rw [if_neg hn] at h
    cases h

namespace Ledger

/-- The reports once a nonce has been set. -/
theorem Sound.report_setNonce (hstore : store.Blank) (h : l.Sound store) {r : Report}
    (hr : l.report store caller = .ok r) (next : UInt64) :
    (Ledger.setNonce store caller next l).2.report store = Function.update (l.report store) caller
      (.ok { r with present := true, info := { r.info with nonce := next } }) := by
  obtain ⟨l₁, hset, -, hreport, -⟩ := setNonce_spec h caller next
  rw [hset]
  show l₁.report store = _
  rw [hreport, hr]
  show Function.update (l.report store) caller
    (.ok ((r.enliven store caller).mapInfo ({ · with nonce := next }))) = _
  rw [h.enliven_eq hstore hr]
  rfl

/-- A nonce that is answered is that of a report. -/
theorem Sound.report_of_nonce (h : l.Sound store) {n : UInt64}
    (hnonce : (Ledger.nonce store caller l).1 = .ok n) :
    ∃ r, l.report store caller = .ok r ∧ r.info.nonce = n := by
  rw [h.nonce_eq] at hnonce
  cases hr : l.report store caller with
  | error e =>
    rw [hr] at hnonce
    cases hnonce
  | ok r =>
    rw [hr] at hnonce
    cases hnonce
    exact ⟨r, rfl, rfl⟩

/-- A ledger that reports what it would after counting up a nonce has counted it up. -/
theorem Sound.countsUp (hstore : store.Reliable) (h : l.Sound store) (h' : l'.Sound store)
    {nonce next : UInt64} (hnonce : (Ledger.nonce store caller l).1 = .ok nonce)
    (hnext : succ? nonce = some next)
    (hreport : l'.report store = (Ledger.setNonce store caller next l).2.report store) :
    CountsUp store caller l l' := by
  -- Both reports of the caller are known, and they differ in the nonce alone.
  obtain ⟨r, hr⟩ := exists_report hstore.answers l caller
  have hafter := h.report_setNonce hstore.blank hr next
  have hat : l'.report store caller =
      .ok { r with present := true, info := { r.info with nonce := next } } := by
    rw [hreport, hafter, Function.update_self]
  -- No other report than that of the caller is different.
  have hother : ∀ address, address ≠ caller → l'.report store address = l.report store address := by
    intro address hne
    rw [hreport, hafter, Function.update_of_ne hne]
  constructor
  · refine ⟨nonce, next, hnonce, toNat_of_succ? hnext, ?_, ?_⟩
    · obtain ⟨_, hm, -⟩ := account_spec h caller
      obtain ⟨_, hm', -⟩ := account_spec h' caller
      rw [hm, hm', hr, hat]
      rfl
    · have hset : Leads store l (Ledger.setNonce store caller next l).2 :=
        leads_of_perform (f := fun _ => .done) (.setNonce caller next) rfl l
      exact (hset.evolves h).sound.showsSame hstore h' hreport
  · obtain ⟨_, hm', -⟩ := accountExists_spec h' caller
    rw [hm', hat]
    rfl
  · intro address hne
    obtain ⟨_, hm, -⟩ := accountExists_spec h address
    obtain ⟨_, hm', -⟩ := accountExists_spec h' address
    obtain ⟨_, hinfo, -⟩ := account_spec h address
    obtain ⟨_, hinfo', -⟩ := account_spec h' address
    rw [hm, hm', hinfo, hinfo', hother address hne]
    exact ⟨rfl, rfl⟩
  · -- Slots are the same everywhere, for the caller keeps its storage.
    intro address key
    obtain ⟨_, hm, -⟩ := slot_spec h address key
    obtain ⟨_, hm', -⟩ := slot_spec h' address key
    rw [hm, hm']
    by_cases hne : address = caller
    · subst hne
      rw [hr, hat]
      rfl
    · rw [hother address hne]

end Ledger

/-! ### Operations -/

/-- **What an operation leaves behind** that was reverted with an error. -/
structure Operation.Undone (s : Setting) (op : Operation) (before after : Machine)
    (result : CallResult) (e : CallError) : Prop where
  same : ¬ (op.callType = .create ∧ op.Passes s before) →
    Ledger.ShowsSame s.store before.view.ledger after.view.ledger
  counted : ∀ caller initCode gas value, op = .create caller initCode gas value →
    op.Passes s before →
      Ledger.CountsUp s.store caller before.view.ledger after.view.ledger
  output : result.output = []
  gasLeft : result.gasLeft = if e.refuses then op.gas else 0

section

variable {s : Setting} {op : Operation} {m m₁ m' : Machine} {o : Outcome} {e : CallError}
  {linked : Bool}

namespace Operation

theorem gasLeft_refused (gas : Gas) (e : CallError) : (CallResult.refused gas e).gasLeft = gas := by
  show (if 0 ≤ gas then gas - 0 else 0) = gas
  rw [if_pos (UInt64.le_iff_toNat_le.mpr (Nat.zero_le _)), UInt64.sub_zero]

theorem gasLeft_exhausted (frame : CallFrame) (e : CallError) :
    (CallResult.failure frame.exhaust e).gasLeft = 0 := by
  show (if frame.gasLimit ≤ frame.gasLimit then frame.gasLimit - frame.gasLimit else 0) = 0
  rw [if_pos (UInt64.le_refl _), UInt64.sub_self]

/-- A refused operation has only looked. -/
theorem undone_of_refused (hstore : s.store.Reliable) (hp : s.env.transfers.Honest s.store)
    (hm : m.view.ledger.Sound s.store) {result : CallResult}
    (h : op.opening s m = (.ok (.finished result), m')) (he : result.verdict = .revert e) :
    op.Undone s m m' result e := by
  rcases opening_cases h with ⟨_, hrefusal, heq⟩ | ⟨m₂, -, hprepare⟩
  · -- A refusal comes before anything is written, so the ledger was only looked at.
    cases heq
    have hnot : ¬ op.Passes s m := fun hpass => by
      cases (refusal?_eq_none_iff hrefusal).mpr hpass
    have htouches := (op.refusal?_meets hp id).of_eq hrefusal
    have hlooks := htouches.ledger.looks hm
    have hsame := hm.showsSame hstore hlooks.sound hlooks.report
    obtain ⟨houtput, hleft⟩ : result.output = [] ∧
        result.gasLeft = if e.refuses then op.gas else 0 := by
      -- The result names the reason; the gas is given back for each of the two.
      rcases refusal?_result hrefusal with rfl | rfl | ⟨detail, rfl⟩
      · cases he
      · cases he
        exact ⟨rfl, gasLeft_refused _ _⟩
      · cases he
        exact ⟨rfl, gasLeft_refused _ _⟩
    exact ⟨fun _ => hsame, fun _ _ _ _ _ hpass => absurd hpass hnot, houtput, hleft⟩
  · -- What is skipped after the entry check is not reverted.
    have hgoes : op.Goes (Ledger.Leads s.store) s m₂ (.finished result) m' :=
      prepare_goes hp hprepare
    rw [hgoes.1] at he
    cases he

/-- Unless it is a creation's, the snapshot of an operation is of the ledger that was let pass. -/
theorem Stands.eq_of_call (h : op.Stands store l base) (hop : op.callType ≠ .create) :
    base = l := by
  cases op with
  | create => exact absurd rfl hop
  | _ => exact h

/-- A creation's is of a ledger that reports what the one would that the creation has found, once
the nonce of the caller has been counted up. -/
theorem Stands.counted (hstore : store.Blank) (hl : l.Sound store) {l₁ : Ledger}
    (hlooks : Ledger.Looks store l l₁) {initCode : Bytes} {gas : Gas} {value : Word}
    (h : (Operation.create caller initCode gas value).Stands store l₁ base) :
    ∃ nonce next, (Ledger.nonce store caller l).1 = .ok nonce ∧ succ? nonce = some next ∧
      base.report store = (Ledger.setNonce store caller next l).2.report store := by
  obtain ⟨nonce, next, _, hnonce, hnext, hset⟩ := h
  obtain ⟨l₂, hn, hl₂⟩ := Ledger.nonce_spec hlooks.sound caller
  obtain ⟨hanswer, rfl⟩ := Prod.mk.inj (hn.symm.trans hnonce)
  have hread : (Ledger.nonce store caller l).1 = .ok nonce := by
    rw [hl.nonce_eq, ← hlooks.report, hanswer]
  obtain ⟨r, hr, -⟩ := hl.report_of_nonce hread
  -- Looking changes no report, and from equal reports the same nonce is set to the same reports.
  have hr₂ : l₂.report store caller = .ok r := by
    rw [hl₂.report, hlooks.report]
    exact hr
  refine ⟨nonce, next, hread, hnext, ?_⟩
  have hbase := hl₂.sound.report_setNonce hstore hr₂ next
  rw [hset, hl₂.report, hlooks.report] at hbase
  exact hbase.trans (hl.report_setNonce hstore hr next).symm

/-- What shows after going back to the snapshot of an operation is what the ledger shows that the
snapshot is of. -/
theorem undone_of_base (hstore : s.store.Reliable) (hm : m.view.ledger.Sound s.store)
    (hlooks : Ledger.Looks s.store m.view.ledger m₁.view.ledger) (hpass : op.Passes s m)
    (hstands : op.Stands s.store m₁.view.ledger base) (hsound : m'.view.ledger.Sound s.store)
    (hreport : m'.view.ledger.report s.store = base.report s.store) {result : CallResult}
    (houtput : result.output = []) (hleft : result.gasLeft = if e.refuses then op.gas else 0) :
    op.Undone s m m' result e := by
  refine ⟨fun hnot => ?_, fun caller initCode gas value hop _ => ?_, houtput, hleft⟩
  · have hbase : base = m₁.view.ledger := hstands.eq_of_call fun hop => hnot ⟨hop, hpass⟩
    refine hm.showsSame hstore hsound ?_
    rw [hreport, hbase, hlooks.report]
  · subst hop
    obtain ⟨nonce, next, hread, hnext, hbase⟩ := hstands.counted hstore.blank hm hlooks
    exact hm.countsUp hstore hsound hread hnext (hreport.trans hbase)

/-- **Going back.** An operation that is reverted after its frame's code has run reports what the
ledger reports that its snapshot is of. -/
theorem back_of_ends (hp : s.env.transfers.Honest s.store) (hm : m.view.ledger.Sound s.store)
    {frame : CallFrame} {snapshot : Ledger.Snapshot} {r : Except CallError Bytes} {a : Active}
    (hopen : op.opening s m = (.ok (.started frame snapshot), m₁))
    (hran : Ledger.Leads s.store m₁.view.ledger a.machine.view.ledger)
    (hends : op.Ends s frame.account snapshot a r o m') (he : o.result.error? = some e) :
    ∃ (m₂ : Machine) (base : Ledger), op.Passes s m ∧
      Ledger.Looks s.store m.view.ledger m₂.view.ledger ∧ op.Stands s.store m₂.view.ledger base ∧
      m'.view.ledger.Sound s.store ∧ m'.view.ledger.report s.store = base.report s.store := by
  obtain ⟨m₂, base, hpass, hlooked, hstands, rfl, hleads⟩ := opening_stands hp hopen
  have hlooks := hlooked.ledger.looks hm
  -- From its base to its end the frame has only led on.
  have hcovered : Ledger.Leads s.store m₂.view.ledger base := hstands.covered
  have hevolves : Ledger.Evolves s.store base a.machine.view.ledger :=
    (hleads.trans hran).evolves (hcovered.evolves hlooks.sound).sound
  have hback := hends.back_of_error he
  refine ⟨m₂, base, hpass, hlooks, hstands, ?_, ?_⟩
  · -- An error goes back to the snapshot, where the reports of the base are found again.
    rw [hback]
    exact hevolves.revertTo_start.sound
  · rw [hback]
    exact hevolves.report_revertTo

/-- An operation that is reverted after its frame's code has run has gone back. -/
theorem undone_of_ends (hstore : s.store.Reliable) (hp : s.env.transfers.Honest s.store)
    (hm : m.view.ledger.Sound s.store) {frame : CallFrame} {snapshot : Ledger.Snapshot}
    {r : Except CallError Bytes} {a : Active}
    (hopen : op.opening s m = (.ok (.started frame snapshot), m₁))
    (hran : Ledger.Leads s.store m₁.view.ledger a.machine.view.ledger)
    (hhalting : ∀ e, r = .error e → Halting e) (hends : op.Ends s frame.account snapshot a r o m')
    (he : o.result.verdict = .revert e) : op.Undone s m m' o.result e := by
  have herror : o.result.error? = some e := congrArg Verdict.error? he
  -- The ledger is back at the base, whichever error it was.
  obtain ⟨m₂, base, hpass, hlooks, hstands, hsound, hreport⟩ :=
    back_of_ends hp hm hopen hran hends herror
  -- Of the four ways to end, the last is the only one that reports an error.
  cases hends with
  | returned => cases he
  | installed => cases he
  | bare => cases he
  | @undone _ e _ hkind hinternal hrevert =>
    cases he
    have hleft : (CallResult.failure a.frame.exhaust e).gasLeft =
        if e.refuses then op.gas else 0 := by
      rw [refuses_of_undone hkind hhalting hinternal]
      exact gasLeft_exhausted a.frame e
    exact undone_of_base hstore hm hlooks hpass hstands hsound hreport rfl hleft

/-- An operation with some levels of nesting left that is reverted with a result. -/
theorem undone_of_reverted (hstore : s.store.Reliable) (hp : s.env.transfers.Honest s.store)
    (hm : m.view.ledger.Sound s.store) {levels : Nat}
    (h : Script.host linked s levels op m = (.ok o, m')) (he : o.result.verdict = .revert e) :
    op.Undone s m m' o.result e := by
  cases levels with
  | zero => cases h
  | succ levels =>
    obtain ⟨m₂, rfl, hcases⟩ := host_ok h
    -- The tracer does not show in the ledger, and nothing that decides about the operation reads
    -- it.
    suffices hundone : op.Undone s (op.entered m) m₂ o.result e from
      ⟨hundone.same, hundone.counted, hundone.output, hundone.gasLeft⟩
    rcases hcases with ⟨result, hopen, rfl, -⟩ |
      ⟨frame, snapshot, m₁, run, a, hopen, -, htrail, hends⟩
    · exact undone_of_refused (m := op.entered m) hstore hp hm hopen he
    · have hhost := Script.host_meets hp.leads linked levels
      have hran : Ledger.Leads s.store m₁.view.ledger (a.atDepth m₁.depth).machine.view.ledger :=
        (htrail.moves hhost).1.ledger
      exact undone_of_ends (m := op.entered m) hstore hp hm hopen hran (htrail.error hhost) hends he

end Operation

/-- **All or nothing.** Of every operation in the call tree of another one that is reverted with a
result, nothing shows but the nonce of a creation. -/
theorem CallTree.reverted_is_undone (hstore : s.store.Reliable)
    (hp : s.env.transfers.Honest s.store) (linked : Bool) (op : Operation)
    (hm : m.view.ledger.Reachable s.store) {t : CallTree}
    (ht : t.PartOf (Script.callTree linked s op m)) (ho : t.call.result = .ok o)
    (he : o.result.verdict = .revert e) :
    t.call.op.Undone s t.call.before t.call.after o.result e := by
  obtain ⟨n, op', m', rfl, hleads⟩ := part_is_tree hp.leads ht
  have hdone : Script.host linked s n op' m' = (.ok o, (op'.tree linked s n m').call.after) := by
    rw [Operation.tree_done, ho]
  rw [Operation.tree_op, Operation.tree_before]
  exact Operation.undone_of_reverted hstore hp (hm.leads hleads).sound hdone he

/-- A world in which all code writes a slot, calls itself and fails. -/
def Setting.failing : Setting where
  store := .uniform (Script.encode [.store 3 9, .recurse, .revert])
  chain := default

/-- A call that is told to go one level deeper. -/
theorem CallTree.reverted_is_undone_sample :
    ∃ o e, (Script.callTree true .failing
        (.call 1 2 (Script.recursionTarget 1) 100 0) {}).call.result = .ok o ∧
      o.result.verdict = .revert e ∧
      (Operation.call 1 2 (Script.recursionTarget 1) 100 0).Undone .failing {}
        (Script.callTree true .failing
          (.call 1 2 (Script.recursionTarget 1) 100 0) {}).call.after o.result e := by
  have ho : (Script.callTree true .failing
      (.call 1 2 (Script.recursionTarget 1) 100 0) {}).call.result =
        .ok { result :=
          { verdict := .revert (.fault .revert), gasLimit := 100, gasUsed := 100 } } := by
    decide +kernel
  exact ⟨_, _, ho, rfl, reverted_is_undone (Store.uniform_reliable _)
    TransferPolicy.balance_honest true (.call 1 2 (Script.recursionTarget 1) 100 0) .new
    (.root _) ho rfl⟩

end

end MessageCall
