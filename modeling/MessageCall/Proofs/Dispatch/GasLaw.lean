import MessageCall.Proofs.Script.Gas

/-!
# The gas of a call tree

`CallTree.GasLaw` says for one node of a call tree where its gas has gone. An operation that was
ended before its frame ran has used none. A frame that failed has used all of it. A frame that has
run to its end has used what it burned, what its children used, and the price of the code that it
stored.

The law holds of an operation if its frame's code runs on a host that accounts for the gas of its
own operations (`Operation.gasLaw_of_accounts`), and then the operation's host accounts for gas as
well. So it holds at every level, by induction on the levels (`Script.host_accounts`).
-/

namespace MessageCall

/-- The gas that the operation at the root has used. -/
def CallTree.used (t : CallTree) : Nat := gasOf t.call.result

/-- The price of the code that an operation has stored. -/
def Operation.depositGas (s : Setting) (op : Operation) (run : CodeRun) (o : Outcome) : Nat :=
  match op, run.ended with
  | .create .., .ok code =>
    if o.depositError = none then code.length * s.limits.createDataGas.toNat else 0
  | _, _ => 0

/-- **Where the gas of an operation has gone.** -/
structure CallTree.GasLaw (s : Setting) (t : CallTree) (o : Outcome) : Prop where
  gasLimit : o.result.gasLimit = t.call.op.gas
  gasUsed : o.result.gasUsed ≤ o.result.gasLimit
  total : o.result.gasLeft.toNat + o.result.gasUsed.toNat = o.result.gasLimit.toNat
  children : (t.children.map CallTree.used).sum ≤ o.result.gasUsed.toNat
  /-- An operation that has not started a frame was skipped or refused. -/
  unstarted : t.call.run = none → o.result.gasUsed = 0 ∧
    (o.result.verdict = .noOp ∨ ∃ e, o.result.verdict = .revert e ∧ e.refuses = true)
  /-- One that has was reverted for another reason, or has succeeded. -/
  started : ∀ run, t.call.run = some run →
    (∃ e, o.result.verdict = .revert e ∧ e.refuses = false ∧
      o.result.gasUsed = o.result.gasLimit) ∨
    o.result.verdict = .success ∧ o.result.gasUsed.toNat =
      Script.burned run.steps + (t.children.map CallTree.used).sum +
        t.call.op.depositGas s run o

section

variable {linked : Bool} {s : Setting} {op : Operation} {m m₁ m' : Machine} {o : Outcome}
  {levels : Nat}

namespace Operation

theorem depositGas_of_call (h : op.callType ≠ .create) (run : CodeRun) (o : Outcome) :
    op.depositGas s run o = 0 := by
  cases op with
  | create => exact absurd rfl h
  | _ => rfl

theorem depositGas_of_create (h : op.callType = .create) {run : CodeRun} {code : Bytes}
    (hcode : run.ended = .ok code) (o : Outcome) : op.depositGas s run o =
      if o.depositError = none then code.length * s.limits.createDataGas.toNat else 0 := by
  cases op with
  | create =>
    unfold depositGas
    rw [hcode]
  | _ => cases h

theorem tree_run (levels : Nat) : (op.tree linked s (levels + 1) m).call.run =
    op.codeRun? linked s (Script.host linked s levels) m := rfl

/-- The children of an operation have used what its run has spent on them. -/
theorem sum_used_children {run : CodeRun}
    (h : op.codeRun? linked s (Script.host linked s levels) m = some run) :
    ((op.tree linked s (levels + 1) m).children.map CallTree.used).sum =
      Script.spent (Script.host linked s levels) op.codeInput run.steps := by
  rw [children_of_run h, List.map_map]
  unfold Script.spent
  refine congrArg List.sum (List.map_congr_left fun x _ => ?_)
  show gasOf (x.1.tree linked s levels x.2).call.result = _
  rw [tree_done]

/-- The law of an operation that was ended before its frame ran. -/
theorem gasLaw_of_finished {result : CallResult}
    (h : op.opening s (op.entered m) = (.ok (.finished result), m')) :
    (op.tree linked s (levels + 1) m).GasLaw s { result } := by
  have hrun := codeRun?_of_finished linked (Script.host linked s levels) h
  -- Without a frame no gas was used.
  have hresult : result.gasLimit = op.gas ∧ result.gasUsed = 0 ∧
      (result.verdict = .noOp ∨ ∃ e, result.verdict = .revert e ∧ e.refuses = true) := by
    have hp : s.env.transfers.Within s.store Ledger.Unrelated Ledger.Unrelated :=
      s.env.transfers.within_unrelated
    -- Skipped, too deep, or not covered by the balance.
    rcases (opening_finished hp h).1 with rfl | rfl | ⟨detail, rfl⟩
    · exact ⟨rfl, rfl, .inl rfl⟩
    · exact ⟨rfl, rfl, .inr ⟨_, rfl, rfl⟩⟩
    · exact ⟨rfl, rfl, .inr ⟨_, rfl, rfl⟩⟩
  obtain ⟨hlimit, hused, hverdict⟩ := hresult
  have hle : result.gasUsed ≤ result.gasLimit := by
    rw [hused]
    exact UInt64.le_iff_toNat_le.mpr (Nat.zero_le _)
  refine ⟨?_, hle, Script.gasLeft_add_gasUsed rfl hle, ?_, fun _ => ⟨hused, hverdict⟩,
    fun run h => ?_⟩
  · rw [hlimit, tree_op]
  · rw [children_of_finished hrun]
    exact Nat.zero_le _
  · rw [tree_run, hrun] at h
    cases h

theorem toNat_codeDepositCost {length : Nat} {perByte : UInt64} {cost : Gas}
    (h : codeDepositCost length perByte = .ok cost) : cost.toNat = length * perByte.toNat := by
  unfold codeDepositCost at h
  by_cases hlt : length * perByte.toNat < UInt64.size
  · rw [if_pos hlt] at h
    cases h
    exact UInt64.toNat_ofNat_of_lt hlt
  · rw [if_neg hlt] at h
    cases h

/-- The law of an operation with a frame, in terms of the frame's run. -/
theorem gasLaw_of_run {run : CodeRun}
    (hrun : op.codeRun? linked s (Script.host linked s levels) m = some run)
    (hlimit : o.result.gasLimit = op.gas) (hused : o.result.gasUsed ≤ o.result.gasLimit)
    (hspent : Script.spent (Script.host linked s levels) op.codeInput run.steps ≤
      o.result.gasUsed.toNat)
    (hverdict : (∃ e, o.result.verdict = .revert e ∧ e.refuses = false ∧
        o.result.gasUsed = o.result.gasLimit) ∨
      o.result.verdict = .success ∧ o.result.gasUsed.toNat = Script.burned run.steps +
        Script.spent (Script.host linked s levels) op.codeInput run.steps +
          op.depositGas s run o) :
    (op.tree linked s (levels + 1) m).GasLaw s o := by
  -- The operations below have used what the run has spent on them.
  have hsum := sum_used_children hrun
  refine ⟨?_, hused, Script.gasLeft_add_gasUsed rfl hused, ?_, fun h => ?_, fun run' h => ?_⟩
  · rw [hlimit, tree_op]
  · rw [hsum]
    exact hspent
  · rw [tree_run, hrun] at h
    cases h
  · rw [tree_run, hrun] at h
    cases h
    rw [hsum, tree_op]
    exact hverdict

/-- The law of an operation whose frame's code has ended in the state `a`, from what the run has
cost. -/
theorem gasLaw_of_ends {run : CodeRun} {a₀ a : Active} {snapshot : Ledger.Snapshot}
    {address : Address}
    (hrun : op.codeRun? linked s (Script.host linked s levels) m = some run)
    (hlimit : a₀.frame.gasLimit = op.gas) (hfresh : a₀.frame.used = 0)
    (hhalting : ∀ e, run.ended = .error e → Halting e)
    (hcosts : Script.Costs (Script.host linked s levels) op.codeInput a₀ run.steps
      (∃ e, run.ended = .error e) a)
    (hends : op.Ends s address snapshot a run.ended o m') :
    (op.tree linked s (levels + 1) m).GasLaw s o := by
  have hgas : a.frame.gasLimit = op.gas := hcosts.gasLimit.trans hlimit
  have hsolvent : a.frame.used ≤ a.frame.gasLimit.toNat := hcosts.solvent
  have hspent := hcosts.spent
  have hexact : ∀ code, run.ended = .ok code → a.frame.used = Script.burned run.steps +
      Script.spent (Script.host linked s levels) op.codeInput run.steps := by
    intro code hcode
    have hpaid := hcosts.exact (by rw [hcode]; rintro ⟨_, he⟩; cases he)
    rw [hfresh, Nat.zero_add] at hpaid
    exact hpaid
  rw [hfresh, Nat.zero_add] at hspent
  -- Each way to end has its own account of the gas.
  generalize hended : run.ended = r at hends
  cases hends with
  | returned hop =>
    refine gasLaw_of_run hrun hgas (UInt64.le_iff_toNat_le.mpr hsolvent) hspent (.inr ⟨rfl, ?_⟩)
    rw [depositGas_of_call hop]
    exact hexact _ hended
  | @installed code cost frame _ hop hcost hpaid =>
    -- The price of the code comes on top of what the run has cost.
    obtain ⟨hle, rfl⟩ := CallFrame.charge?_eq_some hpaid
    have hpaid := CallFrame.used_paid hcosts.solvent hle
    have hsolvent' : (a.frame.paid cost).used ≤ (a.frame.paid cost).gasLimit.toNat :=
      CallFrame.solvent_paid hcosts.solvent hle
    refine gasLaw_of_run hrun hgas (UInt64.le_iff_toNat_le.mpr hsolvent') ?_ (.inr ⟨rfl, ?_⟩)
    · show _ ≤ (a.frame.paid cost).used
      omega
    · show (a.frame.paid cost).used = _
      rw [depositGas_of_create hop hended, if_pos rfl, ← toNat_codeDepositCost hcost, hpaid,
        hexact code hended]
  | bare hop hr =>
    -- No code was stored, so nothing was charged for it.
    rcases hr with ⟨code, rfl⟩ | rfl
    · refine gasLaw_of_run hrun hgas (UInt64.le_iff_toNat_le.mpr hsolvent) hspent (.inr ⟨rfl, ?_⟩)
      rw [depositGas_of_create hop hended, if_neg nofun]
      exact hexact code hended
    · -- Running code does not end with this error of its own.
      rcases hhalting _ hended with ⟨fault, he⟩ | he
      · cases he
      · cases he
  | @undone r e _ hr hinternal =>
    -- A frame that failed has used up its gas, whatever it had paid for.
    have hrefuses := refuses_of_undone hr (fun e he => hhalting e (hended.trans he)) hinternal
    refine gasLaw_of_run hrun hgas (UInt64.le_refl _) ?_ (.inl ⟨e, rfl, hrefuses, rfl⟩)
    exact Nat.le_trans hspent hsolvent

/-- **The law, one level up.** -/
theorem gasLaw_of_accounts (hhost : (Script.host linked s levels).Accounts)
    (h : Script.host linked s (levels + 1) op m = (.ok o, m')) :
    (op.tree linked s (levels + 1) m).GasLaw s o := by
  obtain ⟨m₂, rfl, ⟨result, hopen, rfl, -⟩ | ⟨frame, snapshot, m₁, run, a, hopen, hrun, htrail,
    hends⟩⟩ := host_ok h
  · exact gasLaw_of_finished hopen
  · -- The frame starts with all its gas, and stays solvent in its run.
    obtain ⟨_, -, -, hprepares⟩ := opening_started s.env.transfers.within_unrelated hopen
    have hfresh : frame.used = 0 := by
      unfold CallFrame.used
      rw [hprepares.gasUsed]
      rfl
    have hsolvent : frame.Solvent := by
      unfold CallFrame.Solvent
      rw [hfresh]
      exact Nat.zero_le _
    have hhalting : ∀ e, run.ended = .error e → Halting e := htrail.error (R := Ledger.Unrelated)
      (Script.host_meets s.env.transfers.within_unrelated linked levels)
    have hcosts := htrail.costs hhost hends.not_internal hsolvent
    -- The frame does not depend on the level at which its code has run.
    have hcosts' : Script.Costs (Script.host linked s levels) op.codeInput ⟨frame, m₁⟩ run.steps
        (∃ e, run.ended = .error e) (a.atDepth m₁.depth) :=
      ⟨hcosts.gasLimit, hcosts.solvent, hcosts.spent, hcosts.exact⟩
    exact gasLaw_of_ends hrun hprepares.gasLimit hfresh hhalting hcosts' hends

end Operation

/-- **Every host accounts for gas**, however many levels it has left. -/
theorem Script.host_accounts (linked : Bool) (s : Setting) (levels : Nat) :
    (host linked s levels).Accounts := by
  induction levels with
  | zero => refine ⟨fun _ _ _ _ h => ?_, fun _ _ _ _ h => ?_, host_error _ _ _⟩ <;> cases h
  | succ levels ih =>
    refine ⟨fun op m o m' h => ?_, fun op m o m' h => ?_, host_error _ _ _⟩
    · rw [(Operation.gasLaw_of_accounts ih h).gasLimit, Operation.tree_op]
    · have hlaw := Operation.gasLaw_of_accounts ih h
      have hused := hlaw.gasUsed
      rw [hlaw.gasLimit, Operation.tree_op] at hused
      exact hused

end

end MessageCall
