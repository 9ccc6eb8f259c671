import Mathlib.Algebra.GroupWithZero.Nat
import MessageCall.Proofs.Dispatch.CallTree

/-!
# What a run of scripted code costs

A frame never notes more gas as used than it has (`CallFrame.Solvent`). So none of the guards of the
gas arithmetic ever applies, and gas can be counted by natural numbers.

A nested operation is charged to the frame in full and refunded in part. If the host gives back what
the operation has not used, then on balance the frame has paid for what it has used, and for nothing
else (`Script.step_costs`). Over a whole run this adds up: the frame has paid for what it burned and
for what the nested operations used (`Script.Trail.costs`).
-/

namespace MessageCall

namespace CallFrame

/-- What a frame has used, as a number. -/
def used (frame : CallFrame) : Nat := frame.gasUsed.toNat

/-- A frame that has not used more gas than it has. -/
def Solvent (frame : CallFrame) : Prop := frame.used ≤ frame.gasLimit.toNat

variable {frame frame' : CallFrame} {gas : Gas}

theorem toNat_gasLeft (frame : CallFrame) :
    frame.gasLeft.toNat = frame.gasLimit.toNat - frame.used := Gas.toNat_left _ _

/-- Paying what is there adds up without wrapping. -/
theorem used_paid (hsolvent : frame.Solvent) (h : gas ≤ frame.gasLeft) :
    (frame.paid gas).used = frame.used + gas.toNat := by
  have hle := UInt64.le_iff_toNat_le.mp h
  have hlimit := frame.gasLimit.toNat_lt
  rw [toNat_gasLeft] at hle
  unfold Solvent at hsolvent
  show (frame.gasUsed + gas).toNat = frame.gasUsed.toNat + gas.toNat
  rw [UInt64.toNat_add]
  unfold used at hle hsolvent
  omega

theorem charge?_eq_some (h : frame.charge? gas = some frame') :
    gas ≤ frame.gasLeft ∧ frame' = frame.paid gas := by
  unfold charge? at h
  by_cases hle : gas ≤ frame.gasLeft
  · rw [if_pos hle] at h
    cases h
    exact ⟨hle, rfl⟩
  · rw [if_neg hle] at h
    cases h

theorem solvent_paid (hsolvent : frame.Solvent) (h : gas ≤ frame.gasLeft) :
    (frame.paid gas).Solvent := by
  have hle := UInt64.le_iff_toNat_le.mp h
  rw [toNat_gasLeft] at hle
  unfold Solvent at hsolvent ⊢
  rw [used_paid hsolvent h]
  show frame.used + gas.toNat ≤ frame.gasLimit.toNat
  omega

/-- A frame that pays for an operation and takes back what it has not used. -/
theorem used_refund (hsolvent : frame.Solvent) (h : gas ≤ frame.gasLeft) {left : Gas} {spent : Nat}
    (hleft : left.toNat + spent = gas.toNat) :
    ((frame.paid gas).refund left).used = frame.used + spent := by
  have hpaid := used_paid hsolvent h
  show (Gas.left (frame.paid gas).gasUsed left).toNat = frame.used + spent
  rw [Gas.toNat_left]
  show (frame.paid gas).used - left.toNat = frame.used + spent
  omega

end CallFrame

/-- The gas that an operation has used, if it has ended with a result. -/
def gasOf (result : Except CallError Outcome) : Nat :=
  match result with
  | .ok o => o.result.gasUsed.toNat
  | .error _ => 0

/-- A host that accounts for the gas of an operation, and aborts with internal errors only. -/
structure Host.Accounts (host : Host) : Prop where
  gasLimit : ∀ op m o m', host op m = (.ok o, m') → o.result.gasLimit = op.gas
  gasUsed : ∀ op m o m', host op m = (.ok o, m') → o.result.gasUsed ≤ op.gas
  error : ∀ op m e, (host op m).1 = .error e → Internal e

namespace Script

variable {linked : Bool} {s : Setting} {host : Host} {input : Bytes} {i : Instruction}
  {a a' : Active} {op : Operation}

/-- The gas that a run has burned. -/
def burned (steps : List (Instruction × Active)) : Nat :=
  (steps.map fun x => x.1.price.toNat).sum

/-- The gas that the operations have used which a run has asked for. -/
def spent (host : Host) (input : Bytes) (steps : List (Instruction × Active)) : Nat :=
  ((requests input steps).map fun x => gasOf (host x.1 x.2).1).sum

theorem burned_cons (x : Instruction × Active) (steps : List (Instruction × Active)) :
    burned (x :: steps) = x.1.price.toNat + burned steps := rfl

theorem spent_cons (x : Instruction × Active) (steps : List (Instruction × Active)) :
    spent host input (x :: steps) = spent host input [x] + spent host input steps := by
  unfold spent
  rw [requests_cons, List.map_append, List.sum_append]

theorem spent_of_none (h : i.request? input a = none) : spent host input [(i, a)] = 0 := by
  unfold spent
  rw [requests_of_none h]
  rfl

theorem spent_of_some (h : i.request? input a = some op) :
    spent host input [(i, a)] = gasOf (host op a.machine).1 := by
  unfold spent
  rw [requests_of_some h, List.map_singleton, List.sum_singleton]

theorem price_of_request (h : i.request? input a = some op) : i.price = 0 := by
  cases i with
  | burn => cases h
  | _ => rfl

/-- An operation that is asked for gets what can be paid. -/
theorem gas_of_request (h : i.request? input a = some op) : op.gas ≤ a.frame.gasLeft := by
  -- What is handed over is granted out of what is left.
  cases i with
  | call _ gas =>
    cases h
    exact a.frame.granted_le gas
  | callCode _ gas =>
    cases h
    exact a.frame.granted_le gas
  | delegateCall _ gas =>
    cases h
    exact a.frame.granted_le gas
  | create gas =>
    cases h
    exact a.frame.granted_le gas
  | recurse =>
    obtain ⟨-, rfl⟩ := Instruction.request?_recurse_eq_some h
    exact a.frame.granted_le allGas
  | _ => cases h

/-- What a part of a run costs its frame: what it burned and what the operations used which it asked
for. A part that has failed has not paid what it failed to burn. -/
structure Costs (host : Host) (input : Bytes) (a : Active) (steps : List (Instruction × Active))
    (failed : Prop) (a' : Active) : Prop where
  gasLimit : a'.frame.gasLimit = a.frame.gasLimit
  solvent : a'.frame.Solvent
  spent : a.frame.used + spent host input steps ≤ a'.frame.used
  exact : ¬ failed → a'.frame.used = a.frame.used + burned steps + Script.spent host input steps

theorem Costs.refl (hsolvent : a.frame.Solvent) (failed : Prop) :
    Costs host input a [] failed a where
  gasLimit := rfl
  solvent := hsolvent
  spent := Nat.le_refl _
  exact _ := rfl

/-- What comes back of an operation's gas and what it has used are what it was given. -/
theorem gasLeft_add_gasUsed {result : CallResult} {gas : Gas} (hlimit : result.gasLimit = gas)
    (hused : result.gasUsed ≤ gas) : result.gasLeft.toNat + result.gasUsed.toNat = gas.toNat := by
  have hle := UInt64.le_iff_toNat_le.mp hused
  unfold CallResult.gasLeft
  rw [Gas.toNat_left, hlimit]
  omega

/-- **What a step costs.** -/
theorem step_costs (hhost : host.Accounts) {r : Except CallError (Option Bytes)}
    (h : step linked s host input i a = (r, a')) (hr : ∀ e, r = .error e → ¬ Internal e)
    (hsolvent : a.frame.Solvent) : Costs host input a [(i, a)] (∃ e, r = .error e) a' := by
  cases hrequest : i.request? input a with
  | none =>
    have hquiet : Quiet Ledger.Unrelated i a r a' := step_quiet hrequest h
    have hspent : Script.spent host input [(i, a)] = 0 := spent_of_none hrequest
    -- An instruction that asks for nothing is paid by its price.
    cases r with
    | error e =>
      -- An instruction that fails has not been paid for.
      have hframe : a'.frame = a.frame := hquiet.unpaid e rfl
      refine ⟨by rw [hframe], by rw [hframe]; exact hsolvent, ?_, fun hnot => absurd ⟨e, rfl⟩ hnot⟩
      rw [hframe, hspent]
      exact Nat.le_refl _
    | ok x =>
      obtain ⟨hle, hframe⟩ := CallFrame.charge?_eq_some (hquiet.paid x rfl)
      have hused := CallFrame.used_paid hsolvent hle
      have hsolvent' := CallFrame.solvent_paid hsolvent hle
      rw [← hframe] at hused hsolvent'
      refine ⟨by rw [hframe]; rfl, hsolvent', ?_, fun _ => ?_⟩
      · rw [hspent, hused]
        omega
      · rw [hspent, hused, burned_cons]
        rfl
  -- An operation is paid in full, and what it has left comes back.
  | some op =>
    obtain ⟨o, m, hhanded, rfl, rfl⟩ := step_answered hhost.error hrequest h hr
    have hle := gas_of_request hrequest
    have hgiven := gasLeft_add_gasUsed (hhost.gasLimit _ _ _ _ hhanded)
      (hhost.gasUsed _ _ _ _ hhanded)
    have hused := CallFrame.used_refund hsolvent hle hgiven
    have hpaid : a.frame.used + op.gas.toNat ≤ a.frame.gasLimit.toNat := by
      -- The operation got no more than there was left.
      have hroom := UInt64.le_iff_toNat_le.mp hle
      rw [CallFrame.toNat_gasLeft] at hroom
      unfold CallFrame.Solvent at hsolvent
      omega
    have hspent : Script.spent host input [(i, a)] = o.result.gasUsed.toNat := by
      rw [spent_of_some hrequest, hhanded]
      rfl
    have hburned : burned [(i, a)] = 0 := by
      rw [burned_cons, price_of_request hrequest]
      rfl
    -- With the refund, what is used is what the operation has used.
    refine ⟨rfl, ?_, ?_, fun _ => ?_⟩
    · show ((a.frame.paid op.gas).refund o.result.gasLeft).used ≤ a.frame.gasLimit.toNat
      rw [hused]
      omega
    · rw [hspent]
      exact Nat.le_of_eq hused.symm
    · rw [hspent, hburned]
      exact hused

/-- Costs add up. -/
theorem Costs.cons {a₁ : Active} {steps : List (Instruction × Active)} {failed : Prop}
    (h : Costs host input a [(i, a)] False a₁) (h' : Costs host input a₁ steps failed a') :
    Costs host input a ((i, a) :: steps) failed a' := by
  -- The run has burned and spent what its first step has, and what the others have.
  have hspent : Script.spent host input ((i, a) :: steps) =
      Script.spent host input [(i, a)] + Script.spent host input steps := spent_cons _ _
  have hburned : burned ((i, a) :: steps) = burned [(i, a)] + burned steps := by
    rw [burned_cons, burned_cons]
    rfl
  have hfirst := h.exact not_false
  have hrest := h'.spent
  refine ⟨h'.gasLimit.trans h.gasLimit, h'.solvent, ?_, fun hnot => ?_⟩
  · rw [hspent]
    omega
  · have hexact := h'.exact hnot
    rw [hspent, hburned]
    omega

theorem Costs.mono {steps : List (Instruction × Active)} {p q : Prop}
    (h : Costs host input a steps p a') (hpq : p → q) : Costs host input a steps q a' :=
  ⟨h.gasLimit, h.solvent, h.spent, fun hq => h.exact (mt hpq hq)⟩

/-- **What a run costs**, whether it has ended or failed. -/
theorem Trail.costs (hhost : host.Accounts) {steps : List (Instruction × Active)}
    {r : Except CallError Bytes} (h : Trail linked s host input a steps r a')
    (hr : ∀ e, r = .error e → ¬ Internal e) (hsolvent : a.frame.Solvent) :
    Costs host input a steps (∃ e, r = .error e) a' := by
  induction h with
  | halted => exact .refl hsolvent _
  | @failed _ _ _ e hstep =>
    have hcosts := step_costs hhost hstep (fun _ he => by cases he; exact hr e rfl) hsolvent
    exact hcosts.mono fun _ => ⟨e, rfl⟩
  | ended hstep =>
    have hcosts := step_costs hhost hstep (fun _ he => by cases he) hsolvent
    exact hcosts.mono fun ⟨_, he⟩ => by cases he
  | more hstep _ ih =>
    have hcosts := step_costs hhost hstep (fun _ he => by cases he) hsolvent
    -- A step after which the run goes on has not failed.
    have hfirst := hcosts.mono (q := False) fun ⟨_, he⟩ => by cases he
    exact hfirst.cons (ih hr hcosts.solvent)

end Script

end MessageCall
