import MessageCall.Proofs.Dispatch.AllOrNothing
import MessageCall.Proofs.Dispatch.Codeless
import MessageCall.Proofs.Dispatch.GasLaw
import MessageCall.Proofs.Dispatch.Payments
import MessageCall.Proofs.Dispatch.Refusals

/-!
# How a creation ends

A creation that comes to a result does so in exactly one of four ways (`Creation.ends_in_one_way`).

* It is refused by its entry check, and nothing has changed.
* Its code has returned code that is not too large and that can be paid for. The creation succeeds,
  and the account has the code.
* Its code has returned code that cannot be paid for, under rules that do not mind. The creation
  succeeds and says why the code is missing. Everything that its code did stays.
* Its code has failed, or has returned code that is too large, or that cannot be paid for under
  rules that do mind. The creation is reverted, and nothing but the nonce of its caller shows that
  it has been tried.

Unless it is refused, its code has run on a new account, at the address that comes from the caller
and its nonce before, and with the value in place. These are facts about the run (`Creation.Run`)
and hold of all three ways. What the run has left over decides between them (`Creation.Closes`). The
price of code is compared with the gas that is left as a number, since one that is no amount of gas
cannot be paid anyway.

The third way need not leave an account without code. Nothing keeps a creation from taking the
address of another one that is still going on. If that happens below the creation, and stores code
there, then this is the code of the account (`Creation.bare_with_code`). If it does not happen, the
account has none.
-/

namespace MessageCall

/-! ### Storing code -/

namespace Ledger

variable {store : Store} {l l' : Ledger} {address : Address} {code : Bytes}

/-- Code that has been set is at hand. -/
theorem codes_setCode (h : l.Sound store)
    (hset : Ledger.setCode store address code l = (.ok (), l')) :
    l'.codes.get? (keccak code) = some code := by
  obtain ⟨l₁, hread, hlooks⟩ := codeHash_spec h address
  -- Storing code reads the digest first, and may fail there.
  cases hr : l.report store address with
  | error e =>
    rw [hr] at hread
    cases (Attempt.bind_of_error hread).symm.trans hset
  | ok r =>
    rw [hr] at hread
    obtain ⟨x, hx, rfl⟩ := hlooks.cached hr
    -- The code is put at hand before its digest is written into the account.
    have hput : Looks store l₁ (l₁.putCode (keccak code) code) :=
      .of_codes hlooks.sound (.insert_keccak l₁.codes code)
    have hhas : HasCode (l₁.putCode (keccak code) code).codes (keccak code) :=
      ⟨code, WordMap.get?_insert_self _ _ _, rfl⟩
    obtain ⟨l₂, hwrite, -, hcodes, -⟩ :=
      revise_record hput.sound hx _ (FieldWrite.codeHash_fits x hhas)
    have hset' : Ledger.setCode store address code l = (.ok (), l₂) :=
      (Attempt.bind_of_ok hread).trans hwrite
    obtain rfl : l' = l₂ := (Prod.mk.inj (hset.symm.trans hset')).2
    rw [hcodes, Ledger.putCode, WordMap.get?_insert_self]

/-- **Code that has been set is read back**, if its digest is not that of no code. -/
theorem code_setCode (h : l.Sound store)
    (hset : Ledger.setCode store address code l = (.ok (), l'))
    (hdigest : keccak code = emptyCodeHash → code = []) :
    (Ledger.code store address l').1 = .ok code := by
  obtain ⟨l₁, heq, hevolves, hreport, -⟩ := setCode_spec h address code
  obtain ⟨hanswer, rfl⟩ := Prod.mk.inj (heq.symm.trans hset)
  have hfound : codeOver store l₁.codes (keccak code) = .ok code := by
    unfold codeOver
    -- Under the digest of no code nothing is looked up, not even what has just been set.
    by_cases hempty : keccak code = emptyCodeHash
    · rw [if_pos hempty, hdigest hempty]
    · rw [if_neg hempty, codes_setCode h hset]
  cases hr : l.report store address with
  | error e =>
    rw [hr] at hanswer
    cases hanswer
  | ok r =>
    -- What is read back is the new digest, and the code found under it.
    obtain ⟨_, hread, -⟩ := code_spec hevolves.sound address
    rw [hread, hreport, hr]
    change asked ((Function.update (l.report store) address _ address).bind _) = .ok code
    rw [Function.update_self]
    exact congrArg asked hfound

end Ledger

section

variable {s : Setting} {run : Runner} {address : Address} {code : Bytes} {a a' : Active}
  {m m' : Machine} {frame : CallFrame} {snapshot : Ledger.Snapshot} {o : Outcome}

namespace Creation

/-- The price of code, as a number. -/
def price (s : Setting) (code : Bytes) : Nat := code.length * s.limits.createDataGas.toNat

/-- Code that is not too large. -/
def Fits (s : Setting) (code : Bytes) : Prop := code.length ≤ s.limits.maxCodeSize.toNat

/-- Code that the frame whose run has ended can pay for. -/
def Affords (s : Setting) (a : Active) (code : Bytes) : Prop :=
  price s code ≤ a.frame.gasLeft.toNat

/-- The frame after it has paid for code. -/
def paidFor (s : Setting) (frame : CallFrame) (code : Bytes) : CallFrame :=
  frame.paid (UInt64.ofNat (price s code))

end Creation

open Creation (Affords Fits paidFor price)

/-- A price that can be paid is an amount of gas. -/
theorem codeDepositCost_of_affords (h : Affords s a code) :
    codeDepositCost code.length s.limits.createDataGas = .ok (UInt64.ofNat (price s code)) ∧
      (UInt64.ofNat (price s code)).toNat = price s code := by
  have hlt : price s code < UInt64.size := Nat.lt_of_le_of_lt h a.frame.gasLeft.toNat_lt
  exact ⟨if_pos hlt, UInt64.toNat_ofNat_of_lt hlt⟩

namespace Running

theorem deposit_of_unfit (h : ¬ Fits s code) :
    deposit s address code a = (.ok (some .codeSizeExceeded), a) := by
  unfold deposit
  rw [Attempt.bind_of_ok (Attempt.get_apply a)]
  simp only [if_pos (Nat.lt_of_not_le h)]
  rfl

theorem deposit_of_unaffordable (hfits : Fits s code) (h : ¬ Affords s a code) :
    deposit s address code a = (.ok (some .codeStoreOutOfGas), a) := by
  unfold deposit
  rw [Attempt.bind_of_ok (Attempt.get_apply a)]
  simp only [if_neg (Nat.not_lt_of_le hfits)]
  -- A price that is no amount of gas is reported like one that there is not enough gas for.
  cases hcost : codeDepositCost code.length s.limits.createDataGas with
  | error e => rfl
  | ok cost =>
    have hdear : ¬ cost ≤ a.frame.gasLeft := fun hle => h (by
      rw [Affords, price, ← Operation.toNat_codeDepositCost hcost]
      exact UInt64.le_iff_toNat_le.mp hle)
    simp only [CallFrame.charge?, if_neg hdear]
    rfl

theorem deposit_of_affords (hfits : Fits s code) (h : Affords s a code) :
    deposit s address code a =
      (Running.exec (Exec.view (View.setCode s.store address code)) >>= fun _ => pure none)
        { a with frame := paidFor s a.frame code } := by
  obtain ⟨hcost, hprice⟩ := codeDepositCost_of_affords h
  have hpaid : a.frame.charge? (UInt64.ofNat (price s code)) = some (paidFor s a.frame code) := by
    refine if_pos (UInt64.le_iff_toNat_le.mpr ?_)
    rw [hprice]
    exact h
  unfold deposit
  rw [Attempt.bind_of_ok (Attempt.get_apply a)]
  simp only [if_neg (Nat.not_lt_of_le hfits), hcost, hpaid]
  rfl

end Running

/-! ### The end of a creation -/

namespace Creation

/-- Why a creation is undone whose code has run and left the state `a`. -/
inductive Fails (s : Setting) (a : Active) : Except CallError Bytes → CallError → Prop
  /-- The code itself has failed. -/
  | run {e : CallError} (he : ¬ Internal e) : Fails s a (.error e) e
  /-- The code that it has returned is too large. -/
  | size {code : Bytes} (hsize : ¬ Fits s code) : Fails s a (.ok code) .codeSizeExceeded
  /-- It cannot be paid for, and the rules do not let that pass. -/
  | unpaid {code : Bytes} (hfits : Fits s code) (hprice : ¬ Affords s a code)
    (hrules : s.rules.codeStoreReverts = true) : Fails s a (.ok code) .codeStoreOutOfGas

/-- **The ways for a creation to close** after its code has ended with `r` in the state `a`. -/
inductive Closes (s : Setting) (address : Address) (snapshot : Ledger.Snapshot) (a : Active) :
    Except CallError Bytes → Outcome → Machine → Prop
  | stored {code : Bytes} {m : Machine} (hfits : Fits s code) (hprice : Affords s a code)
    (hset : Exec.view (View.setCode s.store address code) a.machine = (.ok (), m)) :
    Closes s address snapshot a (.ok code)
      { result := .success (paidFor s a.frame code) [], address := some address } m
  | bare {code : Bytes} (hfits : Fits s code) (hprice : ¬ Affords s a code)
    (hrules : s.rules.codeStoreReverts = false) :
    Closes s address snapshot a (.ok code)
      { result := .success a.frame [], address := some address,
        depositError := some .codeStoreOutOfGas } a.machine
  | undone {r : Except CallError Bytes} {e : CallError} {m : Machine} (hfails : Fails s a r e)
    (hrevert : Exec.view (View.revertTo snapshot) a.machine = (.ok (), m)) :
    Closes s address snapshot a r
      { result := .failure a.frame.exhaust e, address := some address } m

/-- A creation that has an error is undone, unless that is one which the rules let pass. -/
theorem closes_of_error {r : Except CallError Bytes} {e : CallError}
    (hkept : ¬ (e = .codeStoreOutOfGas ∧ ¬ s.rules.codeStoreReverts = true))
    (hfails : ¬ Internal e → Fails s a r e)
    (h : Exec.settleCreation s address snapshot a.frame (some e) a.machine = (.ok o, m')) :
    Closes s address snapshot a r o m' := by
  simp only [Exec.settleCreation, if_neg hkept] at h
  obtain ⟨result, m₁, hsettle, h⟩ := Attempt.bind_eq_ok h
  cases h
  obtain ⟨he, rfl, hrevert⟩ := Exec.settle_ok hsettle
  exact .undone (hfails he) hrevert

/-- **A creation closes in one of these ways**, if running code ends with no other errors than
faults and internal ones. -/
theorem closes_of_closing {caller : Address} {initCode : Bytes} {gas : Gas} {value : Word}
    {r : Except CallError Bytes} (hr : Running.nested run [] { frame, machine := m } = (r, a))
    (hhalting : ∀ e, r = .error e → Halting e)
    (h : (Operation.create caller initCode gas value).closing s run frame snapshot m =
      (.ok o, m')) : Closes s frame.account snapshot a r o m' := by
  rw [Operation.closing_create] at h
  -- If the code could not be run and settled, the creation has not ended.
  rcases hinstall : Running.install s run frame.account ⟨frame, m⟩ with ⟨e | error, a'⟩
  · rw [hinstall] at h
    cases h
  · rw [hinstall] at h
    rcases Running.install_cases hr hinstall with ⟨e, rfl, rfl, rfl⟩ | ⟨code, rfl, hdeposit⟩
    · refine closes_of_error (fun hkept => ?_) .run h
      -- Running out of gas for code is nothing that running code ends with.
      rcases hhalting e rfl with ⟨fault, rfl⟩ | he
      · cases hkept.1
      · rw [hkept.1] at he
        cases he
    · -- The checks of the deposit, in their order.
      by_cases hfits : Fits s code
      · by_cases hprice : Affords s a code
        · rw [Running.deposit_of_affords hfits hprice] at hdeposit
          obtain ⟨_, a₁, hset, hdeposit⟩ := Attempt.bind_eq_ok hdeposit
          cases hdeposit
          cases h
          obtain ⟨hanswer, rfl⟩ := Prod.mk.inj hset
          exact .stored hfits hprice (Prod.ext hanswer rfl)
        · rw [Running.deposit_of_unaffordable hfits hprice] at hdeposit
          cases hdeposit
          by_cases hrules : s.rules.codeStoreReverts = true
          · exact closes_of_error (fun hkept => hkept.2 hrules)
              (fun _ => .unpaid hfits hprice hrules) h
          · unfold Exec.settleCreation at h
            dsimp only at h
            rw [if_pos ⟨rfl, hrules⟩] at h
            cases h
            exact .bare hfits hprice (Bool.eq_false_of_not_eq_true hrules)
      · -- Code that is too long is refused before its price is asked.
        rw [Running.deposit_of_unfit hfits] at hdeposit
        cases hdeposit
        exact closes_of_error (by rintro ⟨⟨⟩, -⟩) (fun _ => .size hfits) h

end Creation

end

/-! ### Creations with a result -/

/-- A **creation that has come to a result**, with some levels of nesting left for its code. The
outermost one has as many as the limit of the nesting and one more. -/
structure Creation (linked : Bool) (s : Setting) where
  levels : Nat
  caller : Address
  initCode : Bytes
  gas : Gas
  value : Word
  before : Machine
  outcome : Outcome
  after : Machine
  done : Script.host linked s (levels + 1) (.create caller initCode gas value) before =
    (.ok outcome, after)

/-- The last part of an operation whose frame was prepared, before its trace node is closed. -/
theorem Operation.host_closing {linked : Bool} {s : Setting} {levels : Nat} {op : Operation}
    {m m₁ m' : Machine} {frame : CallFrame} {snapshot : Ledger.Snapshot} {o : Outcome}
    (h : Script.host linked s (levels + 1) op m = (.ok o, m'))
    (hopen : op.opening s (op.entered m) = (.ok (.started frame snapshot), m₁)) :
    ∃ m₂, op.closing s (Script.interpreter linked s (Script.host linked s levels)) frame snapshot
      m₁ = (.ok o, m₂) ∧ m'.view = m₂.view := by
  rw [Script.host_succ] at h
  rcases hbody : op.body s (Script.interpreter linked s (Script.host linked s levels))
    (op.entered m) with ⟨result, m₂⟩
  rw [Exec.traced_apply (body_meets_host linked s levels op) hbody] at h
  rw [body, Attempt.bind_of_ok hopen] at hbody
  cases h
  exact ⟨m₂, hbody, rfl⟩

namespace Creation

variable {linked : Bool} {s : Setting} {c : Creation linked s}

/-- The operation. -/
def op (c : Creation linked s) : Operation := .create c.caller c.initCode c.gas c.value

/-- Its tree. -/
def tree (c : Creation linked s) : CallTree := c.op.tree linked s (c.levels + 1) c.before

/-- **The run of a creation's code**, from the machine that was prepared for it to the state that it
has left. -/
structure Run (c : Creation linked s) where
  frame : CallFrame
  snapshot : Ledger.Snapshot
  start : Machine
  ended : Except CallError Bytes
  last : Active
  opened : c.op.opening s (c.op.entered c.before) = (.ok (.started frame snapshot), start)
  ran : Running.nested (Script.interpreter linked s (Script.host linked s c.levels)) []
    { frame, machine := start } = (ended, last)

/-- The creation was **refused** by its entry check, and nothing has changed. -/
structure Refused (c : Creation linked s) : Prop where
  refusal : IsRefusal c.gas c.outcome.result
  givesBack : c.outcome.GivesBack c.gas c.outcome.result.verdict
  untouched : Ledger.Untouched s.store c.before.view.ledger c.after.view.ledger

namespace Run

/-- What holds of every creation whose code has run. -/
structure Founded (run : c.Run) : Prop where
  /-- The address comes from the caller and from its nonce before. -/
  derived : ∃ nonce, (Ledger.nonce s.store c.caller c.before.view.ledger).1 = .ok nonce ∧
    run.frame.account = contractAddress c.caller nonce
  address : c.outcome.address = some run.frame.account
  /-- The account is put in place without code, and the last thing before the creation's code starts
  is that the policy moves the value. -/
  placed : ∃ v : View, (Ledger.code s.store run.frame.account v.ledger).1 = .ok [] ∧
    s.env.transfers.transfer s.store c.caller run.frame.account c.value v =
      (.ok (), run.start.view)
  /-- So there is still no code when it starts, unless the policy has given it any. -/
  codeless : s.env.transfers.GivesNoCode s.store →
    (Ledger.code s.store run.frame.account run.start.view.ledger).1 = .ok []
  /-- The policy of balances has taken the value from the caller and given it to the account. -/
  paid : s.env.transfers = .balance → Settles [⟨c.caller, run.frame.account, c.value⟩]
    (c.before.view.ledger.balances s.store) (run.start.view.ledger.balances s.store)
  /-- The gas that the run has used and the gas that it has left are what the creation was given. -/
  gas : run.last.frame.gasLeft.toNat + run.last.frame.gasUsed.toNat = c.gas.toNat
  gasLimit : c.outcome.result.gasLimit = c.gas
  output : c.outcome.result.output = []

/-- The creation has **stored** what its code has returned, at its price. -/
structure Stored (run : c.Run) (code : Bytes) : Prop where
  ended : run.ended = .ok code
  fits : Fits s code
  affords : Affords s run.last code
  verdict : c.outcome.result.verdict = .success
  depositError : c.outcome.depositError = none
  gasUsed : c.outcome.result.gasUsed.toNat = run.last.frame.gasUsed.toNat + price s code
  code : (keccak code = emptyCodeHash → code = []) →
    (Ledger.code s.store run.frame.account c.after.view.ledger).1 = .ok code

/-- The creation **could not pay** for what its code has returned, and its account stays as the run
has left it. -/
structure Bare (run : c.Run) (code : Bytes) : Prop where
  ended : run.ended = .ok code
  fits : Fits s code
  unaffordable : ¬ Affords s run.last code
  rules : s.rules.codeStoreReverts = false
  verdict : c.outcome.result.verdict = .success
  depositError : c.outcome.depositError = some .codeStoreOutOfGas
  gasUsed : c.outcome.result.gasUsed = run.last.frame.gasUsed
  kept : c.after.view.ledger = run.last.machine.view.ledger
  /-- There is no code, unless an operation below the creation has stored some at the address, or
  moving value gives some. -/
  codeless : s.env.transfers.GivesNoCode s.store →
    (∀ u ∈ c.tree.children, ¬ u.StoresAt run.frame.account) →
    (Ledger.code s.store run.frame.account c.after.view.ledger).1 = .ok []

/-- The creation has failed and was **undone**. Only the nonce of its caller is one higher. -/
structure Undone (run : c.Run) (e : CallError) : Prop where
  fails : Fails s run.last run.ended e
  verdict : c.outcome.result.verdict = .revert e
  depositError : c.outcome.depositError = none
  gasUsed : c.outcome.result.gasUsed = c.gas
  gasLeft : c.outcome.result.gasLeft = 0
  counted : Ledger.CountsUp s.store c.caller c.before.view.ledger c.after.view.ledger

end Run

/-- The ways for a creation to end. -/
inductive Ending
  | refused
  | stored
  | bare
  | undone
  deriving DecidableEq

/-- How a creation has ended. -/
def EndsAs (c : Creation linked s) : Ending → Prop
  | .refused => c.Refused
  | .stored => ∃ run : c.Run, run.Founded ∧ ∃ code, run.Stored code
  | .bare => ∃ run : c.Run, run.Founded ∧ ∃ code, run.Bare code
  | .undone => ∃ run : c.Run, run.Founded ∧ ∃ e, run.Undone e

/-- The ending that an outcome tells. -/
def Ending.ofOutcome (o : Outcome) : Ending :=
  if o.address = none then .refused
  else if o.depositError ≠ none then .bare
  else if o.result.verdict = .success then .stored else .undone

/-- **The outcome tells the ending.** -/
theorem EndsAs.eq_ofOutcome {ending : Ending} (h : c.EndsAs ending) :
    ending = .ofOutcome c.outcome := by
  -- The outcome shows its kind: by the address, the deposit error and the verdict.
  unfold Ending.ofOutcome
  cases ending with
  | refused => rw [if_pos (Refused.givesBack h).address]
  | stored =>
    obtain ⟨run, hfounded, code, hstored⟩ := h
    rw [hfounded.address, hstored.depositError, hstored.verdict]
    rfl
  | bare =>
    obtain ⟨run, hfounded, code, hbare⟩ := h
    rw [hfounded.address, hbare.depositError]
    rfl
  | undone =>
    obtain ⟨run, hfounded, e, hundone⟩ := h
    rw [hfounded.address, hundone.depositError, hundone.verdict]
    rfl

/-! ### What is known of the run -/

namespace Run

/-- The run has a trail, which is that of the frame in the creation's tree. -/
theorem trail (run : c.Run) : ∃ codeRun a,
    c.op.codeRun? linked s (Script.host linked s c.levels) c.before = some codeRun ∧
      codeRun.ended = run.ended ∧ run.last = a.atDepth run.start.depth ∧
      Script.Trail linked s (Script.host linked s c.levels) c.op.codeInput
        (Active.atDepth (run.start.depth + 1) ⟨run.frame, run.start⟩) codeRun.steps codeRun.ended
        a := by
  have hran : Running.nested (Script.interpreter linked s (Script.host linked s c.levels))
      c.op.codeInput ⟨run.frame, run.start⟩ = (run.ended, run.last) := run.ran
  obtain ⟨a, htrail, hlast⟩ := Script.nested_trail hran
  have hrun : c.op.codeRun? linked s (Script.host linked s c.levels) c.before = some _ :=
    Operation.codeRun?_of_started run.opened
  rw [hran] at hrun
  exact ⟨_, a, hrun, rfl, hlast, htrail⟩

theorem halting (run : c.Run) : ∀ e, run.ended = .error e → Halting e := by
  obtain ⟨codeRun, a, -, hended, -, htrail⟩ := run.trail
  rw [← hended]
  exact htrail.error (R := Ledger.Unrelated)
    (Script.host_meets s.env.transfers.within_unrelated linked c.levels)

/-- The creation has closed in one of the ways. -/
theorem closes (run : c.Run) : ∃ m, c.after.view = m.view ∧
    Closes s run.frame.account run.snapshot run.last run.ended c.outcome m := by
  obtain ⟨m, hclosing, hview⟩ := Operation.host_closing c.done run.opened
  exact ⟨m, hview, closes_of_closing run.ran run.halting hclosing⟩

/-- The creation has passed its entry check. -/
theorem passes (run : c.Run) : c.op.Passes s c.before := by
  obtain ⟨_, hrefusal, -⟩ := Operation.opening_prepared run.opened
  exact (Operation.refusal?_eq_none_iff hrefusal).mp rfl

/-- The ledger at the end of the run is one that the creation leads to. -/
theorem leads (run : c.Run) (hp : s.env.transfers.Honest s.store) :
    Ledger.Leads s.store c.before.view.ledger run.last.machine.view.ledger := by
  obtain ⟨m₀, hm₀, -, hm₁⟩ := Operation.opening_based hp.leads run.opened
  obtain ⟨_, a, -, -, hlast, htrail⟩ := run.trail
  have hmoves := (htrail.moves (Script.host_meets hp.leads linked c.levels)).1
  rw [hlast]
  exact (hm₀.ledger.trans hm₁.ledger).trans hmoves.ledger

end Run

theorem Closes.not_internal {address : Address} {snapshot : Ledger.Snapshot} {a : Active}
    {r : Except CallError Bytes} {o : Outcome} {m : Machine}
    (h : Closes s address snapshot a r o m) : ∀ e, r = .error e → ¬ Internal e := by
  intro e he
  cases h with
  | stored => cases he
  | bare => cases he
  | undone hfails =>
    cases hfails with
    | run hinternal =>
      cases he
      exact hinternal
    | size => cases he
    | unpaid => cases he

/-- What the outcome says in all ways to close. -/
theorem Closes.reports {address : Address} {snapshot : Ledger.Snapshot} {a : Active}
    {r : Except CallError Bytes} {o : Outcome} {m : Machine}
    (h : Closes s address snapshot a r o m) :
    o.address = some address ∧ o.result.gasLimit = a.frame.gasLimit ∧ o.result.output = [] := by
  cases h <;> exact ⟨rfl, rfl, rfl⟩

namespace Run

/-- The frame has not used more gas than the creation was given. -/
theorem solvent (run : c.Run) : run.last.frame.gasLimit = c.gas ∧ run.last.frame.Solvent := by
  obtain ⟨_, -, -, hprepares⟩ :=
    Operation.opening_started s.env.transfers.within_unrelated run.opened
  -- A frame starts without any gas used, and no step uses more than is left.
  have hfresh : run.frame.Solvent := by
    unfold CallFrame.Solvent CallFrame.used
    rw [hprepares.gasUsed]
    exact Nat.zero_le _
  obtain ⟨m, -, hcloses⟩ := run.closes
  obtain ⟨codeRun, a, -, hended, hlast, htrail⟩ := run.trail
  have hcosts := htrail.costs (Script.host_accounts linked s c.levels)
    (hended ▸ hcloses.not_internal) hfresh
  rw [hlast]
  exact ⟨hcosts.gasLimit.trans hprepares.gasLimit, hcosts.solvent⟩

/-- **What all creations have in common** whose code has run. -/
theorem founded (hp : s.env.transfers.Honest s.store) (hstore : s.store.Reliable)
    (hm : c.before.view.ledger.Sound s.store) (run : c.Run) : run.Founded := by
  -- After the entry check the nonce is read and counted up, and then the account is put in place.
  obtain ⟨m₁, m₂, nonce, htouches, hread, haccount, hleads, hfound⟩ :=
    Operation.opening_create hp run.opened
  obtain ⟨placed, hnew, hmoved⟩ := Exec.found_places hstore.blank hfound (hleads.sound hm)
  have hlooks := htouches.ledger.looks hm
  obtain ⟨m, -, hcloses⟩ := run.closes
  obtain ⟨haddress, hlimit, houtput⟩ := hcloses.reports
  obtain ⟨hgas, hsolvent⟩ := run.solvent
  constructor
  · -- The nonce was read after the entry check, which has only looked.
    refine ⟨nonce, ?_, haccount⟩
    rw [hm.nonce_eq, ← hread, hlooks.sound.nonce_eq, hlooks.report]
    rfl
  · exact haddress
  · exact ⟨placed, hnew.code_eq hstore.answers, hmoved⟩
  · -- A policy that gives no code leaves the account without it when it is paid.
    intro hgives
    exact (((hgives _ _ _ _).of_eq hmoved) hnew).code_eq hstore.answers
  · exact fun hs => ((Operation.opening_started_pays hs run.opened).1 hm).2
  · -- Gas used and gas left add up to the limit.
    unfold CallFrame.Solvent at hsolvent
    rw [hgas] at hsolvent
    rw [CallFrame.toNat_gasLeft, hgas]
    exact Nat.sub_add_cancel hsolvent
  · exact hlimit.trans hgas
  · exact houtput

/-- At the end of the run the account is without code, unless an operation below has stored some at
its address. -/
theorem codeless_last (hp : s.env.transfers.Honest s.store)
    (hgives : s.env.transfers.GivesNoCode s.store) (hstore : s.store.Blank)
    (hm : c.before.view.ledger.Sound s.store) (run : c.Run)
    (hnot : ∀ u ∈ c.tree.children, ¬ u.StoresAt run.frame.account) :
    run.last.machine.view.ledger.Codeless s.store run.frame.account := by
  obtain ⟨_, _, _, -, -, -, hleads, hfound⟩ :=
    Operation.opening_create hp run.opened
  obtain ⟨placed, hnew, hmoved⟩ := Exec.found_places hstore hfound (hleads.sound hm)
  have hstart := (hgives run.frame.account _ _ _).of_eq hmoved hnew
  obtain ⟨codeRun, a, hrun, -, hlast, htrail⟩ := run.trail
  -- So only what the code has asked for could have given it any.
  have hran := Operation.ran_keepsCodeless hstore hrun htrail fun u hu =>
    Operation.child_keepsCodeless (Script.host_keepsCodeless hp hgives hstore) c.done hu (hnot u hu)
  rw [hlast]
  exact hran hstart

/-- **A creation whose code has run** ends in one of three ways. -/
theorem ends (hp : s.env.transfers.Honest s.store) (hstore : s.store.Reliable)
    (hm : c.before.view.ledger.Sound s.store) (run : c.Run) :
    (∃ code, run.Stored code) ∨ (∃ code, run.Bare code) ∨ ∃ e, run.Undone e := by
  obtain ⟨hgas, hsolvent⟩ := run.solvent
  obtain ⟨m, hview, hcloses⟩ := run.closes
  -- Each way of closing is one of the three.
  generalize hended : run.ended = r at hcloses
  generalize ho : c.outcome = o at hcloses
  cases hcloses with
  | @stored code m hfits haffords hset =>
    obtain ⟨-, hprice⟩ := codeDepositCost_of_affords haffords
    -- As a number the price adds to the gas that was used, since it was there to be paid.
    have hpaid : (paidFor s run.last.frame code).used = run.last.frame.used + price s code := by
      rw [paidFor, CallFrame.used_paid hsolvent ?_, hprice]
      rw [UInt64.le_iff_toNat_le, hprice]
      exact haffords
    refine .inl ⟨code, hended, hfits, haffords, ?_, ?_, ?_, fun hdigest => ?_⟩
    · rw [ho]
      rfl
    · rw [ho]
    · rw [ho]
      exact hpaid
    · -- Code just stored is what is read, if only no code has the digest of no code.
      rw [hview]
      exact Ledger.code_setCode ((run.leads hp).sound hm) (Exec.watched_eq hset).1 hdigest
  -- The account is kept without the code that could not be paid for.
  | @bare code hfits hdear hrules =>
    refine .inr (.inl ⟨code, hended, hfits, hdear, hrules, ?_, ?_, ?_, ?_,
      fun hgives hnot => ?_⟩)
    · rw [ho]
      rfl
    · rw [ho]
    · rw [ho]
      rfl
    · rw [hview]
    · rw [hview]
      -- Nothing on the way has stored code there, unless an operation below has.
      exact (run.codeless_last hp hgives hstore.blank hm hnot).code_eq hstore.answers
  -- Undone, the ledger is that of the sender's nonce counted up.
  | @undone _ e m hfails hrevert =>
    have hverdict : c.outcome.result.verdict = .revert e := by rw [ho]; rfl
    have hundone := Operation.undone_of_reverted hstore hp hm c.done hverdict
    refine .inr (.inr ⟨e, hended ▸ hfails, hverdict, ?_, ?_, ?_, ?_⟩)
    · rw [ho]
    · rw [ho]
      exact hgas
    · rw [ho]
      exact Operation.gasLeft_exhausted _ e
    · exact hundone.counted _ _ _ _ rfl run.passes

end Run

/-! ### Exactly one way -/

/-- **A creation that does not come to run its code** was refused. -/
theorem refused_of_finished (hreads : s.env.transfers.OnlyReads s.store)
    (hm : c.before.view.ledger.Reachable s.store) {result : CallResult} {m : Machine}
    (hopen : c.op.opening s (c.op.entered c.before) = (.ok (.finished result), m))
    (ho : c.outcome = { result }) (hview : c.after.view = m.view) : c.Refused := by
  rcases Operation.opening_cases hopen with ⟨_, hrefused, heq⟩ | ⟨_, hpassed, hprepare⟩
  · cases heq
    have hrefusal : IsRefusal c.gas result := Operation.refusal?_result hrefused
    -- The entry check looks with a policy that only reads.
    have hread : View.ReadsOn s.store c.before.view m.view :=
      Operation.refusal?_readsOn (m := c.op.entered c.before) hreads hrefused
    refine ⟨?_, ?_, ?_⟩
    · rw [ho]
      exact hrefusal
    · rw [ho]
      rcases hrefusal with rfl | rfl | ⟨detail, rfl⟩ <;> exact Outcome.givesBack _ _
    · rw [hview]
      exact hread.untouched hm
  · -- A creation that has passed its entry check is prepared.
    obtain ⟨_, _, heq, -⟩ := Operation.derived?_of_prepared hpassed hprepare
    cases heq

/-- **Every creation that comes to a result ends in exactly one way**, at every level of nesting,
over a reliable store and with any policy that only reads to decide and moves value by operations on
the ledger. -/
theorem ends_in_one_way (hp : s.env.transfers.Honest s.store)
    (hreads : s.env.transfers.OnlyReads s.store) (hstore : s.store.Reliable)
    (c : Creation linked s) (hm : c.before.view.ledger.Reachable s.store) :
    ∃! ending, c.EndsAs ending := by
  have hsound := hm.sound
  -- One way at least: by how the creation was opened and how its run ended.
  have hends : ∃ ending, c.EndsAs ending := by
    obtain ⟨m₂, hcourse, hafter⟩ := Operation.host_course c.done
    have hview : c.after.view = m₂.view := by rw [hafter]
    generalize ho : (.ok c.outcome : Except CallError Outcome) = result at hcourse
    cases hcourse with
    | unopened => cases ho
    | unstarted hopen =>
      exact ⟨.refused, refused_of_finished hreads hm hopen (Except.ok.inj ho) hview⟩
    | ran hopen _ _ _ _ hnested =>
      let run : c.Run := ⟨_, _, _, _, _, hopen, hnested⟩
      have hfounded := run.founded hp hstore hsound
      rcases run.ends hp hstore hsound with hstored | hbare | hundone
      · exact ⟨.stored, run, hfounded, hstored⟩
      · exact ⟨.bare, run, hfounded, hbare⟩
      · exact ⟨.undone, run, hfounded, hundone⟩
  obtain ⟨ending, hending⟩ := hends
  -- One way at most: the outcome tells which.
  exact ⟨ending, hending, fun other hother => hother.eq_ofOutcome.trans hending.eq_ofOutcome.symm⟩

end Creation

/-- A world under the first rules with one account, whose code creates an account that creates
another one, with a byte of code. -/
def Setting.recreating : Setting where
  store := {
    account address := .ok (if address = 1 then some { nonce := 5, codeHash := 1 } else none)
    slot _ _ := .ok 0
    code _ := .ok (Script.encode [.create Script.allGas 0 (Script.encode
      [.create Script.allGas 0 (Script.encode [.output [1]]), .outputZeros 2])]) }
  chain := default

theorem Setting.recreating_reliable : recreating.store.Reliable where
  account _ := ⟨_, rfl⟩
  slot _ _ := ⟨0, rfl⟩
  blank _ _ _ := rfl
  code _ := ⟨_, rfl⟩

namespace Creation

/-- An outermost creation whose code returns two bytes, which it cannot pay for. -/
def unpaid : Creation true .recreating where
  levels := 1025
  caller := 2
  initCode := Script.encode [.outputZeros 2]
  gas := 300
  value := 0
  before := {}
  outcome := {
    result := { verdict := .success, gasLimit := 300 }
    address := some 0xe536720791a7dadbebdbcd8c8546fb0791a11901
    depositError := some .codeStoreOutOfGas }
  after := ((Script.dispatcher true .recreating).perform
    (.create 2 (Script.encode [.outputZeros 2]) 300 0) {}).2
  done := Attempt.apply_eq (by decide +kernel)

/-- It ends in the third way, and in no other one. Its code asks for nothing, so there is no code at
its address. -/
theorem ends_in_one_way_unpaid :
    Setting.recreating.store.Reliable ∧ unpaid.EndsAs .bare ∧ (∃! ending, unpaid.EndsAs ending) ∧
      (Ledger.code Setting.recreating.store 0xe536720791a7dadbebdbcd8c8546fb0791a11901
        unpaid.after.view.ledger).1 = .ok [] := by
  have hone : ∃! ending, unpaid.EndsAs ending :=
    ends_in_one_way TransferPolicy.balance_honest TransferPolicy.balance_onlyReads
      Setting.recreating_reliable unpaid .new
  obtain ⟨ending, hending⟩ := hone.exists
  obtain rfl : ending = .bare := hending.eq_ofOutcome.trans (by decide +kernel)
  refine ⟨Setting.recreating_reliable, hending, hone, ?_⟩
  obtain ⟨run, hfounded, code, hbare⟩ := hending
  have halone : unpaid.tree.children = [] := List.eq_nil_of_length_eq_zero (by decide +kernel)
  have haddress : 0xe536720791a7dadbebdbcd8c8546fb0791a11901 = run.frame.account :=
    Option.some.inj hfounded.address
  rw [haddress]
  refine hbare.codeless (TransferPolicy.balance_givesNoCode Setting.recreating_reliable.blank) ?_
  rw [halone]
  exact fun _ hu => absurd hu List.not_mem_nil

/-- **An account that could not pay for its code may have code.** The creation comes from the
address at which the one account of the world creates the next one, and its code calls that account.
So its caller is put in place anew and starts again with its first nonce, and what it creates then
takes the address of the creation that is going on. -/
theorem bare_with_code :
    let store := Setting.recreating.store
    let done := (Script.dispatcher true .recreating).perform (.create
      0x00efd0d4639191c49908a7bddbb9a11a994a8527
      (Script.encode [.call 1 Script.allGas 0, .outputZeros 2]) 500 0) {}
    let address := 0x64249f7f12e51b0c3f6a45713f87a382af6cc681
    store.Reliable ∧ done.1 = .ok {
        result := { verdict := .success, gasLimit := 500, gasUsed := 200 }
        address := some address
        depositError := some .codeStoreOutOfGas } ∧
      (Ledger.code store address done.2.view.ledger).1 = .ok [1] := by
  refine ⟨Setting.recreating_reliable, ?_⟩
  rw [← Prod.mk.injEq]
  decide +kernel

end Creation

end MessageCall
