import MessageCall.Proofs.Dispatch.Footprint

/-!
# Accounts without code

An account that has no code gets some in one way only: it is the account of a creation that comes to
a good end and stores what its code has returned. In a call tree such a creation counts only if
nothing above it was undone, because going back takes the code away again
(`CallTree.StoresAt`). An operation whose tree does not store code at an address leaves the account
there without code, if it was without code before (`Script.host_keepsCodeless`). The policy that
moves the value could give an account code as well, so it is asked not to
(`TransferPolicy.GivesNoCode`).

Footprints tell less than that. A creation has the code of its account in its footprint whatever
comes of it, but only one that stores code gives any to the account. It may well take code away: a
new account is without code, also where an account with code was in its place.
-/

namespace MessageCall

open Ledger (Confined)

variable {store : Store} {address : Address}

/-! ### Ledgers in which an account has no code -/

namespace Ledger

variable {l l' : Ledger} {F : Footprint}

/-- An account **without code**: if anything is reported of it, then the digest of no code. -/
structure Codeless (store : Store) (address : Address) (l : Ledger) : Prop where
  sound : l.Sound store
  codeHash : ∀ {r}, l.report store address = .ok r → r.info.codeHash = emptyCodeHash

/-- If an account was without code, it still is. -/
def KeepsCodeless (store : Store) (address : Address) (l l' : Ledger) : Prop :=
  l.Codeless store address → l'.Codeless store address

instance : IsPreorder Ledger (KeepsCodeless store address) where
  refl _ := id
  trans _ _ _ h h' := h' ∘ h

/-- Where there is no code, reading it answers nothing. -/
theorem Codeless.code_eq (hstore : store.Answers) (h : l.Codeless store address) :
    (Ledger.code store address l).1 = .ok [] := by
  obtain ⟨r, hr⟩ := exists_report hstore l address
  obtain ⟨l', hread, -⟩ := code_spec h.sound address
  have hnone : codeOver store l.codes r.info.codeHash = .ok [] := if_pos (h.codeHash hr)
  rw [hread, hr]
  exact congrArg asked hnone

/-- What does not have the code of an account in its footprint does not give it any. -/
theorem Confined.keepsCodeless (h : Confined store F l l') (hF : ¬ F address .code) :
    KeepsCodeless store address l l' := by
  intro hl
  refine ⟨h.leads.sound hl.sound, fun {r'} hr' => ?_⟩
  have hsame := (h.permits hl.sound address).codeHash hF
  rw [hr'] at hsame
  cases hr : l.report store address with
  | error e =>
    rw [hr] at hsame
    cases hsame
  | ok r =>
    rw [hr] at hsame
    exact (Except.ok.inj hsame).trans (hl.codeHash hr)

/-- An account that has just been created is without code. -/
theorem codeless_createAccount (h : l.Sound store)
    (hcreate : Ledger.createAccount store address l = (.ok (), l')) :
    l'.Codeless store address := by
  obtain ⟨l₁, heq, hevolves, hreport, -⟩ := createAccount_spec h address
  obtain ⟨hanswer, rfl⟩ := Prod.mk.inj (heq.symm.trans hcreate)
  -- A creation that went through has replaced the account by a fresh one.
  refine ⟨hevolves.sound, fun {r'} hr' => ?_⟩
  cases hr : l.report store address with
  | error e =>
    rw [hr] at hanswer
    cases hanswer
  | ok r =>
    rw [hreport, hr] at hr'
    change Function.update (l.report store) address
      (.ok (.created r.info.balance)) address = .ok r' at hr'
    rw [Function.update_self] at hr'
    -- The digest of a fresh account is that of no code.
    cases hr'
    rfl

end Ledger

open Ledger (KeepsCodeless)

/-- The footprint of everything but the code of one account. -/
def Footprint.sparing (address : Address) : Footprint := fun a part =>
  ¬ (a = address ∧ part = .code)

theorem Footprint.sparing_of_ne {a : Address} (h : a ≠ address) (part : Part) :
    sparing address a part := fun hcode => h hcode.1

theorem Footprint.sparing_nonce (address a : Address) : sparing address a .nonce := by
  rintro ⟨-, ⟨⟩⟩

theorem Footprint.sparing_storage (address a : Address) : sparing address a .storage := by
  rintro ⟨-, ⟨⟩⟩

theorem Ledger.Confined.spares {l l' : Ledger} (h : Confined store (.sparing address) l l') :
    KeepsCodeless store address l l' := h.keepsCodeless fun hcode => hcode ⟨rfl, rfl⟩

/-- Looking gives no account any code. -/
theorem Ledger.LooksIf.keepsCodeless {l l' : Ledger} (h : LooksIf store l l') :
    KeepsCodeless store address l l' := h.confined.spares

/-- Creating an account gives none any code: the new one is without code, and the others stay as
they are. -/
theorem Ledger.createAccount_keepsCodeless (hstore : store.Blank) (a : Address) (l : Ledger) :
    KeepsCodeless store address l (Ledger.createAccount store a l).2 := by
  by_cases hsame : a = address
  · subst hsame
    intro hl
    rcases hcreate : Ledger.createAccount store a l with ⟨e | _, l'⟩
    · -- Where it fails nothing is reported otherwise than before.
      refine ⟨?_, fun hr => hl.codeHash ?_⟩
      · have hleads := Ledger.leads_of_perform (f := fun _ => .done) (.createAccount a)
          (rfl : _ = Ledger.createAccount store a >>= _) l
        rw [hcreate] at hleads
        exact hleads.sound hl.sound
      · rw [(createAccount_spec hl.sound a).report_of_error hcreate] at hr
        exact hr
    · exact codeless_createAccount hl.sound hcreate
  · -- The account made is another one.
    refine (Ledger.confined_of_perform (f := fun _ => .done) hstore (.createAccount a) ?_
      rfl l).spares
    rintro _ part rfl
    exact Footprint.sparing_of_ne hsame part

namespace TransferPolicy

/-- A policy that **gives no account any code** when it moves value. -/
def GivesNoCode (store : Store) (p : TransferPolicy) : Prop :=
  ∀ address sender recipient value, (p.transfer store sender recipient value).Meets
    (View.Touches (KeepsCodeless store address)) fun _ => True

theorem balance_givesNoCode (hstore : store.Blank) : balance.GivesNoCode store :=
  fun _ sender recipient value =>
    (balance_confined hstore sender recipient value).mono Ledger.Confined.spares id

end TransferPolicy

section

variable {s : Setting} {op : Operation} {m m' : Machine} {frame : CallFrame}
  {snapshot : Ledger.Snapshot}

/-! ### Opening an operation -/

namespace Exec

/-- Setting a nonce gives no account any code. -/
theorem setNonce_keepsCodeless (hstore : s.store.Blank) (a : Address) (nonce : UInt64) :
    (Exec.view (View.setNonce s.store a nonce)).Meets
      (Machine.Touches (KeepsCodeless s.store address)) Internal :=
  (setNonce_confined hstore (Footprint.sparing_nonce address a) nonce).mono
    (fun h => h.mono Ledger.Confined.spares) id

theorem countUp_keepsCodeless (hstore : s.store.Blank) (caller : Address) :
    (countUp s caller).Meets (Machine.Touches (KeepsCodeless s.store address)) Internal :=
  countUp_meets_of Ledger.LooksIf.keepsCodeless (setNonce_keepsCodeless hstore caller)

/-- Putting a new account in place gives none any code, if the policy does not. -/
theorem found_keepsCodeless (hgives : s.env.transfers.GivesNoCode s.store) (hstore : s.store.Blank)
    (caller a : Address) (value : Word) :
    (found s caller a value).Meets (Machine.Touches (KeepsCodeless s.store address)) Internal :=
  found_meets_of
    (meets_view (View.meets_watched (Ledger.createAccount_keepsCodeless hstore a)))
    (setNonce_keepsCodeless hstore a) (hgives address caller a value)

/-- The account that a creation puts in place is **without code**, whatever was at the address
before, and then the policy moves the value. -/
theorem found_places (hstore : s.store.Blank) {caller : Address} {value : Word}
    (h : found s caller address value m = (.ok (), m')) (hm : m.view.ledger.Sound s.store) :
    ∃ placed : View, placed.ledger.Codeless s.store address ∧
      s.env.transfers.transfer s.store caller address value placed = (.ok (), m'.view) := by
  obtain ⟨_, m₁, hcreate, h⟩ := Attempt.bind_eq_ok h
  have hnew := Ledger.codeless_createAccount hm (watched_eq hcreate).1
  -- The rules may give the new account its first nonce before the value is moved.
  split at h
  · obtain ⟨_, m₂, hset, h⟩ := Attempt.bind_eq_ok h
    exact ⟨m₂.view, ((setNonce_keepsCodeless hstore _ _).of_eq hset).ledger hnew, (view_eq h).1⟩
  · exact ⟨m₁.view, hnew, (view_eq h).1⟩

end Exec

namespace Operation

/-- **Opening a creation** up to where its account is put in place: it has passed its entry check
and has read the nonce of its caller, which gives the address. -/
theorem opening_create {caller : Address} {initCode : Bytes} {gas : Gas} {value : Word}
    (hp : s.env.transfers.Honest s.store)
    (h : (Operation.create caller initCode gas value).opening s m =
      (.ok (.started frame snapshot), m')) :
    ∃ (m₁ m₂ : Machine) (nonce : UInt64),
      m.Touches (Ledger.LooksIf s.store) m₁ ∧
      (Ledger.nonce s.store caller m₁.view.ledger).1 = .ok nonce ∧
      frame.account = contractAddress caller nonce ∧
      Ledger.Leads s.store m.view.ledger m₂.view.ledger ∧
      Exec.found s caller frame.account value m₂ = (.ok (), m') := by
  obtain ⟨m₁, hrefusal, hprepare⟩ := opening_prepared h
  have hlooks := (refusal?_meets hp id _).of_eq hrefusal
  cases prepare_cases hprepare with
  | @create _ _ _ _ nonce m₂ _ hcount hfound =>
    -- The nonce read for the address is the one counted up.
    have hcounted := (Exec.countUp_meets (R := Ledger.Leads s.store) caller).of_eq hcount
    obtain ⟨_, _, hnonce, -⟩ := Exec.countUp_eq_ok hcount
    exact ⟨m₁, m₂.marked.told _, nonce, hlooks, congrArg Prod.fst hnonce, rfl,
      hlooks.ledger.leads.trans hcounted.ledger, hfound⟩

/-- An operation whose frame is ready has not given code to an account that had none. -/
theorem opening_keepsCodeless (hp : s.env.transfers.Honest s.store)
    (hgives : s.env.transfers.GivesNoCode s.store) (hstore : s.store.Blank)
    (h : op.opening s m = (.ok (.started frame snapshot), m')) :
    KeepsCodeless s.store address m.view.ledger m'.view.ledger := by
  -- The entry check only looks.
  obtain ⟨m₁, hrefusal, hprepare⟩ := opening_prepared h
  have hlooked := ((op.refusal?_meets hp id).of_eq hrefusal).ledger
  refine IsTrans.trans _ _ _ hlooked.keepsCodeless ?_
  -- By the steps of the preparation, none of which sets code.
  cases prepare_cases hprepare with
  | call htarget htransfer hframe =>
    have htargeted := ((Exec.prepareTarget_confined (F := .sparing address) hstore _ _).of_eq
      htarget).ledger.spares
    have hpaid := (Exec.meets_view (hgives address _ _ _)).of_eq htransfer
    have hread : KeepsCodeless s.store address _ m'.view.ledger :=
      ((Exec.frameFor_looks _ _).of_eq hframe).ledger.keepsCodeless
    exact IsTrans.trans _ _ _ htargeted (IsTrans.trans _ _ _ hpaid.ledger hread)
  -- To lend code is to read it.
  | callCode hframe | delegateCall hframe =>
    exact ((Exec.frameFor_looks _ _).of_eq hframe).ledger.keepsCodeless
  | create hcount hfound =>
    have hcounted : KeepsCodeless s.store address _ _ :=
      ((Exec.countUp_keepsCodeless hstore _).of_eq hcount).ledger
    have hfounded : KeepsCodeless s.store address _ m'.view.ledger :=
      ((Exec.found_keepsCodeless hgives hstore _ _ _).of_eq hfound).ledger
    exact IsTrans.trans _ _ _ hcounted hfounded

end Operation

/-! ### Runs -/

namespace Script

/-- Writing slots gives no account any code. -/
theorem setSlot_keepsCodeless (hstore : s.store.Blank) (a : Address) (key : Hash) (value : Word) :
    (Exec.view (View.setSlot s.store a key value)).Meets
      (Machine.Touches (KeepsCodeless s.store address)) Internal := by
  refine (Exec.confined_op (F := .sparing address) (f := fun _ => .done) hstore
    (.setSlot a key value) ?_ rfl).mono (fun h => h.mono fun h => h.spares) id
  rintro b _ ⟨rfl, rfl⟩
  exact Footprint.sparing_storage _ b

end Script

/-! ### Operations -/

/-- The operation has **stored code** for the account of a creation. -/
def CallNode.StoresAt (call : CallNode) (address : Address) : Prop :=
  ∃ o : Outcome, call.result = .ok o ∧ o.address = some address ∧ o.result.verdict = .success ∧
    o.depositError = none

/-- A tree **stores code** at an address if the operation at the root does, or if that has not been
undone and a tree below it stores code there. -/
inductive CallTree.StoresAt (address : Address) : CallTree → Prop
  | root {t : CallTree} (h : t.call.StoresAt address) : StoresAt address t
  | child {t u : CallTree} {o : Outcome} (ho : t.call.result = .ok o)
    (hkept : o.result.error? = none) (hu : u ∈ t.children) (h : StoresAt address u) :
    StoresAt address t

variable {linked : Bool} {levels : Nat} {o : Outcome}

namespace Operation

/-- **The run of an operation's code** leaves an account without code, if all that it asks for
does. -/
theorem ran_keepsCodeless (hstore : s.store.Blank) {run : CodeRun} {a a' : Active}
    (hrun : op.codeRun? linked s (Script.host linked s levels) m = some run)
    (htrail : Script.Trail linked s (Script.host linked s levels) op.codeInput a run.steps
      run.ended a')
    (hasked : ∀ u ∈ (op.tree linked s (levels + 1) m).children,
      KeepsCodeless s.store address u.call.before.view.ledger u.call.after.view.ledger) :
    KeepsCodeless s.store address a.machine.view.ledger a'.machine.view.ledger :=
  htrail.within (Script.setSlot_keepsCodeless hstore _) (asked_of_children hrun hasked)

/-- **The end of an operation** gives code only to the account at whose address it stores some. -/
theorem Ends.keepsCodeless (hstore : s.store.Blank) {a : Active} {r : Except CallError Bytes}
    {new : Address} {l : Ledger} (h : op.Ends s new snapshot a r o m')
    (hran : o.result.error? = none → KeepsCodeless s.store address l a.machine.view.ledger)
    (hback : KeepsCodeless s.store address l (Ledger.revertTo snapshot a.machine.view.ledger).2)
    (hnot : ¬ (o.address = some address ∧ o.result.verdict = .success ∧ o.depositError = none)) :
    KeepsCodeless s.store address l m'.view.ledger := by
  cases h with
  | returned => exact hran rfl
  | bare => exact hran rfl
  | @installed code _ _ _ _ _ _ hset =>
    -- Code has been stored, so it is another account's.
    have hother : new ≠ address := fun heq => hnot ⟨congrArg some heq, rfl, rfl⟩
    refine IsTrans.trans _ _ _ (hran rfl) (Ledger.Confined.spares ?_)
    refine Machine.Touches.ledger (Attempt.Meets.of_eq (E := Internal) ?_ hset)
    refine Exec.confined_op (f := fun _ => .done) hstore (.setCode new code) ?_ rfl
    rintro _ part ⟨rfl, -⟩
    exact Footprint.sparing_of_ne hother part
  | undone _ _ hrevert =>
    rw [Exec.watched_ledger hrevert]
    exact hback

/-- An operation that stores no code at an address leaves the account there **without code, one
level up**. -/
theorem keepsCodeless_of_children (hp : s.env.transfers.Honest s.store)
    (hgives : s.env.transfers.GivesNoCode s.store) (hstore : s.store.Blank)
    (h : Script.host linked s (levels + 1) op m = (.ok o, m'))
    (hnot : ¬ (op.tree linked s (levels + 1) m).StoresAt address)
    (hasked : ∀ u ∈ (op.tree linked s (levels + 1) m).children, ¬ u.StoresAt address →
      KeepsCodeless s.store address u.call.before.view.ledger u.call.after.view.ledger) :
    KeepsCodeless s.store address m.view.ledger m'.view.ledger := by
  have hresult : (op.tree linked s (levels + 1) m).call.result = .ok o := by
    rw [tree_done] at h
    exact congrArg Prod.fst h
  obtain ⟨m₂, rfl, ⟨result, hopen, -, -⟩ | ⟨frame, snapshot, m₁, run, a, hopen, hrun, htrail,
    hends⟩⟩ := host_ok h
  · exact (opening_finished_looks hp hopen).1.ledger.keepsCodeless
  · have hmoves := (htrail.moves (Script.host_meets hp.leads linked levels)).1
    refine hends.keepsCodeless hstore (fun hkept => ?_) ?_ fun hstored => ?_
    · -- What has not been undone counts, and so none of the trees below stores code there.
      refine IsTrans.trans _ _ _
        (opening_keepsCodeless (m := op.entered m) hp hgives hstore hopen) ?_
      exact ran_keepsCodeless hstore hrun htrail fun u hu =>
        hasked u hu fun hu' => hnot (.child hresult hkept hu hu')
    · -- What is undone goes back to a ledger in which at most a nonce is another one.
      exact (opening_back_confined (m := op.entered m) (F := .sparing address) hp hstore
        (fun _ _ => Footprint.sparing_nonce _ _) hopen hmoves.ledger).spares
    · exact hnot (.root ⟨o, hresult, hstored⟩)

end Operation

/-- What the code of an operation with a result asks for has results, one level below. -/
theorem Operation.child_keepsCodeless
    (hhost : ∀ {op m o m'}, Script.host linked s levels op m = (.ok o, m') →
      ¬ (op.tree linked s levels m).StoresAt address →
        KeepsCodeless s.store address m.view.ledger m'.view.ledger)
    (h : Script.host linked s (levels + 1) op m = (.ok o, m')) {u : CallTree}
    (hu : u ∈ (op.tree linked s (levels + 1) m).children) (hnot : ¬ u.StoresAt address) :
    KeepsCodeless s.store address u.call.before.view.ledger u.call.after.view.ledger := by
  obtain ⟨n, run, op', m₁, heq, hrun, hasked, rfl⟩ := child_cases hu
  obtain rfl : levels = n := Nat.succ.inj heq
  obtain ⟨o', m₂, hdone⟩ := request_ok h hrun hasked
  have hafter : (op'.tree linked s levels m₁).call.after = m₂ := by
    rw [tree_done] at hdone
    exact congrArg Prod.snd hdone
  rw [tree_before, hafter]
  exact hhost hdone hnot

/-- **An operation whose tree stores no code at an address** leaves the account there without code,
however many levels of nesting it has. -/
theorem Script.host_keepsCodeless (hp : s.env.transfers.Honest s.store)
    (hgives : s.env.transfers.GivesNoCode s.store) (hstore : s.store.Blank)
    (h : host linked s levels op m = (.ok o, m'))
    (hnot : ¬ (op.tree linked s levels m).StoresAt address) :
    KeepsCodeless s.store address m.view.ledger m'.view.ledger := by
  induction levels generalizing op m o m' with
  | zero => cases h
  | succ levels ih =>
    exact Operation.keepsCodeless_of_children hp hgives hstore h hnot fun u hu hnot' =>
      Operation.child_keepsCodeless ih h hu hnot'

end

end MessageCall
