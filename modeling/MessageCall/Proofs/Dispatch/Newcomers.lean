import MessageCall.Proofs.Dispatch.AllOrNothing
import MessageCall.Proofs.Dispatch.Footprint
import MessageCall.Proofs.State.Newcomers

/-!
# No new empty accounts

Under the rules of Spurious Dragon no empty account comes into existence, apart from those of native
contracts (`Operation.newcomers_not_empty`). There are four ways for an account to come into
existence. The target of a call is put in place, but then it is sent something. The account of a
creation starts with a nonce, and counting up the nonce of the one that creates it leaves it with
one. And any write brings its account into existence, but code writes to the account on which its
frame acts.

An account must not be empty later either, when it may have spent what it was sent. It lasts in the
sense of `Report.Lasts`: it has a nonce, or there is no code that could spend its balance. So code
runs on an account that is not there at first only if the account has a nonce by then
(`Operation.Grounds`), and then whatever the code asks for comes from an account with a nonce
(`Operation.Backed`). Every operation that is backed tidies the ledger, at every level
(`Script.host_tidies`).
-/

namespace MessageCall

open Ledger (Tidies TidiesBy KeepsRoots)

variable {s : Setting} {op : Operation} {m m' : Machine} {N : Address → Prop}

/-! ### Looking and going back -/

theorem Ledger.LooksIf.report_eq {store : Store} {l l' : Ledger} (h : Ledger.LooksIf store l l')
    (hl : l.Sound store) : l'.report store = l.report store := (h.looks hl).report

theorem Ledger.LooksIf.tidies {store : Store} {l l' : Ledger} (h : Ledger.LooksIf store l l') :
    Tidies store N l l' := .of_report h.leads.sound h.report_eq

/-- Whoever asks for an operation has a nonce. An account that has nothing may also call, because
it has nothing to send. -/
def Operation.Backed (store : Store) (N : Address → Prop) (op : Operation) (l : Ledger) : Prop :=
  N op.record.sender → l.Rooted store op.record.sender ∨
    (op.callType = .call ∨ op.callType = .create) ∧ l.Penniless store op.record.sender

theorem Operation.Backed.of_report {store : Store} {l l' : Ledger} (h : op.Backed store N l)
    (hsame : l'.report store = l.report store) : op.Backed store N l' := by
  unfold Backed Ledger.Rooted Ledger.Penniless
  rw [hsame]
  exact h

theorem ne_zero_of_succ? {n next : UInt64} (h : succ? n = some next) : next ≠ 0 := by
  rintro rfl
  exact absurd (toNat_of_succ? h) (Nat.succ_ne_zero _).symm

/-- A nonce that has been read and counted up is there. -/
theorem Ledger.counted_tidies {store : Store} {l l₁ l' : Ledger} {caller : Address}
    {nonce next : UInt64} (hread : Ledger.nonce store caller l = (.ok nonce, l₁))
    (hnext : succ? nonce = some next) (hset : Ledger.setNonce store caller next l₁ = (.ok (), l'))
    (ht : l.Tidy store N) :
    (l'.Tidy store N ∧ KeepsRoots store l l') ∧ l'.Rooted store caller := by
  have hreads : (LedgerOp.nonce caller).Reads := trivial
  have hlooks : Ledger.LooksIf store l _ := Ledger.looksIf_perform hreads l
  rw [perform_ledger rfl, hread] at hlooks
  obtain ⟨ht₁, hroots₁⟩ := hlooks.tidies ht
  obtain ⟨⟨ht₂, hroots₂⟩, hroot⟩ := Ledger.setNonce_tidies (ne_zero_of_succ? hnext) hset ht₁
  exact ⟨⟨ht₂, fun b hb => hroots₂ b (hroots₁ b hb)⟩, hroot⟩

/-- The snapshot of an operation is of a ledger in which the one that creates has a nonce. -/
theorem Operation.Stands.tidies {store : Store} {l base : Ledger} (h : op.Stands store l base) :
    Tidies store N l base := by
  cases op with
  | create caller initCode gas value =>
    obtain ⟨nonce, next, l₁, hread, hnext, hset⟩ := h
    exact fun ht => (Ledger.counted_tidies hread hnext hset ht).1
  | call | callCode | delegateCall =>
    obtain rfl : base = l := h
    exact Std.Refl.refl base

namespace Exec

/-! ### Preparing a frame -/

/-- A transfer of nothing does nothing, and any other takes the amount off one account and adds it
to the other. -/
theorem transfer_cases (hs : s.env.transfers = .balance) {sender recipient : Address} {value : Word}
    (h : Exec.view (s.env.transfers.transfer s.store sender recipient value) m = (.ok (), m')) :
    value = 0 ∧ m'.view.ledger = m.view.ledger ∨ value.toNat ≠ 0 ∧ ∃ l,
      Ledger.subBalance s.store sender value m.view.ledger = (.ok (), l) ∧
      Ledger.addBalance s.store recipient value l = (.ok (), m'.view.ledger) := by
  have hview := (view_eq h).1
  rw [hs] at hview
  unfold TransferPolicy.balance at hview
  by_cases hvalue : value = 0
  · simp only [if_pos hvalue] at hview
    exact .inl ⟨hvalue, congrArg View.ledger (Prod.mk.inj hview).2.symm⟩
  · simp only [if_neg hvalue] at hview
    obtain ⟨_, v, hsub, hadd⟩ := Attempt.bind_eq_ok hview
    obtain ⟨hsubbed, rfl⟩ := Prod.mk.inj hsub
    obtain ⟨hadded, hafter⟩ := Prod.mk.inj hadd
    refine .inr ⟨fun h => hvalue (BitVec.eq_of_toNat_eq h), _, Prod.ext hsubbed rfl, ?_⟩
    exact Prod.ext hadded (congrArg View.ledger hafter)

/-- A transfer to an account that awaits it. -/
theorem transfer_tidies (hs : s.env.transfers = .balance) {sender recipient : Address}
    {value : Word}
    (h : Exec.view (s.env.transfers.transfer s.store sender recipient value) m = (.ok (), m'))
    (hawaits : m.view.ledger.Awaits s.store N recipient value)
    (hsender : N sender →
      m.view.ledger.Rooted s.store sender ∨ m.view.ledger.Penniless s.store sender) :
    m'.view.ledger.Tidy s.store N ∧ KeepsRoots s.store m.view.ledger m'.view.ledger := by
  rcases transfer_cases hs h with ⟨hvalue, hsame⟩ | ⟨hvalue, l, hsub, hadd⟩
  · rw [hsame]
    exact ⟨hawaits.unpaid hvalue, fun _ hroot => hroot⟩
  · exact Ledger.paid_tidies hvalue hsub hadd hawaits hsender

/-- The target of a call that is not skipped awaits its amount. -/
theorem prepareTarget_tidies (hskips : s.rules.skipsEmptyCalls = true)
    (hN : ∀ a, N a → Precompile.isAt a s.rules.fork = false) {target : Address} {value : Word}
    (h : prepareTarget s target value m = (.ok false, m')) (ht : m.view.ledger.Tidy s.store N) :
    m'.view.ledger.Awaits s.store N target value ∧
      KeepsRoots s.store m.view.ledger m'.view.ledger ∧
      ∀ b, m.view.ledger.Penniless s.store b → m'.view.ledger.Penniless s.store b := by
  -- The target is looked up first.
  obtain ⟨found, m₁, hfound, h⟩ := Attempt.bind_eq_ok h
  have hlooks := ((meets_read (.accountExists target) trivial rfl).of_eq hfound).ledger
  have hanswer : (Ledger.accountExists s.store target m.view.ledger).1 = .ok found :=
    congrArg Prod.fst (watched_eq hfound).1
  have hsame := hlooks.report_eq ht.sound
  obtain ⟨ht₁, hroots₁⟩ := hlooks.tidies ht
  have hpoor₁ : ∀ b, m.view.ledger.Penniless s.store b → m₁.view.ledger.Penniless s.store b := by
    unfold Ledger.Penniless
    rw [hsame]
    exact fun _ h => h
  -- What was answered would be answered again.
  have hanswer₁ : (Ledger.accountExists s.store target m₁.view.ledger).1 = .ok found := by
    rw [ht₁.sound.accountExists_eq, hsame, ← ht.sound.accountExists_eq, hanswer]
  cases found with
  -- An account that was there keeps its root, or is inert still.
  | true =>
    cases h
    exact ⟨ht₁.awaits hanswer₁ value, hroots₁, hpoor₁⟩
  | false =>
    simp only [Bool.false_eq_true, if_false] at h
    split at h
    · cases h
    · -- The call was not skipped, so it pays something or the target is not watched.
      next hnot =>
      obtain ⟨_, m₂, hcreate, h⟩ := Attempt.bind_eq_ok h
      cases h
      have hvalue : value = 0 → ¬ N target := fun hzero ht => hnot
        ⟨by rw [hN target ht]; exact Bool.false_ne_true, hskips, hzero⟩
      obtain ⟨hawaits, hroots, hpoor⟩ :=
        Ledger.created_awaits (watched_eq hcreate).1 hanswer₁ hvalue ht₁
      exact ⟨hawaits, fun b hb => hroots b (hroots₁ b hb), fun b hb => hpoor b (hpoor₁ b hb)⟩

/-- The frame that is built for an account has no code, unless the account has a nonce. -/
theorem frameFor_tidies {codeAddress : Address} {frameOf : Bytes → Hash → Nat → CallFrame}
    {frame : CallFrame} (h : frameFor s codeAddress frameOf m = (.ok frame, m'))
    (hframe : ∀ code codeHash depth, (frameOf code codeHash depth).code = code)
    (hN : N codeAddress) (ht : m.view.ledger.Tidy s.store N) :
    m.view.ledger.Rooted s.store codeAddress ∨ frame.code = [] := by
  obtain ⟨code, m₁, hcode, h⟩ := Attempt.bind_eq_ok h
  obtain ⟨codeHash, m₂, -, h⟩ := Attempt.bind_eq_ok h
  obtain ⟨_, _, -, h⟩ := Attempt.bind_eq_ok h
  cases h
  rw [hframe]
  exact ht.code_cases hN (congrArg Prod.fst (watched_eq hcode).1)

/-- The account of a creation is put in place with a nonce, before it is paid. -/
theorem found_tidies (hs : s.env.transfers = .balance) (hskips : s.rules.skipsEmptyCalls = true)
    {caller address : Address} {value : Word} (h : found s caller address value m = (.ok (), m'))
    (hcaller : m.view.ledger.Rooted s.store caller) (ht : m.view.ledger.Tidy s.store N) :
    m'.view.ledger.Tidy s.store N ∧ KeepsRoots s.store m.view.ledger m'.view.ledger ∧
      m'.view.ledger.Rooted s.store address := by
  have hrules : s.rules.eip158 = true := hskips
  have hnonce : s.rules.createdNonce ≠ 0 := by
    rw [ForkRules.createdNonce, if_pos hrules]
    decide
  obtain ⟨_, m₁, hcreate, h⟩ := Attempt.bind_eq_ok h
  rw [if_pos hnonce] at h
  obtain ⟨_, m₂, hset, h⟩ := Attempt.bind_eq_ok h
  obtain ⟨hawaits, hroots, hroot⟩ := Ledger.founded_awaits hnonce (watched_eq hcreate).1
    (watched_eq hset).1 ht value
  obtain ⟨ht', hroots'⟩ := transfer_tidies hs h hawaits fun _ => .inl (hroots caller hcaller)
  exact ⟨ht', fun b hb => hroots' b (hroots b hb), hroots' address hroot⟩

end Exec

namespace Operation

/-- The account on which a frame acts has a nonce, or there is no code that acts on it. The account
of a creation has a nonce in any case. -/
def Grounds (store : Store) (N : Address → Prop) (op : Operation) (frame : CallFrame)
    (l : Ledger) : Prop :=
  N frame.account → l.Rooted store frame.account ∨ op.callType ≠ .create ∧ frame.code = []

/-- **Preparing a frame** leaves a tidy ledger, in which its account may be written by its code. -/
theorem prepare_tidies (hs : s.env.transfers = .balance) (hskips : s.rules.skipsEmptyCalls = true)
    (hN : ∀ a, N a → Precompile.isAt a s.rules.fork = false) {frame : CallFrame}
    {snapshot : Ledger.Snapshot} (h : op.prepare s m = (.ok (.started frame snapshot), m'))
    (hbacked : op.Backed s.store N m.view.ledger) (ht : m.view.ledger.Tidy s.store N) :
    m'.view.ledger.Tidy s.store N ∧ KeepsRoots s.store m.view.ledger m'.view.ledger ∧
      op.Grounds s.store N frame m'.view.ledger := by
  -- The code of the other two kinds of calls acts on the account that asks for it.
  have lends : op.callType ≠ .call → op.callType ≠ .create → frame.account = op.record.sender →
      m.Touches (Ledger.LooksIf s.store) m' → m'.view.ledger.Tidy s.store N ∧
      KeepsRoots s.store m.view.ledger m'.view.ledger ∧
      op.Grounds s.store N frame m'.view.ledger := by
    intro hcall hcreate haccount hlooks
    obtain ⟨ht', hroots⟩ := hlooks.ledger.tidies ht
    refine ⟨ht', hroots, fun hN => .inl (hroots _ ?_)⟩
    rw [haccount] at hN ⊢
    exact (hbacked hN).resolve_right fun h => h.1.elim hcall hcreate
  -- By the operation: only the first and the last pay and make accounts.
  cases prepare_cases h with
  | @call caller target _ _ _ _ _ _ _ htarget htransfer hframe =>
    obtain ⟨hawaits, hroots₁, hpoor₁⟩ := Exec.prepareTarget_tidies hskips hN htarget ht
    obtain ⟨ht₂, hroots₂⟩ := Exec.transfer_tidies hs htransfer hawaits fun hcaller =>
      -- The sender has a root, or nothing to send.
      (hbacked hcaller).imp (hroots₁ caller) fun hpoor => hpoor₁ caller hpoor.2
    obtain ⟨ht₃, hroots₃⟩ := ((Exec.frameFor_looks _ _).of_eq hframe).ledger.tidies ht₂
    refine ⟨ht₃, fun b hb => hroots₃ b (hroots₂ b (hroots₁ b hb)), ?_⟩
    obtain ⟨_, _, rfl⟩ := Exec.frameFor_result hframe
    exact fun hnew => (Exec.frameFor_tidies hframe (fun _ _ _ => rfl) hnew ht₂).imp
      (hroots₃ target) fun hcode => ⟨nofun, hcode⟩
  | callCode hframe | delegateCall hframe =>
    have hlooks := (Exec.frameFor_looks _ _).of_eq hframe
    obtain ⟨_, _, rfl⟩ := Exec.frameFor_result hframe
    exact lends nofun nofun rfl (IsTrans.trans _ _ _ m.touches_marked hlooks)
  -- The nonce counted up gives the creator a root before it pays.
  | create hcount hfound =>
    obtain ⟨next, l, hread, hnext, hset⟩ := Exec.countUp_eq_ok hcount
    obtain ⟨⟨ht₁, hroots₁⟩, hcaller⟩ := Ledger.counted_tidies hread hnext hset ht
    obtain ⟨ht₂, hroots₂, hroot⟩ := Exec.found_tidies hs hskips hfound hcaller ht₁
    exact ⟨ht₂, fun b hb => hroots₂ b (hroots₁ b hb), fun _ => .inl hroot⟩

/-- **Opening an operation** that starts a frame. The ledger to which it may go back is tidy as
well. -/
theorem opening_tidies (hs : s.env.transfers = .balance) (hskips : s.rules.skipsEmptyCalls = true)
    (hN : ∀ a, N a → Precompile.isAt a s.rules.fork = false) {frame : CallFrame}
    {snapshot : Ledger.Snapshot} (h : op.opening s m = (.ok (.started frame snapshot), m'))
    (hbacked : op.Backed s.store N m.view.ledger) (ht : m.view.ledger.Tidy s.store N) :
    m'.view.ledger.Tidy s.store N ∧ KeepsRoots s.store m.view.ledger m'.view.ledger ∧
      op.Grounds s.store N frame m'.view.ledger ∧
      ∃ base, snapshot = base.snapshot ∧ Tidies s.store N m.view.ledger base ∧
        Ledger.Leads s.store base m'.view.ledger := by
  have hp := Setting.transfers_honest hs
  obtain ⟨m₁, hrefusal, hprepare⟩ := opening_prepared h
  have hlooks := ((op.refusal?_meets hp id).of_eq hrefusal).ledger
  obtain ⟨ht₁, hroots₁⟩ := hlooks.tidies ht
  obtain ⟨ht', hroots', hgrounds⟩ := prepare_tidies hs hskips hN hprepare
    (hbacked.of_report (hlooks.report_eq ht.sound)) ht₁
  -- The ledger that the frame can go back to is tidy too.
  obtain ⟨_, base, -, hlooked, hstands, hsnapshot, hleads⟩ := opening_stands hp h
  exact ⟨ht', fun b hb => hroots' b (hroots₁ b hb), hgrounds, base, hsnapshot,
    IsTrans.trans _ _ _ hlooked.ledger.tidies hstands.tidies, hleads⟩

end Operation

/-! ### Runs -/

namespace Script

variable {linked : Bool} {host : Host} {input : Bytes} {a a' : Active}

/-- A host whose operations tidy the ledger, if they are backed and have a result. -/
def HostTidies (store : Store) (N : Address → Prop) (host : Host) : Prop :=
  ∀ op m o m', host op m = (.ok o, m') → op.Backed store N m.view.ledger →
    Tidies store N m.view.ledger m'.view.ledger

/-- An instruction writes to the account on which its frame acts, or asks for an operation in its
name. -/
theorem step_tidies (hhost : HostTidies s.store N host)
    (herror : ∀ op m e, (host op m).1 = .error e → Internal e) {i : Instruction}
    {r : Except CallError (Option Bytes)} (h : step linked s host input i a = (r, a'))
    (hr : ∀ e, r = .error e → ¬ Internal e) :
    TidiesBy s.store N a.frame.account a.machine.view.ledger a'.machine.view.ledger := by
  cases hrequest : i.request? input a with
  | none =>
    have hquiet : Quiet (TidiesBy s.store N a.frame.account) i a r a' :=
      step_quiet_of (fun key value => Exec.meets_view (View.meets_watched
        (Ledger.setSlot_tidiesBy key value))) hrequest h
    exact hquiet.moves.ledger
  | some op =>
    obtain ⟨o, m, hhanded, rfl, rfl⟩ := step_answered herror hrequest h hr
    intro hroot
    refine hhost op a.machine o m hhanded fun hN => .inl ?_
    rw [Instruction.request?_sender hrequest] at hN ⊢
    exact hroot hN

/-- **A run tidies the ledger** if the account on which its frame acts has a nonce. -/
theorem Trail.tidies (hhost : HostTidies s.store N host)
    (herror : ∀ op m e, (host op m).1 = .error e → Internal e)
    {steps : List (Instruction × Active)} {r : Except CallError Bytes}
    (h : Trail linked s host input a steps r a') (hr : ∀ e, r = .error e → ¬ Internal e) :
    TidiesBy s.store N a.frame.account a.machine.view.ledger a'.machine.view.ledger := by
  -- Along the instructions, each of which keeps what is tidy so.
  induction h with
  | @halted a =>
    exact (Std.Refl.refl _ : TidiesBy s.store N a.frame.account a.machine.view.ledger _)
  | @failed _ _ _ e h =>
    exact step_tidies hhost herror h fun _ he => by cases he; exact hr e rfl
  | ended h => exact step_tidies hhost herror h nofun
  | @more a a₁ a' i steps r h _ ih =>
    -- The frame goes on to act on the same account.
    have hgone : SameRun a (step linked s host input i a).2 := step_continues i a
    rw [h] at hgone
    have hsame : a₁.frame.account = a.frame.account := CallFrame.Continues.account hgone
    rw [hsame] at ih
    exact IsTrans.trans _ _ _ (step_tidies hhost herror h nofun) (ih hr)

/-- Where nothing is executed, nothing is changed. -/
theorem Trail.eq_of_nil {r : Except CallError Bytes}
    (h : Trail linked s host input a [] r a') : a' = a := by
  cases h
  rfl

theorem steps_of_no_code (h : a.frame.code = []) : steps linked s host input a = [] := by
  unfold steps
  rw [h]
  exact ite_self _

end Script

/-! ### Operations -/

namespace Operation

variable {linked : Bool} {levels : Nat} {o : Outcome}

/-- Code that is run on an account that was not there runs on one that has a nonce. -/
theorem Grounds.rooted {frame : CallFrame} {snapshot : Ledger.Snapshot} {host : Host}
    {run : CodeRun} (h : op.Grounds s.store N frame m'.view.ledger)
    (hopen : op.opening s (op.entered m) = (.ok (.started frame snapshot), m'))
    (hrun : op.codeRun? linked s host m = some run) :
    run.steps = [] ∨ (N frame.account → m'.view.ledger.Rooted s.store frame.account) := by
  obtain ⟨frame', _, m₁, _, hopen', hsteps, -⟩ := codeRun?_eq_some hrun
  cases hopen.symm.trans hopen'
  by_cases hcode : frame.code = []
  · exact .inl (hsteps.trans (Script.steps_of_no_code hcode))
  · exact .inr fun hN => (h hN).resolve_right fun h => hcode h.2

/-- **The end of an operation** is where its run has led, or the point to which the operation goes
back. Code is stored for an account that has a nonce. -/
theorem Ends.tidies {address : Address} {snapshot : Ledger.Snapshot} {a : Active}
    {r : Except CallError Bytes} {l : Ledger} (h : op.Ends s address snapshot a r o m')
    (hran : a.machine.view.ledger.Tidy s.store N ∧ KeepsRoots s.store l a.machine.view.ledger)
    (hback : Tidies s.store N l (Ledger.revertTo snapshot a.machine.view.ledger).2)
    (hroot : op.callType = .create → N address → a.machine.view.ledger.Rooted s.store address)
    (ht : l.Tidy s.store N) :
    m'.view.ledger.Tidy s.store N ∧ KeepsRoots s.store l m'.view.ledger := by
  cases h with
  | returned => exact hran
  | bare => exact hran
  | @installed code _ _ _ hop _ _ hset =>
    obtain ⟨ht', hroots⟩ := Ledger.setCode_tidiesBy code a.machine.view.ledger (hroot hop) hran.1
    rw [← Exec.watched_ledger hset] at ht' hroots
    exact ⟨ht', fun b hb => hroots b (hran.2 b hb)⟩
  | undone _ _ hrevert =>
    rw [Exec.watched_ledger hrevert]
    exact hback ht

/-- An operation **tidies the ledger** one level up. -/
theorem tidies_of_hostTidies (hs : s.env.transfers = .balance)
    (hskips : s.rules.skipsEmptyCalls = true)
    (hN : ∀ a, N a → Precompile.isAt a s.rules.fork = false)
    (hhost : Script.HostTidies s.store N (Script.host linked s levels))
    (h : Script.host linked s (levels + 1) op m = (.ok o, m'))
    (hbacked : op.Backed s.store N m.view.ledger) :
    Tidies s.store N m.view.ledger m'.view.ledger := by
  intro ht
  have hp := Setting.transfers_honest hs
  -- Without a frame the operation has only looked; with one its code has run.
  obtain ⟨m₂, rfl, ⟨result, hopen, -, -⟩ | ⟨frame, snapshot, m₁, run, a, hopen, hrun, htrail,
    hends⟩⟩ := host_ok h
  · exact (opening_finished_looks hp hopen).1.ledger.tidies ht
  · obtain ⟨ht₁, hroots₁, hgrounds, base, rfl, hbase, hleads⟩ :=
      opening_tidies (m := op.entered m) hs hskips hN hopen hbacked ht
    -- Code runs only on an account with a root, or there is none to run.
    have hran : Tidies s.store N m₁.view.ledger a.machine.view.ledger := by
      rcases hgrounds.rooted hopen hrun with hnil | hroot
      · rw [hnil] at htrail
        rw [htrail.eq_of_nil]
        exact Std.Refl.refl _
      · exact htrail.tidies hhost (Script.host_error linked s levels) hends.not_internal hroot
    obtain ⟨ht₂, hroots₂⟩ := hran ht₁
    have hroots : KeepsRoots s.store m.view.ledger a.machine.view.ledger :=
      fun b hb => hroots₂ b (hroots₁ b hb)
    -- What was undone is back at the base, which was tidy.
    have hmoves := (htrail.moves (Script.host_meets hp.leads linked levels)).1
    refine hends.tidies ⟨ht₂, hroots⟩
      (hbase.back (IsTrans.trans _ _ _ hleads hmoves.ledger)) (fun hop hN => ?_) ht
    exact hroots₂ _ ((hgrounds hN).resolve_right fun h => h.1 hop)

end Operation

/-- **Every host tidies the ledger**, however many levels it has left. -/
theorem Script.host_tidies (hs : s.env.transfers = .balance)
    (hskips : s.rules.skipsEmptyCalls = true)
    (hN : ∀ a, N a → Precompile.isAt a s.rules.fork = false) (linked : Bool) (levels : Nat) :
    HostTidies s.store N (host linked s levels) := by
  induction levels with
  | zero =>
    intro op m o m' h
    cases h
  | succ levels ih =>
    intro op m o m' h hbacked
    exact Operation.tidies_of_hostTidies hs hskips hN ih h hbacked

/-- **No new empty accounts.** Under the rules of Spurious Dragon, and with the policy of balances,
an account that did not exist before an outermost call or creation and exists after it is not empty,
unless it is that of a native contract. -/
theorem Operation.newcomers_not_empty (hs : s.env.transfers = .balance)
    (hskips : s.rules.skipsEmptyCalls = true) (linked : Bool)
    (hop : op.callType = .call ∨ op.callType = .create) {o : Outcome}
    (hreachable : m.view.ledger.Reachable s.store)
    (h : (Script.dispatcher linked s).perform op m = (.ok o, m')) {a : Address}
    (hbefore : (Ledger.accountExists s.store a m.view.ledger).1 = .ok false)
    (hafter : (Ledger.accountExists s.store a m'.view.ledger).1 = .ok true)
    (hnative : Precompile.isAt a s.rules.fork = false) :
    ∃ info, (Ledger.account s.store a m'.view.ledger).1 = .ok info ∧
      (info.balance ≠ 0 ∨ info.nonce ≠ 0 ∨ info.codeHash ≠ emptyCodeHash) := by
  have hsound := hreachable.sound
  -- The accounts that are watched are those that are not there yet.
  let New (b : Address) : Prop := (Ledger.accountExists s.store b m.view.ledger).1 = .ok false ∧
    Precompile.isAt b s.rules.fork = false
  have absent : ∀ {b r}, New b → m.view.ledger.report s.store b = .ok r → r.present = false := by
    intro b r hb hr
    obtain ⟨q, hq, hp⟩ := hsound.accountExists_iff.mp hb.1
    obtain rfl : r = q := Except.ok.inj (hr.symm.trans hq)
    exact hp
  have ht : m.view.ledger.Tidy s.store New :=
    ⟨hsound, fun hb hr hp => by rw [absent hb hr] at hp; cases hp⟩
  -- A sender that is not there is without money, so it can send nothing.
  have hbacked : op.Backed s.store New m.view.ledger := by
    refine fun hsender => .inr ⟨hop, fun r hr => ?_⟩
    rw [hsound.info_of_absent hr (absent hsender hr)]
  -- Tidy before, the ledger is tidy after: what is there by then lasts.
  obtain ⟨ht', -⟩ := Script.host_tidies hs hskips (fun _ hb => hb.2) linked _ op m o m' h hbacked ht
  obtain ⟨r, hr, hp⟩ := ht'.sound.accountExists_iff.mp hafter
  obtain ⟨_, haccount, -⟩ := Ledger.account_spec ht'.sound a
  refine ⟨r.info, ?_, (ht'.lasts ⟨hbefore, hnative⟩ hr).not_empty hp⟩
  rw [haccount, hr]
  rfl

/-- A world in which two accounts exist. The second one pays a part of what it gets to a third one,
and calls a fourth one and a native contract without value. -/
def Setting.settling : Setting where
  store := {
    account address := .ok <|
      if address = 10 then some { balance := 5 }
      else if address = 11 then some { codeHash := 1 } else none
    slot _ _ := .ok 0
    code _ := .ok (Script.encode [.call 12 0 2, .call 13 0 0, .call 3 0 0]) }
  chain := .allForksActive 1

/-- Of the accounts that have been called, the third one has come into existence with a balance, the
fourth one has not, and the native contract has with nothing. -/
theorem Operation.newcomers_not_empty_sample :
    let store := Setting.settling.store
    let done := (Script.dispatcher true .settling).perform (.call 10 11 [] 100 5) {}
    let after := done.2.view.ledger
    (Ledger.accountExists store 13 after).1 = .ok false ∧
      (Ledger.account store 3 after).1 = .ok {} ∧
      (Ledger.accountExists store 12 {}).1 = .ok false ∧
      (Ledger.accountExists store 12 after).1 = .ok true ∧
      ∃ info, (Ledger.account store 12 after).1 = .ok info ∧
        (info.balance ≠ 0 ∨ info.nonce ≠ 0 ∨ info.codeHash ≠ emptyCodeHash) := by
  intro store done after
  have hbefore : (Ledger.accountExists store 12 {}).1 = .ok false := by decide +kernel
  have hafter : (Ledger.accountExists store 12 after).1 = .ok true := by decide +kernel
  obtain ⟨o, ho⟩ : ∃ o, done.1 = .ok o := Attempt.eq_ok_of_isSome (by decide +kernel)
  exact ⟨by decide +kernel, by decide +kernel, hbefore, hafter,
    @newcomers_not_empty .settling (.call 10 11 [] 100 5) {} done.2 rfl (by decide) true (.inl rfl)
      o .new (Attempt.apply_eq ho) 12 hbefore hafter (by decide)⟩

end MessageCall
