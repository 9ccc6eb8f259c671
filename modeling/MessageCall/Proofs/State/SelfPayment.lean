import MessageCall.Proofs.State.Balances
import MessageCall.Proofs.State.Twins

/-!
# Accounts that pay themselves

An account that pays itself has the same balance afterwards. What is left of the payment is a mark,
and two entries in the journal (`Ledger.payment_to_self`). Undoing the two does not change the
account either, whatever has happened in between, if it has been undone (`Ledger.Idle`). So the
ledger after the payment and the ledger without it are twins, and going back to before the payment
in the one is alike to undoing in the other whatever has come since
(`Ledger.Twins.revertTo_of_idle`).
-/

namespace MessageCall

namespace Ledger

variable {store : Store} {below : List JournalEntry} {l l' l₀ : Ledger} {address : Address}
  {x : CachedAccount}

/-- Undoing the entries changes at most marks, as long as the account has the balance. -/
def Idle (address : Address) (balance : Word) (es : List JournalEntry) : Prop :=
  ∀ {c : Accounts} {x : CachedAccount}, c.get? address = some x → x.info.balance = balance →
    ∃ d, JournalEntry.undoAll es c = .ok d ∧ d.Twin c

theorem idle_nil (address : Address) (balance : Word) : Idle address balance [] :=
  fun {c _} _ _ => ⟨c, rfl, rfl⟩

/-- What was taken off and added again is undone by putting back the balance in between, and then
the one that is there anyway. -/
theorem idle_payment (address : Address) (balance between : Word) :
    Idle address balance [.balance address between, .balance address balance] := by
  intro c x hx hb
  -- The two writes are to one account, so the second one covers the first.
  have hfirst := Accounts.amend_of_cached (.setBalance between) hx
  have hsecond := Accounts.amend_of_cached (.setBalance balance)
    (WordMap.get?_insert_self c address (x.setBalance between))
  refine ⟨(c.insert address (x.setBalance between)).insert address
    ((x.setBalance between).setBalance balance), ?_, ?_⟩
  · rw [JournalEntry.undoAll_cons (e := .balance address between) hfirst,
      JournalEntry.undoAll_cons (e := .balance address balance) hsecond]
    rfl
  · rw [WordMap.insert_insert, ← hb]
    exact Accounts.Twin.insert_left rfl hx rfl

/-- A write of the balance of an account that is there. -/
theorem setBalance_of_cached (hx : l.current.get? address = some x) (hp : x.present = true)
    (previous balance : Word) :
    Ledger.setBalance store address previous balance l = (.ok (),
      (l.putCurrent address (x.markModified.setBalance balance)).record
        (.balance address previous)) := by
  unfold setBalance
  rw [Attempt.bind_of_ok (revise_of_cached hx _), CachedAccount.enlivened_of_present hp, if_pos hp]
  rfl

/-- **An account that pays itself** ends with the balance that it had, and with two more entries in
the journal that come to nothing. -/
theorem payment_to_self (hx : l.current.get? address = some x) (hp : x.present = true)
    {amount : Word} (hamount : amount ≤ x.info.balance) :
    ∃ l' es, (Ledger.subBalance store address amount >>= fun _ =>
        Ledger.addBalance store address amount) l = (.ok (), l') ∧
      Idle address x.info.balance es ∧
      Twins (es ++ l.journal.entries) l.journal.entries l' l := by
  obtain ⟨between, hsub, hadd⟩ := Word.exists_sub?_add? hamount
  -- The debit leaves the account present and marked, with its entry on the journal.
  have hdebit : Ledger.subBalance store address amount l = (.ok (),
      (l.putCurrent address (x.markModified.setBalance between)).record
        (.balance address x.info.balance)) := by
    unfold subBalance
    rw [Attempt.bind_of_ok (balance_of_load (load_of_cached hx)), hsub]
    exact setBalance_of_cached hx hp _ _
  rw [Attempt.bind_of_ok hdebit]
  generalize hl₁ : (l.putCurrent address (x.markModified.setBalance between)).record
    (.balance address x.info.balance) = l₁
  have hx₁ : l₁.current.get? address = some (x.markModified.setBalance between) := by
    rw [← hl₁]
    exact WordMap.get?_insert_self _ _ _
  -- The credit finds what the debit left, and gives the same amount back.
  have hcredit : Ledger.addBalance store address amount l₁ = (.ok (),
      (l₁.putCurrent address
        ((x.markModified.setBalance between).markModified.setBalance x.info.balance)).record
          (.balance address between)) := by
    unfold addBalance
    rw [Attempt.bind_of_ok (balance_of_load (load_of_cached hx₁))]
    rw [show (x.markModified.setBalance between).info.balance = between from rfl, hadd]
    exact setBalance_of_cached hx₁ (x.markModified_present.trans hp) _ _
  refine ⟨_, _, hcredit, idle_payment address x.info.balance between, ?_⟩
  -- What is left in the account is the balance from before, and a mark.
  subst hl₁
  refine ⟨?_, rfl, rfl, .refl _ _⟩
  show Accounts.Twin ((l.current.insert address _).insert address _) l.current
  rw [WordMap.insert_insert]
  refine Accounts.Twin.insert_left rfl hx ?_
  unfold CachedAccount.Twin
  simp only [CachedAccount.markModified_setBalance, CachedAccount.markModified_markModified]
  rw [← x.markModified_info]
  rfl

/-- Undoing the entries above is alike, and with them the idle ones below. -/
theorem undoAll_twin {es es' : List JournalEntry} (hes : List.Forall₂ JournalEntry.Twin es es')
    {c c' d' : Accounts} (h : c.Twin c') (hd' : JournalEntry.undoAll es' c' = .ok d') :
    ∃ d, JournalEntry.undoAll es c = .ok d ∧ d.Twin d' := by
  induction hes generalizing c c' with
  | nil =>
    cases hd'
    exact ⟨c, rfl, h⟩
  | @cons e e' es es' he _ ih =>
    obtain ⟨b', hb', hd'⟩ := JournalEntry.undoAll_cons_ok hd'
    have hundo := he.undo h
    rw [hb'] at hundo
    generalize hb : e.undo c = r at hundo
    cases hundo with
    | ok hbb =>
      obtain ⟨d, hd, hdd⟩ := ih hbb hd'
      exact ⟨d, (JournalEntry.undoAll_cons hb es).trans hd, hdd⟩

/-- **Going back to before idle entries** is alike to going back to where they are missing. -/
theorem Twins.revertTo_of_idle {idle : List JournalEntry} (hidle : Idle address x.info.balance idle)
    (h : Twins (idle ++ l₀.journal.entries) l₀.journal.entries l l')
    (hx : l₀.current.get? address = some x) (hevolves : Evolves store l₀ l') :
    ∃ m m', revertTo l₀.snapshot l = (.ok (), m) ∧ revertTo l₀.snapshot l' = (.ok (), m') ∧
      Twins l₀.journal.entries l₀.journal.entries m m' := by
  obtain ⟨es, es', hes, hl, hl'⟩ := h.journal
  obtain ⟨fs, c', hfs, hc', hagrees⟩ := hevolves.undone
  -- Both name what has been recorded since the snapshot on the side without the payment.
  obtain rfl : fs = es' := List.append_cancel_right (hfs.symm.trans hl')
  obtain ⟨c, hc, hcc⟩ := undoAll_twin hes h.current hc'
  -- What the other entries lead back to is the account with the balance that it had.
  obtain ⟨y, hy, -⟩ := hagrees.cached hx
  have hyx : y.info = x.info := congrArg Report.info (hagrees.report_eq hx hy)
  obtain ⟨z, hz, hzy⟩ : ∃ z, c.get? address = some z ∧ z.Twin y := by
    have hget := hcc.get? address
    rw [hy] at hget
    generalize c.get? address = r at hget ⊢
    cases hget with
    | some hzy => exact ⟨_, rfl, hzy⟩
  obtain ⟨d, hd, hdc⟩ := hidle hz (by rw [hzy.info, hyx])
  have hundone : JournalEntry.undoAll (es ++ idle) l.current = .ok d := by
    rw [JournalEntry.undoAll_append hc, hd]
  have hl : l.journal.entries = (es ++ idle) ++ l₀.journal.entries := by
    rw [hl, List.append_assoc]
  exact ⟨_, _, revertTo_of_undoAll hl hundone, revertTo_of_undoAll hfs hc',
    hdc.trans hcc, h.initial, h.codes, .refl _ _⟩

end Ledger

end MessageCall
