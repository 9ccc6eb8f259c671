import MessageCall.Proofs.Dispatch.CallTree
import MessageCall.Proofs.State.Snapshots

/-!
# Snapshots from before an operation

Whoever issues an outermost operation may have taken snapshots before, and wants to go back to one
of them afterwards, whatever has become of the operation. An operation that ends with an internal
error has stopped wherever it was, at any level of nesting and perhaps in the middle of a transfer,
and nothing has been undone. Still the journal holds what it held before, with entries on top, so
the snapshot is as good as it was.

What a snapshot has to go through to be still valid is `Ledger.Holds`. Here it is only needed that
the ledger has evolved from the one that the snapshot is of (`Ledger.Holds.evolves`): an operation
makes it evolve further, and evolving is all that going back asks for.
-/

namespace MessageCall

variable {l₀ : Ledger}

/-- **An outer snapshot survives an operation**, whatever its code does, whichever questions the
store does not answer and however the operation ends. The journal of before is still there below
what the operation has entered, and a snapshot that was valid before brings everything back that
could be read when it was taken. -/
theorem Operation.outer_snapshot_survives {s : Setting}
    (hp : s.env.transfers.Within s.store (Ledger.Leads s.store) (Ledger.Leads s.store))
    (linked : Bool) (op : Operation) {m m' : Machine} {r : Except CallError Outcome}
    (h₀ : l₀.Reachable s.store) (h : l₀.Holds s.store m.view.ledger)
    (hdone : (Script.dispatcher linked s).perform op m = (r, m')) :
    (∃ es, m'.view.ledger.journal.entries = es ++ m.view.ledger.journal.entries) ∧
    (Ledger.revertTo l₀.snapshot m'.view.ledger).1 = .ok () ∧
    Ledger.ReadsSame s.store l₀ (Ledger.revertTo l₀.snapshot m'.view.ledger).2 := by
  have hbefore := h.evolves h₀.sound
  have hmoves : m.Moves (Ledger.Leads s.store) m' := (Script.host_meets hp linked _ op).of_eq hdone
  have hafter := hmoves.ledger.evolves hbefore.sound
  obtain ⟨es, -, hes, -⟩ := hafter.undone
  exact ⟨⟨es, hes⟩, (hbefore.trans hafter).restores h₀.sound⟩

/-- A world in which value can be taken off one account but not added to the other, since nothing
more fits there. -/
def Setting.overfull : Setting where
  store := .ofAccounts (((∅ : WordMap 160 Account).insert 1 (.new 5 [] 0 ∅)).insert 2
    (.new (BitVec.allOnes 256) [] 0 ∅))
  chain := default

/-- A call that is aborted between the debit and the credit, after the nonce of its caller had been
set and a snapshot had been taken. -/
theorem Operation.outer_snapshot_survives_sample :
    let l₀ := (LedgerOp.perform Setting.overfull.store (.setNonce 1 7) {}).2
    let done := (Script.dispatcher true .overfull).perform (.call 1 2 [] 100 3)
      { view := { ledger := (LedgerOp.perform Setting.overfull.store (.setNonce 1 8) l₀).2 } }
    done.1 = .error (.internal .overflow) ∧
      (Ledger.balance Setting.overfull.store 1 done.2.view.ledger).1 = .ok 2 ∧
      (Ledger.revertTo l₀.snapshot done.2.view.ledger).1 = .ok () ∧
      Ledger.ReadsSame Setting.overfull.store l₀
        (Ledger.revertTo l₀.snapshot done.2.view.ledger).2 := by
  intro l₀ done
  have hdone : (Script.dispatcher true .overfull).perform (.call 1 2 [] 100 3)
      { view := { ledger := (LedgerOp.perform Setting.overfull.store (.setNonce 1 8) l₀).2 } } =
        (done.1, done.2) := rfl
  obtain ⟨-, hback, hreads⟩ := outer_snapshot_survives TransferPolicy.balance_honest.leads true
    (.call 1 2 [] 100 3) (.op .new (.setNonce 1 7)) (.op .taken (.setNonce 1 8)) hdone
  exact ⟨by decide +kernel, by decide +kernel, hback, hreads⟩

end MessageCall
