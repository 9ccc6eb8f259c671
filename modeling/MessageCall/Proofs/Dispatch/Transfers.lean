import MessageCall.Proofs.Dispatch.Steps

/-!
# Moving balances

The policy of balances takes an amount off the sender and adds it to the recipient. It has three
ways to go (`Transfers`): the amount is paid; or the sender does not have it, and nothing changes;
or there is no room for it at the recipient, and then it is gone from the sender. The last one needs
more money than there is in the world. If all balances are known and sum up to a word, every
transfer that the sender can afford is carried out, and no transfer changes the supply, whether it
succeeds or fails (`TransferPolicy.balance_conserves`).
-/

namespace MessageCall

/-! ### What may come of a transfer -/

section

variable {before after : Balances} {sender recipient : Address} {amount b b' c c' : Word}

/-- What is taken off one account and added to another has been paid, also where they are one and
the same. -/
theorem Settles.of_transfer (hsender : before sender = .ok b) (hdebit : b.sub? amount = some b')
    (hrecipient : Function.update before sender (.ok b') recipient = .ok c)
    (hcredit : c.add? amount = some c') :
    Settles [⟨sender, recipient, amount⟩] before
      (Function.update (Function.update before sender (.ok b')) recipient (.ok c')) := by
  have hb := Word.sub?_eq_some hdebit
  have hc := Word.add?_eq_some hcredit
  intro address
  simp only [Payment.total_cons, Payment.total_nil, Nat.add_zero]
  -- An account may be the recipient, the sender, both or neither.
  by_cases hto : recipient = address
  · subst hto
    rw [Function.update_self, if_pos rfl]
    by_cases hfrom : sender = recipient
    · subst hfrom
      rw [Function.update_self] at hrecipient
      cases hrecipient
      rw [if_pos rfl, hsender]
      exact .known (by omega)
    · rw [Function.update_of_ne (Ne.symm hfrom)] at hrecipient
      rw [if_neg hfrom, hrecipient]
      exact .known hc
  · -- The recipient is someone else, so this account can only have paid.
    rw [Function.update_of_ne (Ne.symm hto), if_neg hto]
    by_cases hfrom : sender = address
    · subst hfrom
      rw [Function.update_self, if_pos rfl, hsender]
      exact .known hb
    · rw [Function.update_of_ne (Ne.symm hfrom), if_neg hfrom]
      exact Settles.refl before address

/-- The **ways for a transfer to go**, in terms of the balances before and after. -/
inductive Transfers (before : Balances) (sender recipient : Address) (amount : Word) :
    Except InternalError Unit → Balances → Prop
  | paid {after : Balances} (h : Settles [⟨sender, recipient, amount⟩] before after) :
    Transfers before sender recipient amount (.ok ()) after
  /-- The sender does not have the amount. -/
  | short {e : InternalError} (h : ∀ b, before sender = .ok b → b.sub? amount = none) :
    Transfers before sender recipient amount (.error e) before
  /-- The amount was taken off the sender, and then there was no room for it. -/
  | full {e : InternalError} {b b' : Word} (hsender : before sender = .ok b)
    (hdebit : b.sub? amount = some b')
    (h : ∀ c, Function.update before sender (.ok b') recipient = .ok c → c.add? amount = none) :
    Transfers before sender recipient amount (.error e) (Function.update before sender (.ok b'))

/-- The money in the world has room with every recipient. -/
theorem Balances.add?_ne_none_of_supply (hsupply : before.supply < span 32)
    (hsender : before sender = .ok b) (hdebit : b.sub? amount = some b')
    (hrecipient : Function.update before sender (.ok b') recipient = .ok c) :
    c.add? amount ≠ none := by
  -- What is in the world without the amount is at least what the recipient has.
  have hbetween := Balances.supply_update hsender b'
  have hworth := Balances.worth_le_supply (Function.update before sender (.ok b')) recipient
  rw [Balances.worth_of_ok hrecipient] at hworth
  have hb := Word.sub?_eq_some hdebit
  exact Word.add?_ne_none (by omega)

/-- All balances can be read. -/
def Balances.Known (balances : Balances) : Prop := ∀ address, ∃ b, balances address = .ok b

theorem Balances.Known.update (h : before.Known) (address : Address) (b : Word) :
    Balances.Known (Function.update before address (.ok b)) := by
  intro a
  by_cases ha : a = address
  · subst ha
    exact ⟨b, Function.update_self _ _ _⟩
  · rw [Function.update_of_ne ha]
    exact h a

namespace Transfers

variable {r : Except InternalError Unit}

/-- Where all balances are known and fit into a word together, a transfer is carried out, or else
the sender does not have the amount. -/
theorem cases_of_known (h : Transfers before sender recipient amount r after)
    (hknown : before.Known) (hsupply : before.supply < span 32) :
    (r = .ok () ∧ Settles [⟨sender, recipient, amount⟩] before after) ∨
      after = before ∧ ∀ b, before sender = .ok b → b.sub? amount = none := by
  cases h with
  | paid h => exact .inl ⟨rfl, h⟩
  | short h => exact .inr ⟨rfl, h⟩
  | full hsender hdebit h =>
    obtain ⟨c, hc⟩ := hknown.update sender _ recipient
    exact absurd (h c hc) (Balances.add?_ne_none_of_supply hsupply hsender hdebit hc)

theorem supply_eq (h : Transfers before sender recipient amount r after) (hknown : before.Known)
    (hsupply : before.supply < span 32) : after.supply = before.supply := by
  rcases h.cases_of_known hknown hsupply with ⟨-, hpaid⟩ | ⟨rfl, -⟩
  · exact hpaid.supply_eq
  · rfl

end Transfers

end

/-! ### The policy of balances -/

variable {store : Store}

/-- Over a store that answers, all balances are known. -/
theorem Ledger.Sound.balances_known {l : Ledger} (h : l.Sound store) (hstore : store.Answers) :
    (l.balances store).Known := by
  intro address
  obtain ⟨r, hr⟩ := Ledger.exists_report hstore l address
  refine ⟨r.info.balance, ?_⟩
  simp only [h.balances_eq, hr]
  rfl

namespace TransferPolicy

/-- **Moving an amount** does to the balances one of three things. -/
theorem balance_transfers {v : View} (h : v.ledger.Sound store) (sender recipient : Address)
    (amount : Word) :
    ∃ r v', balance.transfer store sender recipient amount v = (r, v') ∧
      v'.ledger.Sound store ∧
      Transfers (v.ledger.balances store) sender recipient amount r (v'.ledger.balances store) := by
  -- Nothing is written for an amount of zero.
  by_cases hamount : amount = 0
  · have hnothing : balance.transfer store sender recipient amount v = (.ok (), v) := by
      simp only [balance, if_pos hamount, Attempt.pure_apply]
    exact ⟨_, _, hnothing, h, .paid ((Settles.refl _).cons_zero hamount)⟩
  · have hmoves : balance.transfer store sender recipient amount =
        (View.subBalance store sender amount >>= fun _ =>
          View.addBalance store recipient amount) := by
      simp only [balance, if_neg hamount]
    rw [hmoves]
    obtain ⟨l₁, hsound₁, ⟨b, b', hsender, hdebit, hsub, hbetween⟩ | ⟨e, hsub, hsame, hshort⟩⟩ :=
      (Ledger.subBalance_spec h sender amount).moves_balance h
    · have hsub' : View.subBalance store sender amount v = _ := View.watched_apply hsub _
      rw [Attempt.bind_of_ok hsub']
      -- The recipient's balance is looked up after the debit.
      obtain ⟨l₂, hsound₂, hcases⟩ :=
        (Ledger.addBalance_spec hsound₁ recipient amount).moves_balance hsound₁
      rw [hbetween] at hcases
      rcases hcases with ⟨c, c', hrecipient, hcredit, hadd, hafter⟩ | ⟨e, hadd, hsame, hfull⟩
      · refine ⟨_, _, View.watched_apply hadd _, hsound₂, .paid ?_⟩
        rw [hafter]
        exact .of_transfer hsender hdebit hrecipient hcredit
      · refine ⟨_, _, View.watched_apply hadd _, hsound₂, ?_⟩
        rw [hsame]
        exact .full hsender hdebit hfull
    · -- The debit failed, so the recipient is not looked at.
      have hsub' : View.subBalance store sender amount v = _ := View.watched_apply hsub _
      rw [Attempt.bind_of_error hsub']
      refine ⟨_, _, rfl, hsound₁, ?_⟩
      rw [hsame]
      exact .short hshort

/-- An account that may send an amount has it. -/
theorem balance_allows {v : View} {sender : Address} {amount : Word}
    (h : (balance.allows store sender amount v).1 = .ok true) :
    ∃ b, v.ledger.balances store sender = .ok b ∧ amount ≤ b := by
  have hallows : balance.allows store sender amount =
      View.balance store sender >>= fun b => pure (decide (amount ≤ b)) := rfl
  rw [hallows, Attempt.bind_pure_apply] at h
  change ((Ledger.balance store sender v.ledger).1.map fun b => decide (amount ≤ b)) = _ at h
  show ∃ b, (Ledger.balance store sender v.ledger).1 = .ok b ∧ _
  cases hb : (Ledger.balance store sender v.ledger).1 with
  | error e =>
    rw [hb] at h
    cases h
  | ok b =>
    rw [hb] at h
    exact ⟨b, rfl, of_decide_eq_true (Except.ok.inj h)⟩

/-- **No transfer changes the supply**, whether it succeeds or fails, where all balances can be read
and fit into a word together. -/
theorem balance_conserves (hstore : store.Answers) :
    balance.Within store (Ledger.Conserves store) (Ledger.Conserves store) where
  allows sender value := (balance_honest.allows sender value).mono Ledger.Admits.looks id
  transfer sender recipient value := by
    have hmeets := (balance_honest : balance.Honest store).transfer sender recipient value
    refine ⟨fun v => ⟨hmeets.keeps v, fun hl hsupply => ?_⟩, hmeets.error⟩
    obtain ⟨r, v', hm, -, htransfers⟩ := balance_transfers hl sender recipient value
    rw [hm]
    exact htransfers.supply_eq (hl.balances_known hstore) hsupply

end TransferPolicy

/-! ### Settings with the policy of balances -/

theorem Setting.transfers_honest {s : Setting} (hs : s.env.transfers = .balance) :
    s.env.transfers.Honest s.store := hs ▸ TransferPolicy.balance_honest

theorem Setting.transfers_conserve {s : Setting} (hstore : s.store.Answers)
    (hs : s.env.transfers = .balance) :
    s.env.transfers.Within s.store (Ledger.Conserves s.store) (Ledger.Conserves s.store) :=
  hs ▸ TransferPolicy.balance_conserves hstore

end MessageCall
