import MessageCall.Proofs.State.Reachable
import MessageCall.Proofs.State.Backing
import Mathlib.Algebra.BigOperators.Group.Finset.Piecewise
import Mathlib.Algebra.GroupWithZero.Nat
import Mathlib.Algebra.Order.BigOperators.Group.Finset
import Mathlib.Data.FinEnum

/-!
# Balances and payments

Balances are read one at a time, but what is said about money is said about all of them together.
`Ledger.balances` is what reading the balance of each address answers, and `Ledger.supply` is the
sum. Of the operations of a ledger two move balances and the others keep all of them
(`LedgerOp.KeepsBalances`, `Ledger.Sound.balances_perform`).

A list of payments settles the difference between two states of the balances (`Settles`) if at every
address what was there and what was received is what is there now and what was paid. Payments
compose by appending the lists, and the supply is the same before and after, since what one account
pays another one receives (`Settles.supply_eq`).
-/

namespace MessageCall

/-! ### Words that fit -/

namespace Word

variable {a b c : Word}

theorem add?_eq_some (h : a.add? b = some c) : c.toNat = a.toNat + b.toNat := by
  unfold add? at h
  split at h
  · cases h
  · next hfits =>
    cases h
    simp only [BitVec.uaddOverflow, ge_iff_le, decide_eq_true_eq, Nat.not_le] at hfits
    rw [BitVec.toNat_add, Nat.mod_eq_of_lt hfits]

theorem sub?_eq_some (h : a.sub? b = some c) : c.toNat + b.toNat = a.toNat := by
  unfold sub? at h
  split at h
  · cases h
  · next hfits =>
    cases h
    simp only [BitVec.usubOverflow, decide_eq_true_eq, Nat.not_lt] at hfits
    rw [BitVec.toNat_sub_of_le hfits, Nat.sub_add_cancel hfits]

theorem add?_ne_none (h : a.toNat + b.toNat < span 32) : a.add? b ≠ none := by
  unfold add?
  rw [if_neg]
  · exact nofun
  · rw [BitVec.uaddOverflow, decide_eq_true_eq, Nat.not_le]
    exact h

theorem sub?_ne_none (h : b ≤ a) : a.sub? b ≠ none := by
  unfold sub?
  rw [if_neg]
  · exact nofun
  · rw [BitVec.usubOverflow, decide_eq_true_eq, Nat.not_lt]
    exact h

/-- What can be taken off can be added again. -/
theorem exists_sub?_add? (h : b ≤ a) :
    ∃ c, a.sub? b = some c ∧ c.add? b = some a := by
  obtain ⟨c, hc⟩ := Option.ne_none_iff_exists'.mp (sub?_ne_none h)
  have hsum := sub?_eq_some hc
  have hfits : c.toNat + b.toNat < span 32 := hsum ▸ a.isLt
  obtain ⟨d, hd⟩ := Option.ne_none_iff_exists'.mp (add?_ne_none hfits)
  have hda : d = a := BitVec.eq_of_toNat_eq ((add?_eq_some hd).trans hsum)
  exact ⟨c, hc, hda ▸ hd⟩

end Word

/-! ### All balances together -/

variable {store : Store} {l l' : Ledger}

/-- What reading the balance of each address answers. -/
abbrev Balances := Address → Except InternalError Word

/-- What reading the balance of each address of a ledger answers. -/
def Ledger.balances (store : Store) (l : Ledger) : Balances := fun address =>
  (Ledger.balance store address l).1

namespace Balances

/-- The amount under an address, which is nothing where there is no answer. -/
def worth (b : Balances) (address : Address) : Nat :=
  match b address with
  | .ok balance => balance.toNat
  | .error _ => 0

/-- The sum of all balances. -/
def supply (b : Balances) : Nat := ∑ address, b.worth address

theorem worth_of_ok {b : Balances} {address : Address} {balance : Word}
    (h : b address = .ok balance) : b.worth address = balance.toNat := by
  simp only [worth, h]

theorem worth_le_supply (b : Balances) (address : Address) : b.worth address ≤ b.supply :=
  Finset.single_le_sum (fun _ _ => Nat.zero_le _) (Finset.mem_univ address)

theorem worth_update (b : Balances) (address : Address) (balance : Word) :
    worth (Function.update b address (.ok balance)) =
      Function.update b.worth address balance.toNat := by
  funext a
  by_cases ha : a = address
  · subst ha
    rw [Function.update_self]
    exact worth_of_ok (Function.update_self a _ b)
  · rw [Function.update_of_ne ha]
    simp only [worth, Function.update_of_ne ha]

/-- Another balance under one address changes the supply by the difference. -/
theorem supply_update {b : Balances} {address : Address} {balance : Word}
    (h : b address = .ok balance) (balance' : Word) :
    supply (Function.update b address (.ok balance')) + balance.toNat =
      b.supply + balance'.toNat := by
  have hafter := Finset.sum_update_of_mem (Finset.mem_univ address) b.worth balance'.toNat
  have hbefore := Finset.add_sum_erase Finset.univ b.worth (Finset.mem_univ address)
  rw [worth_of_ok h] at hbefore
  rw [Finset.sdiff_singleton_eq_erase] at hafter
  unfold supply
  rw [worth_update, hafter, ← hbefore]
  omega

end Balances

/-- The sum of all balances of a ledger. -/
def Ledger.supply (store : Store) (l : Ledger) : Nat := (l.balances store).supply

/-! ### Payments -/

/-- An amount that one account has paid to another one, or to itself. -/
structure Payment where
  sender : Address
  recipient : Address
  amount : Word
  deriving DecidableEq

namespace Payment

/-- The amounts of the payments with an address on the given side. -/
def total (side : Payment → Address) (ps : List Payment) (address : Address) : Nat :=
  (ps.map fun p => if side p = address then p.amount.toNat else 0).sum

variable {side : Payment → Address} {address : Address}

@[simp] theorem total_nil (side : Payment → Address) (address : Address) :
    total side [] address = 0 := rfl

theorem total_cons (p : Payment) (ps : List Payment) : total side (p :: ps) address =
    (if side p = address then p.amount.toNat else 0) + total side ps address := rfl

theorem total_append (ps qs : List Payment) :
    total side (ps ++ qs) address = total side ps address + total side qs address := by
  unfold total
  rw [List.map_append, List.sum_append]

/-- Every payment has one address on either side. -/
theorem sum_total (side : Payment → Address) (ps : List Payment) :
    ∑ address, total side ps address = (ps.map fun p => p.amount.toNat).sum := by
  induction ps with
  | nil => exact Finset.sum_const_zero
  | cons p ps ih =>
    simp only [total_cons, Finset.sum_add_distrib, ih, List.map_cons, List.sum_cons]
    rw [Finset.sum_ite_eq, if_pos (Finset.mem_univ _)]

end Payment

/-- An account that has paid and received amounts, in terms of its balance before and after. An
account whose balance cannot be read has done neither. -/
inductive Settled (paid received : Nat) :
    Except InternalError Word → Except InternalError Word → Prop
  | known {before after : Word} (h : after.toNat + paid = before.toNat + received) :
    Settled paid received (.ok before) (.ok after)
  | unknown {e : InternalError} (hpaid : paid = 0) (hreceived : received = 0) :
    Settled paid received (.error e) (.error e)

/-- Payments **settle** the difference between balances, at every address. -/
def Settles (ps : List Payment) (before after : Balances) : Prop :=
  ∀ address, Settled (Payment.total Payment.sender ps address)
    (Payment.total Payment.recipient ps address) (before address) (after address)

namespace Settles

variable {ps qs : List Payment} {before between after : Balances}

theorem refl (before : Balances) : Settles [] before before := by
  intro address
  cases before address with
  | ok balance => exact .known rfl
  | error e => exact .unknown rfl rfl

theorem of_eq (h : after = before) : Settles [] before after := h ▸ refl before

theorem trans (h : Settles ps before between) (h' : Settles qs between after) :
    Settles (ps ++ qs) before after := by
  intro address
  have hfirst := h address
  have hsecond := h' address
  rw [Payment.total_append, Payment.total_append]
  -- The balance in between is known on both sides or on neither.
  cases hb : between address with
  | ok balance =>
    rw [hb] at hfirst hsecond
    generalize before address = b₁ at hfirst ⊢
    generalize after address = b₂ at hsecond ⊢
    cases hfirst with
    | known hfirst =>
      cases hsecond with
      | known hsecond => exact .known (by omega)
  | error e =>
    rw [hb] at hfirst hsecond
    generalize before address = b₁ at hfirst ⊢
    generalize after address = b₂ at hsecond ⊢
    cases hfirst with
    | unknown hpaid hreceived =>
      cases hsecond with
      | unknown hpaid' hreceived' => exact .unknown (by omega) (by omega)

/-- A payment of nothing is no payment. -/
theorem cons_zero (h : Settles ps before after) {p : Payment} (hp : p.amount = 0) :
    Settles (p :: ps) before after := by
  intro address
  have hnothing : ∀ side : Payment → Address,
      Payment.total side (p :: ps) address = Payment.total side ps address := by
    intro side
    rw [Payment.total_cons, hp]
    split <;> exact Nat.zero_add _
  rw [hnothing, hnothing]
  exact h address

/-- **No payment changes the supply.** -/
theorem supply_eq (h : Settles ps before after) : after.supply = before.supply := by
  have hworth : ∀ address, after.worth address + Payment.total Payment.sender ps address =
      before.worth address + Payment.total Payment.recipient ps address := by
    intro address
    have haddress := h address
    unfold Balances.worth
    generalize before address = b₁ at haddress ⊢
    generalize after address = b₂ at haddress ⊢
    cases haddress with
    | known h => exact h
    | unknown hpaid hreceived => rw [hpaid, hreceived]
  -- Summed up over all addresses, what is paid and what is received are the same.
  have hsum := Finset.sum_congr (rfl : (Finset.univ : Finset Address) = Finset.univ)
    fun address _ => hworth address
  rw [Finset.sum_add_distrib, Finset.sum_add_distrib, Payment.sum_total, Payment.sum_total] at hsum
  exact Nat.add_right_cancel hsum

end Settles

/-! ### The money at the beginning -/

/-- The balance that a store has under an address, which is nothing where there is no account. -/
def Store.worth (store : Store) (address : Address) : Nat :=
  match store.account address with
  | .ok (some stored) => stored.balance.toNat
  | _ => 0

/-- The sum of all balances of a store. -/
def Store.supply (store : Store) : Nat := ∑ address, store.worth address

namespace Ledger

/-- The balances are a part of the reports. -/
theorem Sound.balances_eq (h : l.Sound store) :
    l.balances store = fun address => asked ((l.report store address).map (·.info.balance)) := by
  funext address
  obtain ⟨l', hb, -⟩ := balance_spec h address
  exact congrArg Prod.fst hb

theorem Sound.balances_of_report (h : l.Sound store) (h' : l'.Sound store)
    (hr : l'.report store = l.report store) : l'.balances store = l.balances store := by
  rw [h.balances_eq, h'.balances_eq, hr]

/-- A new ledger has the money of its store. -/
theorem supply_new (store : Store) : supply store {} = store.supply := by
  have hworth : Balances.worth (balances store {}) = store.worth := by
    funext address
    unfold Balances.worth Store.worth
    simp only [(sound_new store).balances_eq, report_new]
    rcases store.account address with _ | _ | stored <;> rfl
  unfold supply Balances.supply
  rw [hworth]
  rfl

end Ledger

/-! ### Operations that keep all balances -/

/-- An operation that moves no balance. -/
def LedgerOp.KeepsBalances : LedgerOp → Prop
  | .addBalance .. | .subBalance .. => False
  | _ => True

/-- A write that leaves the balance as it is. -/
def Change.KeepsBalance (f : Change) : Prop :=
  ∀ r g, f r = .ok g → ∀ r' : Report, r'.info.balance = r.info.balance →
    (g r').info.balance = r.info.balance

namespace LedgerOp

theorem balance_writing {f : Change} (hf : f.KeepsBalance) (address : Address) (ρ : Reports)
    (a : Address) :
    ((writing store address f ρ).2 a).map (·.info.balance) = (ρ a).map (·.info.balance) := by
  unfold writing
  cases hr : ρ address with
  | error e => rfl
  | ok r =>
    cases hg : f r with
    | error e => simp only [Change.apply, hg, Except.map, reportsAfter]
    | ok g =>
      simp only [Change.apply, hg, Except.map, reportsAfter]
      by_cases ha : a = address
      · subst ha
        rw [Function.update_self, hr]
        exact congrArg Except.ok (hf r g hg _ rfl)
      · rw [Function.update_of_ne ha]

theorem balance_onReports {op : LedgerOp} (hop : op.KeepsBalances) (codes : WordMap 256 Bytes)
    (ρ : Reports) (a : Address) :
    ((op.onReports store codes ρ).2 a).map (·.info.balance) = (ρ a).map (·.info.balance) := by
  cases op with
  -- A fresh account takes over the balance of the one that it replaces.
  | createAccount address =>
    refine balance_writing (fun r g hg r' _ => ?_) address ρ a
    cases hg
    rfl
  | setNonce address nonce =>
    refine balance_writing (fun r g hg r' h => ?_) address ρ a
    cases hg
    exact h
  | setCode address bytes =>
    refine balance_writing (fun r g hg r' h => ?_) address ρ a
    cases hg
    exact h
  | setSlot address key value =>
    refine balance_writing (fun r g hg r' h => ?_) address ρ a
    unfold Change.setSlot at hg
    split at hg
    · cases hg
      exact h
    · cases hg
  | addBalance => exact hop.elim
  | subBalance => exact hop.elim
  | _ => rfl

end LedgerOp

namespace Ledger

/-- **All operations but two keep the balances**, whether they succeed or fail. -/
theorem Sound.balances_perform (h : l.Sound store) {op : LedgerOp} (hop : op.KeepsBalances) :
    (op.perform store l).2.balances store = l.balances store := by
  obtain ⟨l', hm, hevolves, hreport, -⟩ := perform_spec h op
  rw [hm, h.balances_eq, hevolves.sound.balances_eq, hreport]
  funext address
  exact congrArg asked (LedgerOp.balance_onReports hop _ _ address)

/-! ### Operations that move a balance -/

/-- What moving a balance does to all of them: it is set to where it is to be moved, or else none of
them changes. -/
theorem WritesAs.moves_balance {address : Address} {f : Word → Option Word}
    {failure : InternalError} {new : Option Bytes} {m : Step Unit} (h : l.Sound store)
    (hm : WritesAs store l address (.moveBalance f failure) new m) :
    ∃ l', l'.Sound store ∧ ((∃ balance balance', l.balances store address = .ok balance ∧
        f balance = some balance' ∧ m l = (.ok (), l') ∧
        l'.balances store = Function.update (l.balances store) address (.ok balance')) ∨
      ∃ e, m l = (.error e, l') ∧ l'.balances store = l.balances store ∧
        ∀ balance, l.balances store address = .ok balance → f balance = none) := by
  obtain ⟨l', hm, hevolves, hreport, -⟩ := hm
  have hanswer : l.balances store address =
      asked ((l.report store address).map (·.info.balance)) := congrFun h.balances_eq address
  refine ⟨l', hevolves.sound, ?_⟩
  -- A move fails on the look, or in the function, and changes a balance in neither case.
  cases hr : l.report store address with
  | error e =>
    rw [hr] at hm hreport hanswer
    refine .inr ⟨_, hm, h.balances_of_report hevolves.sound hreport, fun _ hb => ?_⟩
    rw [hanswer] at hb
    cases hb
  | ok r =>
    rw [hr] at hm hreport hanswer
    cases hf : f r.info.balance with
    | none =>
      have hstopped : Change.apply store address (.moveBalance f failure) (.ok r) =
          .error failure := by
        simp only [Change.apply, Change.moveBalance, hf, Except.map]
      rw [hstopped] at hm hreport
      refine .inr ⟨_, hm, h.balances_of_report hevolves.sound hreport, fun balance hb => ?_⟩
      rw [hanswer] at hb
      cases hb
      exact hf
    -- It goes through: the one balance is the new one.
    | some balance' =>
      have hmoved : Change.apply store address (.moveBalance f failure) (.ok r) =
          .ok ((r.enliven store address).mapInfo ({ · with balance := balance' })) := by
        simp only [Change.apply, Change.moveBalance, hf, Except.map]
      rw [hmoved] at hm hreport
      refine .inl ⟨_, balance', hanswer, hf, hm, ?_⟩
      rw [h.balances_eq, hevolves.sound.balances_eq, hreport]
      funext a
      -- Only the report of the address is another one.
      by_cases ha : a = address
      · subst ha
        simp only [reportsAfter, Function.update_self]
        rfl
      · simp only [reportsAfter, Function.update_of_ne ha]

end Ledger

end MessageCall
