import MessageCall.State.Ledger
import Mathlib.Logic.Function.Basic

/-!
# What a ledger reports of an account

Two ledgers may cache different parts of the same world: one has read a slot that the other has
not, one holds an account that the other would have to load first. A `Report` is what a client
gets to see of an account, whatever is cached: whether it is there, its info, and for every slot
the content or the error that reading it would end with. One bit that no client sees belongs to it
as well, whether the storage kept for the account before still counts, because the net effect of an
execution depends on it.

The report of a cached account is `CachedAccount.report`, and `Accounts.report` is the report of an
address, cached or not. Each way to change a cached account changes its report in a way that
depends on nothing but the report.
-/

namespace MessageCall

/-- What a client gets to see of an account. -/
@[ext]
structure Report where
  present : Bool
  info : AccountInfo
  /-- Whether the storage kept for the account before no longer counts. -/
  fresh : Bool
  slot : Hash → Except StoreError Word

namespace Report

/-- The report with another info. -/
def mapInfo (f : AccountInfo → AccountInfo) (r : Report) : Report := { r with info := f r.info }

/-- The report with another content of a slot. -/
def setSlot (key : Hash) (value : Word) (r : Report) : Report :=
  { r with slot := Function.update r.slot key (.ok value) }

/-- The report once the account has been brought into existence by a write. An absent account has
no storage of its own, so from then on the store's answers count. -/
def enliven (store : Store) (address : Address) (r : Report) : Report :=
  { r with present := true, slot := if r.present then r.slot else store.slot address }

/-- The report of an account created anew over a balance. -/
def created (balance : Word) : Report where
  present := true
  info := { balance }
  fresh := true
  slot _ := .ok 0

end Report

/-! ### Cached accounts -/

namespace CachedAccount

variable (store : Store) (address : Address)

/-- The content of a slot, from the cache or else from where it would be read. -/
def slotOver (x : CachedAccount) (key : Hash) : Except StoreError Word :=
  match x.storage.get? key with
  | some value => .ok value
  | none => if !x.present || x.storageIsFresh then .ok 0 else store.slot address key

/-- The report of a cached account. -/
def report (x : CachedAccount) : Report where
  present := x.present
  info := x.info
  fresh := x.storageIsFresh
  slot := x.slotOver store address

@[simp] theorem report_present (x : CachedAccount) :
    (x.report store address).present = x.present := rfl

@[simp] theorem report_info (x : CachedAccount) : (x.report store address).info = x.info := rfl

@[simp] theorem report_fresh (x : CachedAccount) :
    (x.report store address).fresh = x.storageIsFresh := rfl

@[simp] theorem report_slot (x : CachedAccount) :
    (x.report store address).slot = x.slotOver store address := rfl

/-! Marking an account as modified shows in none of the parts of its report. -/

@[simp] theorem markModified_info (x : CachedAccount) : x.markModified.info = x.info := by
  unfold markModified; split <;> rfl

@[simp] theorem markModified_storage (x : CachedAccount) : x.markModified.storage = x.storage := by
  unfold markModified; split <;> rfl

@[simp] theorem markModified_present (x : CachedAccount) : x.markModified.present = x.present := by
  unfold markModified; split <;> rfl

@[simp] theorem markModified_fresh (x : CachedAccount) :
    x.markModified.storageIsFresh = x.storageIsFresh := by
  unfold markModified isUnmodified storageIsFresh
  cases hs : x.status <;> simp [hs]

@[simp] theorem markModified_isUnmodified (x : CachedAccount) :
    x.markModified.isUnmodified = false := by
  unfold markModified isUnmodified
  cases hs : x.status <;> simp [hs]

@[simp] theorem report_markModified (x : CachedAccount) :
    x.markModified.report store address = x.report store address := by
  ext key <;> simp [slotOver]

@[simp] theorem report_setBalance (x : CachedAccount) (balance : Word) :
    (x.setBalance balance).report store address =
      (x.report store address).mapInfo ({ · with balance }) := rfl

@[simp] theorem report_setNonce (x : CachedAccount) (nonce : UInt64) :
    (x.setNonce nonce).report store address =
      (x.report store address).mapInfo ({ · with nonce }) := rfl

@[simp] theorem report_setCodeHash (x : CachedAccount) (codeHash : Hash) :
    (x.setCodeHash codeHash).report store address =
      (x.report store address).mapInfo ({ · with codeHash }) := rfl

theorem slotOver_setSlot (x : CachedAccount) (key key' : Hash) (value : Word) :
    (x.setSlot key value).slotOver store address key' =
      if key' = key then .ok value else x.slotOver store address key' := by
  unfold slotOver setSlot storageIsFresh
  rw [WordMap.get?_insert]
  by_cases hk : key' = key
  · rw [if_pos hk, if_pos hk]
  · rw [if_neg hk, if_neg hk]

@[simp] theorem report_setSlot (x : CachedAccount) (key : Hash) (value : Word) :
    (x.setSlot key value).report store address = (x.report store address).setSlot key value := by
  ext : 1
  · rfl
  · rfl
  · rfl
  · funext key'
    simp only [report_slot, slotOver_setSlot, Report.setSlot, Function.update_apply]

end CachedAccount

namespace Report

/-- Noting what a slot holds anyway changes no report. -/
theorem setSlot_self {r : Report} {key : Hash} {value : Word} (h : r.slot key = .ok value) :
    r.setSlot key value = r := by
  unfold setSlot
  rw [← h, Function.update_eq_self]

/-- Putting back the content that a slot had before undoes a write to it. -/
theorem setSlot_setSlot {r : Report} {key : Hash} {previous : Word}
    (h : r.slot key = .ok previous) (value : Word) :
    (r.setSlot key value).setSlot key previous = r := by
  unfold setSlot
  simp only [Function.update_idem]
  rw [← h, Function.update_eq_self]

end Report

/-! ### Addresses -/

namespace Accounts

variable (store : Store)

/-- The account under an address, from the cache or else from the store. -/
def seen (c : Accounts) (address : Address) : Except StoreError CachedAccount :=
  match c.get? address with
  | some x => .ok x
  | none => (store.account address).map CachedAccount.ofStored

/-- The report of an address. -/
def report (c : Accounts) (address : Address) : Except StoreError Report :=
  (c.seen store address).map (·.report store address)

theorem report_of_cached {c : Accounts} {address : Address} {x : CachedAccount}
    (h : c.get? address = some x) : c.report store address = .ok (x.report store address) := by
  simp [report, seen, h, Except.map]

theorem report_of_missing {c : Accounts} {address : Address} (h : c.get? address = none) :
    c.report store address =
      (store.account address).map fun stored =>
        (CachedAccount.ofStored stored).report store address := by
  simp only [report, seen, h]
  cases store.account address <;> rfl

/-- Putting an account under an address changes the report of that address only. -/
theorem report_insert (c : Accounts) (address : Address) (x : CachedAccount) :
    Accounts.report store (c.insert address x) =
      Function.update (c.report store) address (.ok (x.report store address)) := by
  funext b
  by_cases hb : b = address
  · subst hb
    rw [Function.update_self]
    exact report_of_cached store (WordMap.get?_insert_self c b x)
  · rw [Function.update_of_ne hb]
    simp only [report, seen, WordMap.get?_insert_of_ne c x hb]

end Accounts

end MessageCall
