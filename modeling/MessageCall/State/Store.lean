import MessageCall.Account
import MessageCall.Fault

/-!
# Backing stores

A `Store` answers three questions about the world as it was before an execution, and may fail to
answer any of them. `Store.ofAccounts` answers from a finite map of accounts: an address outside
the map has no account, a slot outside an account's storage holds zero, and code is found by the
digest under which some account carries it. `Store.withOutages` lets chosen questions fail.
-/

namespace MessageCall

/-- The world before an execution. -/
structure Store where
  /-- An account, `none` if there is none under the address. -/
  account : Address → Except StoreError (Option StoredAccount)
  /-- The content of a storage slot. -/
  slot : Address → Hash → Except StoreError Word
  /-- The code of a digest. -/
  code : Hash → Except StoreError Bytes

namespace Store

/-- The stored form of an account. Of the storage's root only its emptiness is kept. -/
def storedOf (a : Account) : StoredAccount where
  nonce := a.info.nonce
  balance := a.info.balance
  storageRoot :=
    if a.storage.isEmpty then emptyTrieHash
    else BitVec.ofNat 256 (ofBigEndian (List.replicate 32 1))
  codeHash := a.info.codeHash

/-- The store of a finite map of accounts. -/
def ofAccounts (accounts : WordMap 160 Account) : Store where
  account a := .ok ((accounts.get? a).map storedOf)
  slot a key := .ok (((accounts.get? a).bind fun account => account.storage.get? key).getD 0)
  code codeHash :=
    match accounts.entries.find? fun e => e.2.info.codeHash = codeHash with
    | some (_, account) => .ok account.code
    | none => .error (.custom ("code " ++ Hex.hash codeHash ++ " not found"))

/-- The questions that a store does not answer. -/
structure Outages where
  account : Address → Bool := fun _ => false
  storage : Address → Bool := fun _ => false
  code : Hash → Bool := fun _ => false

/-- The store that fails to answer some questions and answers the others as before. -/
def withOutages (s : Store) (o : Outages) : Store where
  account a := if o.account a then .error (.custom "account unavailable") else s.account a
  slot a key := if o.storage a then .error (.custom "storage unavailable") else s.slot a key
  code codeHash := if o.code codeHash then .error (.custom "code unavailable") else s.code codeHash

end Store

end MessageCall
