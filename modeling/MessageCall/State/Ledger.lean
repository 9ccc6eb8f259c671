import MessageCall.Attempt
import MessageCall.State.Journal
import MessageCall.State.Store

/-!
# The ledger of an execution

A `Ledger` is the state of the world during an execution, laid over a `Store` that it reads from.
It keeps every account twice, as it was first read from the store and as it is now, so that in the
end the two can be compared (`State.Transitions`). Accounts, storage slots and code are read from
the store when they are first asked for and never again. Every change is noted in the journal.

All operations are steps over the ledger that may fail. A failing operation has changed nothing
but what it had loaded by then, since every operation does all its reading and all its checks
before its first change.

Two rules are worth a note. A write to an absent account brings it into existence, and that is a
change of its own. The storage of an absent account, or of one created during the execution, is
zero wherever it was not written, whatever the store says.
-/

namespace MessageCall

/-- The world during an execution. -/
structure Ledger where
  /-- The accounts as they are now. -/
  current : Accounts := ∅
  /-- The accounts as they were first read. -/
  initial : Accounts := ∅
  /-- The code that has been read or set, under its digest. -/
  codes : WordMap 256 Bytes := ∅
  journal : Journal := {}
  deriving DecidableEq

instance : Inhabited Ledger := ⟨{}⟩

namespace Ledger

/-- A step over the ledger. -/
abbrev Step := Attempt Ledger InternalError

/-! ### Changes to the parts of a ledger -/

/-- The ledger with another account under an address now. -/
def putCurrent (address : Address) (account : CachedAccount) (l : Ledger) : Ledger :=
  { l with current := l.current.insert address account }

/-- The ledger with an account that has just been read. -/
def putLoaded (address : Address) (account : CachedAccount) (l : Ledger) : Ledger :=
  { l with
    current := l.current.insert address account
    initial := l.initial.insert address account }

/-- The ledger with code under its digest. -/
def putCode (codeHash : Hash) (code : Bytes) (l : Ledger) : Ledger :=
  { l with codes := l.codes.insert codeHash code }

/-- The ledger with one more entry in its journal. -/
def record (entry : JournalEntry) (l : Ledger) : Ledger :=
  { l with journal := l.journal.record entry }

/-- The ledger with all changes accepted: none of them can be undone any more. -/
def commit (l : Ledger) : Ledger := { l with journal := l.journal.clear }

variable (store : Store)

/-! ### Loading -/

/-- The **lazy read** of an account: the store is asked the first time only, and what it answers is
kept twice. -/
def load (address : Address) : Step CachedAccount := fun l =>
  match l.current.get? address with
  | some account => (.ok account, l)
  | none =>
    match l.initial.get? address with
    -- It has been read before, so the store is not asked again.
    | some account => (.ok account, l.putCurrent address account)
    | none =>
      match store.account address with
      | .error e => (.error (.store e), l)
      | .ok stored =>
        let account := CachedAccount.ofStored stored
        (.ok account, l.putLoaded address account)

/-- The code of a digest, read from the store when it is first asked for. -/
def codeOf (codeHash : Hash) : Step Bytes := fun l =>
  if codeHash = emptyCodeHash then (.ok [], l)
  else match l.codes.get? codeHash with
    | some code => (.ok code, l)
    | none =>
      match store.code codeHash with
      | .error e => (.error (.store e), l)
      | .ok code => (.ok code, l.putCode codeHash code)

/-- Reads a slot from the store and notes it with the account as first read. -/
def loadSlot (address : Address) (key : Hash) : Step Word := fun l =>
  match store.slot address key with
  | .error e => (.error (.store e), l)
  | .ok value =>
    match l.initial.get? address with
    | some account =>
      (.ok value, { l with initial := l.initial.insert address (account.setSlot key value) })
    | none => (.error (.custom "Account not found in cache when fetching storage"), l)

/-! ### Reading -/

/-- Whether there is an account under an address. -/
def accountExists (address : Address) : Step Bool := return (← load store address).present

/-- An account's info, which is empty for an absent one. -/
def account (address : Address) : Step AccountInfo := return (← load store address).info

/-- An account's balance. -/
def balance (address : Address) : Step Word := return (← account store address).balance

/-- An account's nonce. -/
def nonce (address : Address) : Step UInt64 := return (← account store address).nonce

/-- The digest of an account's code. -/
def codeHash (address : Address) : Step Hash := return (← account store address).codeHash

/-- An account's code. -/
def code (address : Address) : Step Bytes := do
  codeOf store (← codeHash store address)

/-- The content of a storage slot. -/
def slot (address : Address) (key : Hash) : Step Word := do
  let account ← load store address
  match account.storage.get? key with
  | some value => return value
  | none =>
    -- What the store holds under the address is not this account's storage.
    if !account.present || account.storageIsFresh then return 0
    else
      let value ← loadSlot store address key
      let account ← load store address
      modify (putCurrent address (account.setSlot key value))
      return value

/-! ### Writing -/

/-- Changes an account, bringing it into existence first if need be. -/
def revise (address : Address) (f : CachedAccount → CachedAccount) : Step Unit := do
  let account ← load store address
  -- Undoing the entry makes the account absent again.
  unless account.present do modify (record (.created address account))
  modify (putCurrent address (f { account with present := true }.markModified))

/-- Puts a fresh account under an address. The balance stays, all else is reset. -/
def createAccount (address : Address) : Step Unit := do
  let previous ← load store address
  modify (record (.created address previous))
  modify (putCurrent address
    { info := { balance := previous.info.balance }, present := true, status := .created })

/-- Sets an account's balance, noting the previous one. -/
def setBalance (address : Address) (previous balance : Word) : Step Unit := do
  revise store address (.setBalance balance)
  modify (record (.balance address previous))

/-- Adds to an account's balance. -/
def addBalance (address : Address) (amount : Word) : Step Unit := do
  let previous ← balance store address
  match previous.add? amount with
  | some balance => setBalance store address previous balance
  | none => throw .overflow

/-- Takes off an account's balance. -/
def subBalance (address : Address) (amount : Word) : Step Unit := do
  let previous ← balance store address
  match previous.sub? amount with
  | some balance => setBalance store address previous balance
  | none => throw .underflow

/-- Sets an account's nonce. -/
def setNonce (address : Address) (value : UInt64) : Step Unit := do
  let previous ← nonce store address
  revise store address (.setNonce value)
  modify (record (.nonce address previous))

/-- Sets an account's code. -/
def setCode (address : Address) (code : Bytes) : Step Unit := do
  let previous ← codeHash store address
  modify (putCode (keccak code) code)
  revise store address (.setCodeHash (keccak code))
  modify (record (.code address previous))

/-- Sets the content of a storage slot. -/
def setSlot (address : Address) (key : Hash) (value : Word) : Step Unit := do
  let previous ← slot store address key
  revise store address (.setSlot key value)
  modify (record (.storage address key previous))

/-! ### Snapshots -/

/-- A point in the history: the number of changes up to it. -/
abbrev Snapshot := Nat

/-- The present point in the history. -/
def snapshot (l : Ledger) : Snapshot := l.journal.length

/-- Undoes every change made since a snapshot. -/
def revertTo (s : Snapshot) : Step Unit := fun l =>
  let (result, journal, current) := l.journal.revertTo s l.current
  (result, { l with journal, current })

end Ledger

end MessageCall
