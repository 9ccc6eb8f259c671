import MessageCall.Account
import MessageCall.Fault

/-!
# The journal of changes

Every change to the accounts of an execution is noted in a `Journal` together with what was there
before, so that it can be undone. A point in the history is the number of entries at that time,
and going back to it means undoing, newest first, the entries made since
(`Journal.revertTo`).

The journal is a list with the newest entry in front. Undoing an entry takes it off first, so if an
entry cannot be undone, because its account is missing, the journal ends just below that entry.
-/

namespace MessageCall

/-- The accounts of an execution. -/
abbrev Accounts := WordMap 160 CachedAccount

/-- A change that can be undone, with what was there before. -/
inductive JournalEntry
  /-- An account was created, or brought into existence by a write. -/
  | created (address : Address) (previous : CachedAccount)
  | balance (address : Address) (previous : Word)
  | nonce (address : Address) (previous : UInt64)
  | code (address : Address) (previous : Hash)
  | storage (address : Address) (key : Hash) (previous : Word)
  deriving DecidableEq

namespace CachedAccount

/-- The account with another balance. -/
def setBalance (balance : Word) (a : CachedAccount) : CachedAccount :=
  { a with info := { a.info with balance } }

/-- The account with another nonce. -/
def setNonce (nonce : UInt64) (a : CachedAccount) : CachedAccount :=
  { a with info := { a.info with nonce } }

/-- The account with another code digest. -/
def setCodeHash (codeHash : Hash) (a : CachedAccount) : CachedAccount :=
  { a with info := { a.info with codeHash } }

/-- The account with another content of a slot. -/
def setSlot (key : Hash) (value : Word) (a : CachedAccount) : CachedAccount :=
  { a with storage := a.storage.insert key value }

end CachedAccount

/-- Changes the account under an address, which must be there. -/
def Accounts.amend (accounts : Accounts) (address : Address)
    (f : CachedAccount → CachedAccount) : Except InternalError Accounts :=
  match accounts.get? address with
  | some account => .ok (accounts.insert address (f account))
  | none => .error (.accountNotFound address)

/-- Puts back what an entry says was there before. -/
def JournalEntry.undo (accounts : Accounts) : JournalEntry → Except InternalError Accounts
  | .created address previous => .ok (accounts.insert address previous)
  | .balance address previous => accounts.amend address (.setBalance previous)
  | .nonce address previous => accounts.amend address (.setNonce previous)
  | .code address previous => accounts.amend address (.setCodeHash previous)
  | .storage address key previous => accounts.amend address (.setSlot key previous)

/-- The changes that can be undone. -/
structure Journal where
  /-- The entries, newest first. -/
  entries : List JournalEntry := []
  deriving DecidableEq

instance : Inhabited Journal := ⟨{}⟩

namespace Journal

/-- The number of entries. -/
def length (j : Journal) : Nat := j.entries.length

/-- Whether there is nothing to undo. -/
def isEmpty (j : Journal) : Bool := j.entries.isEmpty

/-- The journal with one more entry. -/
def record (entry : JournalEntry) (j : Journal) : Journal := ⟨entry :: j.entries⟩

/-- The journal without entries. -/
def clear (_ : Journal) : Journal := {}

/-- The **undoing** of the newest `count` entries, newest first. The answer says whether all of them
could be undone, and gives the entries and the accounts at the end. -/
def unwind : (count : Nat) → List JournalEntry → Accounts →
    Except InternalError Unit × List JournalEntry × Accounts
  | 0, entries, accounts => (.ok (), entries, accounts)
  | _ + 1, [], accounts => (.ok (), [], accounts)
  | count + 1, entry :: entries, accounts =>
    match entry.undo accounts with
    | .ok accounts => unwind count entries accounts
    -- The entry that cannot be undone is gone, and those below it stay.
    | .error e => (.error e, entries, accounts)

/-- Goes back to the time when the journal had `position` entries. A time that the journal does
not reach is refused, and nothing changes then. -/
def revertTo (position : Nat) (j : Journal) (accounts : Accounts) :
    Except InternalError Unit × Journal × Accounts :=
  if j.length < position then (.error (.invalidSnapshot (UInt64.ofNat position)), j, accounts)
  else
    let (result, entries, accounts) := unwind (j.length - position) j.entries accounts
    (result, ⟨entries⟩, accounts)

end Journal

end MessageCall
