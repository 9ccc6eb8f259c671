import MessageCall.Keccak
import MessageCall.WordMap

/-!
# Accounts

An account is seen at four stages. A `StoredAccount` is what a backing store keeps of it, without
its code and storage. An `Account` has both in full. A `CachedAccount` is an account during an
execution: of its storage it holds only the slots that were read or written, its code is elsewhere
under the code's digest, and it remembers whether it is there at all and what has been done to it.
An `AccountUpdate` is what an execution changed in an account in the end.

An account is empty when it has no code, no balance and nonce zero.
-/

namespace MessageCall

/-- What an account is worth and what code it has. -/
structure AccountInfo where
  /-- The digest of the account's code. -/
  codeHash : Hash := emptyCodeHash
  balance : Word := 0
  nonce : UInt64 := 0
  deriving DecidableEq

instance : Inhabited AccountInfo := ⟨{}⟩

/-- Whether an account has no code, no balance and nonce zero. -/
def AccountInfo.isEmpty (info : AccountInfo) : Bool :=
  info.balance = 0 && info.nonce = 0 && info.codeHash = emptyCodeHash

/-- An account as a backing store keeps it. -/
structure StoredAccount where
  nonce : UInt64 := 0
  balance : Word := 0
  /-- The root of the trie of the account's storage. -/
  storageRoot : Hash := emptyTrieHash
  codeHash : Hash := emptyCodeHash
  deriving DecidableEq

instance : Inhabited StoredAccount := ⟨{}⟩

/-- An account with its code and its storage in full. -/
structure Account where
  info : AccountInfo := {}
  code : Bytes := []
  storage : WordMap 256 Word := ∅
  deriving DecidableEq

instance : Inhabited Account := ⟨{}⟩

/-- The account of the given code, under the code's own digest. -/
def Account.new (balance : Word) (code : Bytes) (nonce : UInt64) (storage : WordMap 256 Word) :
    Account where
  info := { codeHash := keccak code, balance, nonce }
  code
  storage

/-- Whether an account has code. -/
def Account.hasCode (a : Account) : Bool := a.info.codeHash ≠ emptyCodeHash

/-! ### Accounts during an execution -/

/-- What an execution has done to an account. -/
inductive AccountStatus
  /-- Nothing but read it. -/
  | unmodified
  /-- Written to it. -/
  | modified
  /-- Created it anew, so that the storage kept for it before no longer counts. -/
  | created
  deriving DecidableEq, Repr, Inhabited

/-- An account during an execution. -/
structure CachedAccount where
  info : AccountInfo := {}
  /-- The slots that have been read or written. -/
  storage : WordMap 256 Word := ∅
  /-- Whether there is an account at all under the address. -/
  present : Bool := false
  status : AccountStatus := .unmodified
  deriving DecidableEq

instance : Inhabited CachedAccount := ⟨{}⟩

namespace CachedAccount

/-- An account as it is first loaded: as stored, or absent. -/
def ofStored : Option StoredAccount → CachedAccount
  | none => {}
  | some s =>
    { info := { codeHash := s.codeHash, balance := s.balance, nonce := s.nonce }, present := true }

/-- Whether an account has code. -/
def hasCode (a : CachedAccount) : Bool := a.info.codeHash ≠ emptyCodeHash

/-- Whether an account has no code, no balance and nonce zero. -/
def isEmpty (a : CachedAccount) : Bool := a.info.isEmpty

/-- Whether an account has only been read. -/
def isUnmodified (a : CachedAccount) : Bool := a.status = .unmodified

/-- Whether the storage kept for an account before no longer counts. -/
def storageIsFresh (a : CachedAccount) : Bool := a.status = .created

/-- The account after a write: one that was created stays created. -/
def markModified (a : CachedAccount) : CachedAccount :=
  if a.isUnmodified then { a with status := .modified } else a

end CachedAccount

/-- What an execution changed in an account. -/
structure AccountUpdate where
  address : Address := 0
  /-- The account's new info, if it is new or differs. -/
  info : Option AccountInfo := none
  /-- The account's new code, if it differs. -/
  code : Option Bytes := none
  /-- Whether the storage kept for the account before is void. -/
  removedStorage : Bool := false
  /-- The slots whose contents differ. -/
  addedStorage : WordMap 256 Word := ∅
  deriving DecidableEq

end MessageCall
