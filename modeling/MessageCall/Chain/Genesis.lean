import MessageCall.Account
import MessageCall.Chain.Fork

/-!
# Block headers and the first block

A `BlockHeader` holds what a message call can see of a block. A `Genesis` describes a chain before
its first transaction: its configuration, its allocation of accounts and the header values of block
zero. `Account.ofGenesis` turns an allocated account into an account with its storage keys as
hashes: a key is a number in the allocation and its thirty-two bytes in the account.
`Genesis.accounts` does so with the whole allocation.
-/

namespace MessageCall

/-- What a message call can see of a block. -/
structure BlockHeader where
  parentHash : Hash := 0
  coinbase : Address := 0
  difficulty : Word := 0
  number : UInt64 := 0
  gasLimit : UInt64 := 0
  timestamp : UInt64 := 0
  deriving DecidableEq, Inhabited

/-- An account of the allocation. -/
structure GenesisAccount where
  code : Bytes := []
  storage : WordMap 256 Word := ∅
  balance : Word
  nonce : UInt64 := 0
  deriving DecidableEq

/-- A chain before its first transaction. -/
structure Genesis where
  config : ChainConfig
  alloc : WordMap 160 GenesisAccount
  coinbase : Address := 0
  difficulty : Word := 0
  gasLimit : UInt64 := 0
  timestamp : UInt64 := 0
  deriving DecidableEq

/-- The header of block zero. -/
def Genesis.header (g : Genesis) : BlockHeader where
  coinbase := g.coinbase
  difficulty := g.difficulty
  gasLimit := g.gasLimit
  timestamp := g.timestamp

/-- The key of the storage slot with a number: the thirty-two bytes of the number. -/
def storageKey (number : Word) : Hash := BitVec.ofNat 256 (ofBigEndian (wordBytes number))

/-- The account that an allocation describes. -/
def Account.ofGenesis (g : GenesisAccount) : Account :=
  Account.new g.balance g.code g.nonce
    (.ofList (g.storage.entries.map fun e => (storageKey e.1, e.2)))

/-- The accounts that the allocation describes, put in one after the other. -/
def Genesis.accounts (g : Genesis) : WordMap 160 Account :=
  .ofList (g.alloc.entries.map fun e => (e.1, .ofGenesis e.2))

end MessageCall
