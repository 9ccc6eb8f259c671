import MessageCall.Chain.Genesis
import MessageCall.State.View

/-!
# Block and transaction

What every frame of an execution can see of the block and the transaction around it, together with
two capabilities: a `TransferPolicy`, which decides whether value may move and moves it, and a
lookup for the hashes of earlier blocks. Only the 256 blocks before the current one have hashes;
any other block's hash is zero.
-/

namespace MessageCall

/-- Decides whether value may move between accounts, and moves it. -/
structure TransferPolicy where
  /-- Whether an account may send a value. -/
  allows : Store → (sender : Address) → (value : Word) → View.Step Bool
  /-- Moves a value from one account to another. -/
  transfer : Store → (sender recipient : Address) → (value : Word) → View.Step Unit

namespace TransferPolicy

/-- An account may send what it has. Moving nothing touches nothing. -/
def balance : TransferPolicy where
  allows store sender value := return value ≤ (← View.balance store sender)
  transfer store sender recipient value :=
    -- Not even an absent account comes into existence by receiving nothing.
    if value = 0 then pure ()
    else do
      View.subBalance store sender value
      View.addBalance store recipient value

/-- Nothing may be sent, whatever the balances. -/
def deny : TransferPolicy where
  allows _ _ _ := return false
  transfer _ _ _ _ := throw (.custom "transfer was not permitted")

end TransferPolicy

/-- What every frame of an execution can see of its surroundings. -/
structure Environment where
  /-- The sender of the transaction. -/
  origin : Address := 0
  gasPrice : Word := 0
  coinbase : Address := 0
  blockNumber : UInt64 := 0
  timestamp : UInt64 := 0
  difficulty : Word := 0
  blockGasLimit : UInt64 := 0
  transfers : TransferPolicy := .balance
  /-- The hash of an earlier block. -/
  hashOf : UInt64 → Hash := fun _ => 0

namespace Environment

/-- The surroundings of a transaction in a block. -/
def ofHeader (header : BlockHeader) (origin : Address) (gasPrice : Word) : Environment where
  origin
  gasPrice
  coinbase := header.coinbase
  blockNumber := header.number
  timestamp := header.timestamp
  difficulty := header.difficulty
  blockGasLimit := header.gasLimit

/-- How many of the blocks before the current one have hashes. -/
def hashHistory : Nat := 256

/-- The hash of a block, if it is one of the last before the current one, and zero otherwise. -/
def blockHash (env : Environment) (number : UInt64) : Hash :=
  if number < env.blockNumber ∧ env.blockNumber.toNat - number.toNat ≤ hashHistory then
    env.hashOf number
  else 0

/-- A summary of the surroundings in one line. The two capabilities are left out. -/
def summary (env : Environment) : String :=
  "Environment \x7b origin: " ++ Hex.address env.origin ++
  ", gas_price: " ++ decimal env.gasPrice.toNat ++
  ", coinbase: " ++ Hex.address env.coinbase ++
  ", block_number: " ++ decimal env.blockNumber.toNat ++
  ", timestamp: " ++ decimal env.timestamp.toNat ++
  ", difficulty: " ++ decimal env.difficulty.toNat ++
  ", block_gas_limit: " ++ decimal env.blockGasLimit.toNat ++ ", .. \x7d"

end Environment

end MessageCall
