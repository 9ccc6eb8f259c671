import MessageCall.Chain.Fork

/-!
# Rules that depend on the fork

Three decisions of the dispatcher depend on the block. `ForkRules.atBlock` resolves them once for a
block of a chain, each flag from its own fork's activation. `ForkRules.ofFork` gives the rules of a
chain that has activated every fork up to one and no later one.
-/

namespace MessageCall

/-- The fork-dependent rules in force at a block. -/
structure ForkRules where
  fork : Fork
  /-- Whether Homestead is active. -/
  homestead : Bool
  /-- Whether the treatment of empty accounts of Spurious Dragon is active. -/
  eip158 : Bool
  deriving DecidableEq, Repr, Inhabited

namespace ForkRules

/-- The rules at a block of a chain. -/
def atBlock (c : ChainConfig) (block : UInt64) : ForkRules where
  fork := c.forkAt block
  homestead := c.isActive .homestead block
  eip158 := c.isActive .spuriousDragon block

/-- The rules of a chain that has activated every fork up to the given one. -/
def ofFork (fork : Fork) : ForkRules where
  fork
  homestead := decide (Fork.homestead ≤ fork)
  eip158 := decide (Fork.spuriousDragon ≤ fork)

/-- A call without value must not bring an empty account into existence. -/
def skipsEmptyCalls (r : ForkRules) : Bool := r.eip158

/-- Running out of gas while code is stored fails the creation. Otherwise the account stays behind
without code. -/
def codeStoreReverts (r : ForkRules) : Bool := r.homestead

/-- The nonce that a created account starts with. -/
def createdNonce (r : ForkRules) : UInt64 := if r.eip158 then 1 else 0

end ForkRules

end MessageCall
