import MessageCall.Word

/-!
# Forks and their activation

A chain changes its rules at given block numbers. `ChainConfig` says from which block on each
upgrade is active, `none` meaning never, and `ChainConfig.forkAt` names the latest fork that is
active at a block: the last one in the order of `Fork.all` whose activation block has been reached.
Activation blocks need not be in that order, so a later fork may be active before an earlier one.
-/

namespace MessageCall

/-- The upgrades of the protocol, in the order in which they were made. -/
inductive Fork
  | frontier
  | homestead
  | tangerineWhistle
  | spuriousDragon
  | byzantium
  deriving DecidableEq, Repr, Inhabited

namespace Fork

/-- All forks, earliest first. -/
def all : List Fork := [frontier, homestead, tangerineWhistle, spuriousDragon, byzantium]

/-- The place of a fork among all forks. -/
def index : Fork → Nat
  | frontier => 0
  | homestead => 1
  | tangerineWhistle => 2
  | spuriousDragon => 3
  | byzantium => 4

instance : LE Fork := ⟨fun f g => f.index ≤ g.index⟩

instance (f g : Fork) : Decidable (f ≤ g) := inferInstanceAs (Decidable (f.index ≤ g.index))

/-- The name of a fork. -/
def name : Fork → String
  | frontier => "Frontier"
  | homestead => "Homestead"
  | tangerineWhistle => "TangerineWhistle"
  | spuriousDragon => "SpuriousDragon"
  | byzantium => "Byzantium"

end Fork

/-- A chain's identifier and the blocks from which on its upgrades are active. -/
structure ChainConfig where
  chainId : UInt64 := 0
  homesteadBlock : Option UInt64 := none
  eip150Block : Option UInt64 := none
  eip155Block : Option UInt64 := none
  eip158Block : Option UInt64 := none
  byzantiumBlock : Option UInt64 := none
  deriving DecidableEq, Repr, Inhabited

namespace ChainConfig

/-- The chain on which every upgrade is active from the first block on. -/
def allForksActive (chainId : UInt64) : ChainConfig where
  chainId
  homesteadBlock := some 0
  eip150Block := some 0
  eip155Block := some 0
  eip158Block := some 0
  byzantiumBlock := some 0

/-- The chain whose upgrades come one after the other: Homestead at block 100, Tangerine Whistle
at 150, Spurious Dragon at 200 and Byzantium at 300. -/
def staged : ChainConfig where
  chainId := 1
  homesteadBlock := some 100
  eip150Block := some 150
  eip155Block := some 200
  eip158Block := some 200
  byzantiumBlock := some 300

/-- The block from which on a fork is active. Spurious Dragon brings two upgrades together, and
its block is the one of the second, the treatment of empty accounts. -/
def activation (c : ChainConfig) : Fork → Option UInt64
  | .frontier => some 0
  | .homestead => c.homesteadBlock
  | .tangerineWhistle => c.eip150Block
  | .spuriousDragon => c.eip158Block
  | .byzantium => c.byzantiumBlock

/-- Whether a fork is active at a block. -/
def isActive (c : ChainConfig) (fork : Fork) (block : UInt64) : Bool :=
  match c.activation fork with
  | some activated => activated ≤ block
  | none => false

/-- The latest fork that is active at a block. -/
def forkAt (c : ChainConfig) (block : UInt64) : Fork :=
  (Fork.all.reverse.find? fun fork => c.isActive fork block).getD .frontier

end ChainConfig

end MessageCall
