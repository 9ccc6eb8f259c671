import MessageCall.Chain.Fork

/-!
# Native contracts

Some addresses are reserved for contracts that are part of the protocol. The dispatcher only needs
to know which they are: a call may bring such an account into existence even without value. What
they compute is the business of whoever runs code.
-/

namespace MessageCall

/-- A native contract. -/
structure Precompile where
  address : Address
  name : String
  /-- The fork that brought it. -/
  since : Fork
  deriving DecidableEq, Repr

namespace Precompile

/-- All native contracts, in the order of their addresses. -/
def all : List Precompile :=
  [⟨1, "ECREC", .frontier⟩, ⟨2, "SHA256", .frontier⟩, ⟨3, "RIPEMD160", .frontier⟩,
   ⟨4, "ID", .frontier⟩, ⟨5, "MODEXP", .byzantium⟩, ⟨6, "BN254_ADD", .byzantium⟩,
   ⟨7, "BN254_MUL", .byzantium⟩, ⟨8, "BN254_PAIRING", .byzantium⟩]

/-- The native contracts of a fork: those it brought and those from before. -/
def ofFork (fork : Fork) : List Precompile := all.filter fun p => p.since ≤ fork

/-- Whether a fork has a native contract at an address. -/
def isAt (address : Address) (fork : Fork) : Bool :=
  (ofFork fork).any fun p => p.address = address

end Precompile

end MessageCall
