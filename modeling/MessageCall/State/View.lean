import MessageCall.State.Ledger

/-!
# The ledger under watch

The dispatcher reaches the ledger through a `View`, which notes every access before it is made. The
note says what kind of access it is and of which account, and stands even if the access fails. A
balance, a nonce and a code digest are parts of an account's info, so reading one of them counts as
one read.
-/

namespace MessageCall

/-- An access to the ledger. -/
inductive Access
  | exists (address : Address)
  | create (address : Address)
  | read (address : Address)
  | write (address : Address)
  | snapshot
  | revert
  deriving DecidableEq, Repr

/-- The ledger with the accesses made to it. -/
structure View where
  ledger : Ledger := {}
  /-- The accesses, newest first. -/
  accesses : List Access := []
  deriving DecidableEq

instance : Inhabited View := ⟨{}⟩

namespace View

/-- A step over the view. -/
abbrev Step := Attempt View InternalError

/-- Notes an access and makes it. -/
def watched {α : Type} (access : Access) (m : Ledger.Step α) : Step α := fun v =>
  ((m v.ledger).1, { ledger := (m v.ledger).2, accesses := access :: v.accesses })

/-- Whether an account has been looked for, created or written. -/
def touched (v : View) (address : Address) : Bool :=
  v.accesses.any fun access =>
    access = .exists address || access = .create address || access = .write address

variable (store : Store)

/-- Whether there is an account under an address. -/
def accountExists (a : Address) : Step Bool := watched (.exists a) (Ledger.accountExists store a)

/-- Puts a fresh account under an address. -/
def createAccount (a : Address) : Step Unit := watched (.create a) (Ledger.createAccount store a)

/-- An account's balance. -/
def balance (a : Address) : Step Word := watched (.read a) (Ledger.balance store a)

/-- An account's nonce. -/
def nonce (a : Address) : Step UInt64 := watched (.read a) (Ledger.nonce store a)

/-- The digest of an account's code. -/
def codeHash (a : Address) : Step Hash := watched (.read a) (Ledger.codeHash store a)

/-- An account's code. -/
def code (a : Address) : Step Bytes := watched (.read a) (Ledger.code store a)

/-- The content of a storage slot. -/
def slot (a : Address) (key : Hash) : Step Word := watched (.read a) (Ledger.slot store a key)

/-- Adds to an account's balance. -/
def addBalance (a : Address) (amount : Word) : Step Unit :=
  watched (.write a) (Ledger.addBalance store a amount)

/-- Takes off an account's balance. -/
def subBalance (a : Address) (amount : Word) : Step Unit :=
  watched (.write a) (Ledger.subBalance store a amount)

/-- Sets an account's nonce. -/
def setNonce (a : Address) (value : UInt64) : Step Unit :=
  watched (.write a) (Ledger.setNonce store a value)

/-- Sets an account's code. -/
def setCode (a : Address) (code : Bytes) : Step Unit :=
  watched (.write a) (Ledger.setCode store a code)

/-- Sets the content of a storage slot. -/
def setSlot (a : Address) (key : Hash) (value : Word) : Step Unit :=
  watched (.write a) (Ledger.setSlot store a key value)

/-- The present point in the history. -/
def snapshot : Step Ledger.Snapshot := watched .snapshot (return (← get).snapshot)

/-- Undoes every change made since a snapshot. -/
def revertTo (s : Ledger.Snapshot) : Step Unit := watched .revert (Ledger.revertTo s)

end View

end MessageCall
