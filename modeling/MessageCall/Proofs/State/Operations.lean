import MessageCall.Proofs.State.Writing

/-!
# Operations as functions of the reports

Thirteen operations read and write the accounts of a ledger. Each of them is determined by the
reports of the ledger and, where code is asked for, by the code at hand: `LedgerOp.onReports` says
what the operation answers and what is reported afterwards, and `perform_spec` says that it does so
from every sound ledger, evolving it. Statements about sessions are proved from this description
alone, so none of them has to look into a ledger again.
-/

namespace MessageCall

/-- An operation on the accounts of a ledger. -/
inductive LedgerOp
  | accountExists (address : Address)
  | createAccount (address : Address)
  | account (address : Address)
  | balance (address : Address)
  | nonce (address : Address)
  | codeHash (address : Address)
  | code (address : Address)
  | slot (address : Address) (key : Hash)
  | addBalance (address : Address) (amount : Word)
  | subBalance (address : Address) (amount : Word)
  | setNonce (address : Address) (value : UInt64)
  | setCode (address : Address) (bytes : Bytes)
  | setSlot (address : Address) (key : Hash) (value : Word)
  deriving DecidableEq

/-- What an operation answers. -/
inductive Answer
  | done
  | flag (b : Bool)
  | info (info : AccountInfo)
  | word (w : Word)
  | count (n : UInt64)
  | hash (h : Hash)
  | bytes (bytes : Bytes)
  deriving DecidableEq

namespace LedgerOp

/-- The operation on a ledger. -/
def perform (store : Store) : LedgerOp → Ledger.Step Answer
  | .accountExists a => return .flag (← Ledger.accountExists store a)
  | .createAccount a => do
    Ledger.createAccount store a
    return .done
  | .account a => return .info (← Ledger.account store a)
  | .balance a => return .word (← Ledger.balance store a)
  | .nonce a => return .count (← Ledger.nonce store a)
  | .codeHash a => return .hash (← Ledger.codeHash store a)
  | .code a => return .bytes (← Ledger.code store a)
  | .slot a key => return .word (← Ledger.slot store a key)
  | .addBalance a amount => do
    Ledger.addBalance store a amount
    return .done
  | .subBalance a amount => do
    Ledger.subBalance store a amount
    return .done
  | .setNonce a value => do
    Ledger.setNonce store a value
    return .done
  | .setCode a bytes => do
    Ledger.setCode store a bytes
    return .done
  | .setSlot a key value => do
    Ledger.setSlot store a key value
    return .done

/-- An operation that changes nothing. -/
def Reads : LedgerOp → Prop
  | .createAccount _ | .addBalance .. | .subBalance .. | .setNonce .. | .setCode .. |
    .setSlot .. => False
  | _ => True

end LedgerOp

/-- What is reported of every address. -/
abbrev Reports := Address → Except StoreError Report

namespace LedgerOp

variable (store : Store)

/-- A read of the reports. -/
def looking {α : Type} (r : Except StoreError α) (answer : α → Answer) (ρ : Reports) :
    Except InternalError Answer × Reports :=
  ((Ledger.asked r).map answer, ρ)

/-- A write to the report of an address. -/
def writing (address : Address) (f : Change) (ρ : Reports) :
    Except InternalError Answer × Reports :=
  ((f.apply store address (ρ address)).map fun _ => .done,
    reportsAfter ρ address (f.apply store address (ρ address)))

/-- The operation as a function of the reports and of the code at hand. -/
def onReports (codes : WordMap 256 Bytes) (op : LedgerOp) (ρ : Reports) :
    Except InternalError Answer × Reports :=
  match op with
  | .accountExists a => looking ((ρ a).map (·.present)) .flag ρ
  | .createAccount a => writing store a .create ρ
  | .account a => looking ((ρ a).map (·.info)) .info ρ
  | .balance a => looking ((ρ a).map (·.info.balance)) .word ρ
  | .nonce a => looking ((ρ a).map (·.info.nonce)) .count ρ
  | .codeHash a => looking ((ρ a).map (·.info.codeHash)) .hash ρ
  | .code a => looking ((ρ a).bind fun r => Ledger.codeOver store codes r.info.codeHash) .bytes ρ
  | .slot a key => looking ((ρ a).bind (·.slot key)) .word ρ
  | .addBalance a amount => writing store a (.addBalance amount) ρ
  | .subBalance a amount => writing store a (.subBalance amount) ρ
  | .setNonce a value => writing store a (.setNonce value) ρ
  | .setCode a bytes => writing store a (.setCode bytes) ρ
  | .setSlot a key value => writing store a (.setSlot key value) ρ

/-- The code that the operation may put at hand: the code it sets, or the code it reads. -/
def Brings (codes : WordMap 256 Bytes) (ρ : Reports) (op : LedgerOp) (h : Hash) (code : Bytes) :
    Prop :=
  match op with
  | .setCode _ bytes => code = bytes ∧ h = keccak bytes
  | .code a => (ρ a).map (·.info.codeHash) = .ok h ∧ Ledger.codeOver store codes h = .ok code
  | _ => False

end LedgerOp

namespace Ledger

variable {store : Store} {l : Ledger}

/-- A step that does what an operation is described to do. -/
def Does (store : Store) (l : Ledger) (op : LedgerOp) (m : Step Answer) : Prop :=
  ∃ l', m l = ((op.onReports store l.codes (l.report store)).1, l') ∧
    Evolves store l l' ∧
    l'.report store = (op.onReports store l.codes (l.report store)).2 ∧
    ∀ {h code}, l'.codes.get? h = some code →
      l.codes.get? h = some code ∨ op.Brings store l.codes (l.report store) h code

theorem Does.of_looksAt {op : LedgerOp} {α : Type} {m : Step α} {r : Except StoreError α}
    {answer : α → Answer} {address : Address}
    (hop : op.onReports store l.codes (l.report store) =
      LedgerOp.looking r answer (l.report store))
    (hm : ∃ l', m l = (asked r, l') ∧ LooksAt store address l l') :
    Does store l op (m >>= fun a => pure (answer a)) := by
  obtain ⟨l', hm, hl⟩ := hm
  refine ⟨l', ?_, hl.evolves, ?_, fun hk => .inl (hl.codes ▸ hk)⟩
  · rw [Attempt.bind_pure_apply, hm, hop]
    rfl
  · rw [hl.report, hop]
    rfl

theorem Does.of_writesAs {op : LedgerOp} {m : Step Unit} {address : Address} {f : Change}
    {new : Option Bytes}
    (hop : op.onReports store l.codes (l.report store) =
      LedgerOp.writing store address f (l.report store))
    (hnew : ∀ {code}, new = some code → op.Brings store l.codes (l.report store) (keccak code) code)
    (hm : WritesAs store l address f new m) :
    Does store l op (m >>= fun _ => pure Answer.done) := by
  obtain ⟨l', hm, hevolves, hreport, hcodes⟩ := hm
  refine ⟨l', ?_, hevolves, ?_, fun hk => (hcodes hk).imp_right ?_⟩
  · rw [Attempt.bind_pure_apply, hm, hop]
    simp only [LedgerOp.writing]
    cases f.apply store address (l.report store address) <;> rfl
  · rw [hreport, hop]
    rfl
  · rintro ⟨hnew', rfl⟩
    exact hnew hnew'

/-- **Every operation does what it is described to do**, from every sound ledger. -/
theorem perform_spec (h : l.Sound store) (op : LedgerOp) : Does store l op (op.perform store) := by
  -- Setting code is the only write that puts code at hand.
  have nothing : ∀ {op : LedgerOp} {code : Bytes}, (none : Option Bytes) = some code →
      op.Brings store l.codes (l.report store) (keccak code) code := fun hn => by cases hn
  cases op with
  | accountExists a => exact .of_looksAt rfl (accountExists_spec h a)
  | createAccount a => exact .of_writesAs rfl nothing (createAccount_spec h a)
  | account a => exact .of_looksAt rfl (account_spec h a)
  | balance a => exact .of_looksAt rfl (balance_spec h a)
  | nonce a => exact .of_looksAt rfl (nonce_spec h a)
  | codeHash a => exact .of_looksAt rfl (codeHash_spec h a)
  | slot a key =>
    obtain ⟨l', hm, hl, -⟩ := slot_spec h a key
    exact .of_looksAt rfl ⟨l', hm, hl⟩
  | addBalance a amount => exact .of_writesAs rfl nothing (addBalance_spec h a amount)
  | subBalance a amount => exact .of_writesAs rfl nothing (subBalance_spec h a amount)
  | setNonce a value => exact .of_writesAs rfl nothing (setNonce_spec h a value)
  | setSlot a key value => exact .of_writesAs rfl nothing (setSlot_spec h a key value)
  | setCode a bytes =>
    refine .of_writesAs rfl (fun hn => ?_) (setCode_spec h a bytes)
    cases hn
    exact ⟨rfl, rfl⟩
  | code a =>
    -- What code is found depends on the code at hand, and reading adds to it.
    obtain ⟨l', hm, hl, hcodes⟩ := code_spec h a
    refine ⟨l', ?_, hl.evolves, hl.report, hcodes⟩
    change (Ledger.code store a >>= fun c => pure (Answer.bytes c)) l = _
    rw [Attempt.bind_pure_apply, hm]
    rfl

theorem perform_evolves (h : l.Sound store) (op : LedgerOp) :
    Evolves store l (op.perform store l).2 := by
  obtain ⟨l', hm, hevolves, -, -⟩ := perform_spec h op
  rw [hm]
  exact hevolves

end Ledger

end MessageCall
