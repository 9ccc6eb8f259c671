import MessageCall.Proofs.State.Backing
import MessageCall.Proofs.State.Session
import Mathlib.Data.Set.Function

/-!
# The plain model of a ledger

The plain model of the world is a total map from addresses to accounts with everything in them. It
is filled from the store at once, an operation reads or changes one account in it, a snapshot saves
a copy of the whole map and going back puts the copy in place. There are no caches, no journal and
no digests to look code up by.

A session with a ledger gives the replies that a session with the plain model gives
(`Session.replies_eq_plain`). The relation that carries this is `Depicts`: every address reports
what its plain account holds. Code is where the two models differ most. The plain account holds the
code itself and the ledger holds its digest, so of two codes with one digest the ledger would mix up
one with the other. Codes are therefore taken from a set on which digests are faithful.
-/

namespace MessageCall

/-- An account of the plain model. -/
structure PlainAccount where
  present : Bool := false
  balance : Word := 0
  nonce : UInt64 := 0
  code : Bytes := []
  storage : Hash → Word := fun _ => 0

def PlainAccount.info (x : PlainAccount) : AccountInfo where
  codeHash := keccak x.code
  balance := x.balance
  nonce := x.nonce

/-- The plain model of the world. -/
abbrev World := Address → PlainAccount

namespace World

/-- The world with an account changed, and brought into existence if it was absent. -/
def write (w : World) (address : Address) (f : PlainAccount → PlainAccount) : World :=
  Function.update w address (f { w address with present := true })

def moveBalance (w : World) (address : Address) (f : Word → Option Word)
    (failure : InternalError) : Except InternalError Answer × World :=
  match f (w address).balance with
  | some balance => (.ok .done, w.write address ({ · with balance }))
  | none => (.error failure, w)

/-- The operations on the plain model. -/
def perform : LedgerOp → World → Except InternalError Answer × World
  | .accountExists a, w => (.ok (.flag (w a).present), w)
  | .createAccount a, w => (.ok .done, w.write a fun x => { present := true, balance := x.balance })
  | .account a, w => (.ok (.info (w a).info), w)
  | .balance a, w => (.ok (.word (w a).balance), w)
  | .nonce a, w => (.ok (.count (w a).nonce), w)
  | .codeHash a, w => (.ok (.hash (keccak (w a).code)), w)
  | .code a, w => (.ok (.bytes (w a).code), w)
  | .slot a key, w => (.ok (.word ((w a).storage key)), w)
  | .addBalance a amount, w => w.moveBalance a (·.add? amount) .overflow
  | .subBalance a amount, w => w.moveBalance a (·.sub? amount) .underflow
  | .setNonce a value, w => (.ok .done, w.write a ({ · with nonce := value }))
  | .setCode a bytes, w => (.ok .done, w.write a ({ · with code := bytes }))
  | .setSlot a key value, w =>
    (.ok .done, w.write a fun x => { x with storage := Function.update x.storage key value })

/-- The world as a store has it. -/
def fill (store : Store) : World := fun a =>
  match store.account a with
  | .ok (some s) =>
    { present := true
      balance := s.balance
      nonce := s.nonce
      code := (store.code s.codeHash).toOption.getD []
      storage := fun key => (store.slot a key).toOption.getD 0 }
  | _ => {}

end World

/-- The codes that a session may meet: the empty code, the codes of the store's accounts, and the
codes that are set. -/
def codesMet (store : Store) (requests : List Request) : Set Bytes := fun code =>
  code = [] ∨
    (∃ address stored, store.account address = .ok (some stored) ∧
      store.code stored.codeHash = .ok code) ∨
    ∃ address, .op (.setCode address code) ∈ requests

/-! ### What a report depicts -/

/-- A report says of an account what the plain account holds. -/
structure Report.Depicts (K : Set Bytes) (r : Report) (x : PlainAccount) : Prop where
  present : r.present = x.present
  info : r.info = x.info
  slot : ∀ key, r.slot key = .ok (x.storage key)
  code : x.code ∈ K

/-- The reports say of every account what its plain account holds. -/
def Depicts (K : Set Bytes) (ρ : Reports) (w : World) : Prop :=
  ∀ address, ∃ r, ρ address = .ok r ∧ r.Depicts K (w address)

/-- The code at hand is known code, under its own digest. -/
def KnownCodes (K : Set Bytes) (codes : WordMap 256 Bytes) : Prop :=
  ∀ {h code}, codes.get? h = some code → code ∈ K ∧ keccak code = h

/-- The codes of `K` have digests of their own, and the codes of the store are among them. -/
structure DigestsApart (store : Store) (K : Set Bytes) : Prop where
  injOn : Set.InjOn keccak K
  nil : [] ∈ K
  stored : ∀ {address stored code}, store.account address = .ok (some stored) →
    store.code stored.codeHash = .ok code → code ∈ K ∧ keccak code = stored.codeHash

section Operations

variable {store : Store} {K : Set Bytes} {l : Ledger} {w : World} {ρ : Reports}
  {address : Address} {r : Report}

/-- Reading what is depicted. -/
theorem looking_depicts {α : Type} {a : Except StoreError α} {b : α} (hw : Depicts K ρ w)
    (ha : a = .ok b) (answer : α → Answer) :
    (LedgerOp.looking a answer ρ).1 = .ok (answer b) ∧
      Depicts K (LedgerOp.looking a answer ρ).2 w := by
  rw [ha]
  exact ⟨rfl, hw⟩

/-- Writing on both sides. -/
theorem writing_depicts (hstore : store.Reliable) (hl : l.Sound store)
    (hw : Depicts K (l.report store) w) (hr : l.report store address = .ok r) {f : Change}
    (g : Report → Report) (change : PlainAccount → PlainAccount) (hf : f r = .ok g)
    (hg : (g { r with present := true }).Depicts K (change { w address with present := true })) :
    (LedgerOp.writing store address f (l.report store)).1 = .ok .done ∧
      Depicts K (LedgerOp.writing store address f (l.report store)).2 (w.write address change) := by
  -- The write starts from the account present, which over a reliable store is all that enlivening
  -- does.
  have happly : f.apply store address (l.report store address) =
      .ok (g { r with present := true }) := by
    rw [hr, Change.apply, hf, ← hl.enliven_eq hstore.blank hr]
    rfl
  unfold LedgerOp.writing
  rw [happly]
  refine ⟨rfl, fun b => ?_⟩
  -- Under the address stands the changed account, elsewhere nothing moved.
  by_cases hb : b = address
  · subst hb
    refine ⟨_, Function.update_self .., ?_⟩
    unfold World.write
    rw [Function.update_self]
    exact hg
  · obtain ⟨r', hr', hdepicts⟩ := hw b
    refine ⟨r', (Function.update_of_ne hb ..).trans hr', ?_⟩
    unfold World.write
    rw [Function.update_of_ne hb]
    exact hdepicts

/-- Moving a balance on both sides. -/
theorem moveBalance_depicts (hstore : store.Reliable) (hl : l.Sound store)
    (hw : Depicts K (l.report store) w) (address : Address) (f : Word → Option Word)
    (failure : InternalError) :
    (LedgerOp.writing store address (.moveBalance f failure) (l.report store)).1 =
        (w.moveBalance address f failure).1 ∧
      Depicts K (LedgerOp.writing store address (.moveBalance f failure) (l.report store)).2
        (w.moveBalance address f failure).2 := by
  obtain ⟨r, hr, hdepicts⟩ := hw address
  -- Both sides read the same balance, so the function answers both alike.
  have hbalance : r.info.balance = (w address).balance := by
    rw [hdepicts.info]
    rfl
  unfold World.moveBalance
  cases hf : f (w address).balance with
  | some balance =>
    refine writing_depicts hstore hl hw hr (.mapInfo ({ · with balance })) ({ · with balance })
      ?_ ?_
    · simp only [Change.moveBalance, hbalance, hf]
    · exact ⟨rfl, by simp only [Report.mapInfo, hdepicts.info]; rfl, hdepicts.slot, hdepicts.code⟩
  -- An overflow stops either side before it writes.
  | none =>
    have happly : (Change.moveBalance f failure).apply store address (l.report store address) =
        .error failure := by
      simp only [hr, Change.apply, Change.moveBalance, hbalance, hf, Except.map]
    unfold LedgerOp.writing
    rw [happly]
    exact ⟨rfl, hw⟩

/-- Code that is found under a reported digest is known code with that digest. -/
theorem known_of_codeOver (hK : DigestsApart store K) (hl : l.Sound store)
    (hcodes : KnownCodes K l.codes) (hr : l.report store address = .ok r) {code : Bytes}
    (hcode : Ledger.codeOver store l.codes r.info.codeHash = .ok code) :
    code ∈ K ∧ keccak code = r.info.codeHash := by
  unfold Ledger.codeOver at hcode
  split at hcode
  · -- No code, code at hand, or code still in the store: each is known.
    next hempty =>
    cases hcode
    exact ⟨hK.nil, by rw [hempty, keccak_nil]⟩
  · next hne =>
    split at hcode
    · next hknown =>
      cases hcode
      exact hcodes hknown
    · next hnone =>
      rcases hl.codeHash_cases hr with ⟨stored, hs, hsame⟩ | hempty | ⟨code', hhas, -⟩
      · rw [hsame] at hcode ⊢
        exact hK.stored hs hcode
      · exact absurd hempty hne
      · rw [hnone] at hhas
        cases hhas

/-- Reading code finds the code that is depicted. -/
theorem codeOver_depicts (hstore : store.Reliable) (hK : DigestsApart store K)
    (hl : l.Sound store) (hcodes : KnownCodes K l.codes) (hr : l.report store address = .ok r)
    {x : PlainAccount} (hdepicts : r.Depicts K x) :
    Ledger.codeOver store l.codes r.info.codeHash = .ok x.code := by
  obtain ⟨code, hcode⟩ := hl.exists_code hstore.answers hr
  obtain ⟨hmem, hdigest⟩ := known_of_codeOver hK hl hcodes hr hcode
  rw [hcode]
  refine congrArg Except.ok (hK.injOn hmem hdepicts.code ?_)
  rw [hdigest, hdepicts.info]
  rfl

/-- **One operation** answers the same on both sides and leaves depicted what it should. -/
theorem onReports_depicts (hstore : store.Reliable) (hK : DigestsApart store K)
    (hl : l.Sound store) (hcodes : KnownCodes K l.codes) (hw : Depicts K (l.report store) w)
    {op : LedgerOp} (hop : ∀ address code, op = .setCode address code → code ∈ K) :
    (op.onReports store l.codes (l.report store)).1 = (World.perform op w).1 ∧
      Depicts K (op.onReports store l.codes (l.report store)).2 (World.perform op w).2 := by
  -- Looks first: each answers with the part of the report that the plain account names.
  cases op with
  | accountExists a =>
    obtain ⟨r, hr, h⟩ := hw a
    exact looking_depicts hw (by rw [hr, ← h.present]; rfl) .flag
  | account a =>
    obtain ⟨r, hr, h⟩ := hw a
    exact looking_depicts hw (by rw [hr, ← h.info]; rfl) .info
  | balance a =>
    obtain ⟨r, hr, h⟩ := hw a
    exact looking_depicts hw (b := (w a).info.balance) (by rw [hr, ← h.info]; rfl) .word
  | nonce a =>
    obtain ⟨r, hr, h⟩ := hw a
    exact looking_depicts hw (b := (w a).info.nonce) (by rw [hr, ← h.info]; rfl) .count
  | codeHash a =>
    obtain ⟨r, hr, h⟩ := hw a
    exact looking_depicts hw (b := (w a).info.codeHash) (by rw [hr, ← h.info]; rfl) .hash
  -- The one look that also goes to the store, for the code under the digest.
  | code a =>
    obtain ⟨r, hr, h⟩ := hw a
    refine looking_depicts hw ?_ .bytes
    rw [hr]
    exact codeOver_depicts hstore hK hl hcodes hr h
  | slot a key =>
    obtain ⟨r, hr, h⟩ := hw a
    exact looking_depicts hw (by rw [hr]; exact h.slot key) .word
  -- Writes: each changes its own part on both sides.
  | addBalance a amount => exact moveBalance_depicts hstore hl hw a _ _
  | subBalance a amount => exact moveBalance_depicts hstore hl hw a _ _
  -- A new account keeps its balance and has the empty code, whose digest is that of no code.
  | createAccount a =>
    obtain ⟨r, hr, h⟩ := hw a
    refine writing_depicts hstore hl hw hr (fun _ => .created r.info.balance)
      (fun x => { present := true, balance := x.balance }) rfl ⟨rfl, ?_, fun _ => rfl, hK.nil⟩
    change ({ balance := r.info.balance } : AccountInfo) = _
    rw [h.info, ← keccak_nil]
    rfl
  | setNonce a value =>
    obtain ⟨r, hr, h⟩ := hw a
    refine writing_depicts hstore hl hw hr (.mapInfo ({ · with nonce := value }))
      ({ · with nonce := value }) rfl ⟨rfl, ?_, h.slot, h.code⟩
    simp only [Report.mapInfo, h.info]
    rfl
  -- The new code is of the codes met, so its digest stands for it alone.
  | setCode a bytes =>
    obtain ⟨r, hr, h⟩ := hw a
    refine writing_depicts hstore hl hw hr (.mapInfo ({ · with codeHash := keccak bytes }))
      ({ · with code := bytes }) rfl ⟨rfl, ?_, h.slot, hop a bytes rfl⟩
    simp only [Report.mapInfo, h.info]
    rfl
  -- The slot can be read here, so the write does not stop before it.
  | setSlot a key value =>
    obtain ⟨r, hr, h⟩ := hw a
    have hf : Change.setSlot key value r = .ok (.setSlot key value) := by
      simp only [Change.setSlot, h.slot key]
    refine writing_depicts hstore hl hw hr (.setSlot key value)
      (fun x => { x with storage := Function.update x.storage key value }) hf
      ⟨rfl, h.info, fun key' => ?_, h.code⟩
    simp only [Report.setSlot, Function.update_apply]
    split
    · rfl
    · exact h.slot key'

/-- An operation brings known code only. -/
theorem brings_known (hK : DigestsApart store K) (hl : l.Sound store)
    (hcodes : KnownCodes K l.codes) {op : LedgerOp}
    (hop : ∀ address code, op = .setCode address code → code ∈ K) {h : Hash} {code : Bytes}
    (hbrings : op.Brings store l.codes (l.report store) h code) :
    code ∈ K ∧ keccak code = h := by
  -- Only the code that is set and the code that is read come to be at hand.
  cases op with
  | setCode a bytes =>
    obtain ⟨rfl, rfl⟩ := hbrings
    exact ⟨hop a code rfl, rfl⟩
  | code a =>
    obtain ⟨hh, hcode⟩ := hbrings
    cases hr : l.report store a with
    | error e =>
      rw [hr] at hh
      cases hh
    | ok r =>
      rw [hr] at hh
      cases hh
      exact known_of_codeOver hK hl hcodes hr hcode
  | _ => exact hbrings.elim

/-- A ledger and the plain model **match**, operation by operation. -/
theorem plain_matches (hstore : store.Reliable) (hK : DigestsApart store K) :
    Matches store (KnownCodes K) (Depicts K) Eq
      (fun op => ∀ address code, op = .setCode address code → code ∈ K) World.perform := by
  intro op l w hop hl hcodes hw
  obtain ⟨l', hm, -, hreport, hgrow⟩ := Ledger.perform_spec hl op
  obtain ⟨hanswer, hdepicts⟩ := onReports_depicts hstore hK hl hcodes hw hop
  rw [hm]
  refine ⟨hanswer, fun hk => ?_, ?_⟩
  · exact (hgrow hk).elim hcodes (brings_known hK hl hcodes hop)
  · rw [hreport]
    exact hdepicts

end Operations

/-! ### Sessions -/

section Sessions

variable {store : Store} {requests : List Request}

theorem codesMet_apart (hdigests : store.HasDigests)
    (hinj : Set.InjOn keccak (codesMet store requests)) :
    DigestsApart store (codesMet store requests) where
  injOn := hinj
  nil := .inl rfl
  stored hs hcode := ⟨.inr (.inl ⟨_, _, hs, hcode⟩), hdigests hs hcode⟩

/-- The reports of a new ledger depict the world as the store has it. -/
theorem depicts_fill (hstore : store.Reliable) {K : Set Bytes} (hK : DigestsApart store K) :
    Depicts K (Ledger.report store {}) (World.fill store) := by
  intro address
  obtain ⟨stored, hs⟩ := hstore.account address
  -- Both sides start from the store's answers, account by account.
  have hreport : Ledger.report store {} address =
      .ok ((CachedAccount.ofStored stored).report store address) := by
    rw [Ledger.report_new, hs]
    rfl
  refine ⟨_, hreport, ?_⟩
  unfold World.fill
  rw [hs]
  cases stored with
  | none => exact ⟨rfl, by rw [PlainAccount.info, keccak_nil]; rfl, fun _ => rfl, hK.nil⟩
  | some s =>
    -- The plain account has the code itself, the report its digest.
    obtain ⟨code, hcode⟩ := hstore.code hs
    obtain ⟨hmem, hdigest⟩ := hK.stored hs hcode
    simp only [hcode, Except.toOption, Option.getD_some]
    refine ⟨rfl, ?_, fun key => ?_, hmem⟩
    · rw [PlainAccount.info, hdigest]
      rfl
    · obtain ⟨value, hvalue⟩ := hstore.slot address key
      simp only [hvalue, Option.getD_some]
      exact hvalue

/-- **A ledger refines the plain model.** Whatever is asked for, in whatever order, with snapshots
nested, gone back to more than once or skipped over: the replies are those of the plain model filled
from the store at once, if no two codes that the session meets have one digest. -/
theorem Session.replies_eq_plain (hstore : store.Reliable) (hdigests : store.HasDigests)
    (requests : List Request) (hinj : Set.InjOn keccak (codesMet store requests)) :
    (Session.run store requests {}).1 =
      (Copies.run World.perform requests { now := World.fill store }).1 := by
  have hK := codesMet_apart hdigests hinj
  have hstart : InStep store (KnownCodes (codesMet store requests))
      (Depicts (codesMet store requests)) {} { now := World.fill store } :=
    .start store (fun hk => by cases hk) (depicts_fill hstore hK)
  have hrun := hstart.run (plain_matches hstore hK) (fun _ => rfl) requests ?_
  · rw [← List.forall₂_eq_eq_eq]
    exact hrun.1
  · rintro op hop address code rfl
    exact .inr (.inr ⟨address, hop⟩)

end Sessions

theorem injOn_sampleRequests : Set.InjOn keccak (codesMet Store.sample sampleRequests) := by
  -- The codes met are the empty one and that of a single byte.
  have hcodes : ∀ code ∈ codesMet Store.sample sampleRequests, code = [] ∨ code = [1] := by
    rintro code (rfl | ⟨_, _, -, hcode⟩ | ⟨address, hmem⟩)
    · exact .inl rfl
    · exact .inr (Store.code_of_sample hcode)
    · simp only [sampleRequests, List.mem_cons, Request.op.injEq, reduceCtorEq, false_or,
        LedgerOp.setCode.injEq, List.not_mem_nil, or_false] at hmem
      exact .inr hmem.2
  have hne : keccak [1] ≠ keccak [] := by
    rw [keccak_nil]
    decide +kernel
  intro c hc c' hc' h
  rcases hcodes c hc with rfl | rfl <;> rcases hcodes c' hc' with rfl | rfl
  · rfl
  · exact absurd h.symm hne
  · exact absurd h hne
  · rfl

theorem Session.replies_eq_plain_sample :
    Store.sample.Reliable ∧ Store.sample.HasDigests ∧
      Set.InjOn keccak (codesMet .sample sampleRequests) ∧
      (Session.run .sample sampleRequests {}).1 =
        (Copies.run World.perform sampleRequests { now := World.fill .sample }).1 :=
  ⟨Store.sample_reliable, Store.sample_hasDigests, injOn_sampleRequests,
    replies_eq_plain Store.sample_reliable Store.sample_hasDigests sampleRequests
      injOn_sampleRequests⟩

end MessageCall
