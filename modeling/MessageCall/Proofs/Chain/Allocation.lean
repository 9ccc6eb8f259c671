import MessageCall.Chain.Genesis
import MessageCall.Proofs.State.Reachable
import MessageCall.Proofs.State.NetEffect

/-!
# The allocation seeds the state

The accounts of a chain's allocation become the store that a new ledger reads from. Between the two
an account goes through four hands. Its storage keys are turned from numbers into byte strings, its
code is put under its digest, the store looks for code through all accounts until one has the
digest, and the ledger keeps what it has been told, except that it does not ask for the code of the
empty digest at all.

The proof has two halves that meet at `Store.shows`, an account in full as a store has it.

* A ledger that has only been read shows what its store has, and has no net effect
  (`Ledger.OnlyRead`). This holds of every reliable store that keeps no other code under the digest
  of the empty one.
* The store of an allocation has what the allocation says (`Genesis.shows_of_allocated`,
  `Genesis.shows_of_elsewhere`). Here it matters that no two codes share a digest, since the search
  may end at any account with the digest. Accounts that share one code do no harm.

`Genesis.seeds_the_state` puts them together for every allocation and every sequence of reads.
-/

namespace MessageCall

/-! ### Ledgers that have only been read -/

namespace Ledger

variable {store : Store} {l : Ledger} {address : Address} {v : Shown}

namespace Shows

/-- A part of the info that is shown. -/
theorem info_map {α : Type} (h : l.Shows store address v) (f : AccountInfo → α) :
    ((Ledger.account store address >>= fun info => pure (f info)) l).1 = .ok (f v.info) := by
  rw [Attempt.bind_pure_apply, h.info]
  rfl

theorem balance (h : l.Shows store address v) :
    (Ledger.balance store address l).1 = .ok v.info.balance := h.info_map (·.balance)

theorem nonce (h : l.Shows store address v) :
    (Ledger.nonce store address l).1 = .ok v.info.nonce := h.info_map (·.nonce)

theorem codeHash (h : l.Shows store address v) :
    (Ledger.codeHash store address l).1 = .ok v.info.codeHash := h.info_map (·.codeHash)

end Shows

/-- A new ledger of which nothing has been asked but what it reads. -/
structure OnlyRead (store : Store) (l : Ledger) : Prop where
  sound : l.Sound store
  /-- It reports what the store has. -/
  report : l.report store = Ledger.report store {}
  /-- The code at hand is the store's. -/
  codes : CodesFrom store {[]} l.codes

namespace OnlyRead

theorem new (store : Store) : OnlyRead store {} where
  sound := sound_new store
  report := rfl
  codes hk := nomatch hk

/-- **Reading** changes nothing of this. -/
theorem perform (h : OnlyRead store l) {op : LedgerOp} (hop : op.Reads) :
    OnlyRead store (op.perform store l).2 := by
  have hlooks := (looksIf_perform hop l).looks h.sound
  refine ⟨hlooks.sound, hlooks.report.trans h.report, fun hk => ?_⟩
  obtain ⟨l', hm, -, -, hcodes⟩ := perform_spec h.sound op
  rw [hm] at hk
  rcases hcodes hk with hbefore | hbrought
  · exact h.codes hbefore
  · refine codesFrom_brings h.codes rfl (fun a code hset => ?_) hbrought
    rw [hset] at hop
    exact hop.elim

/-- Any number of reads in any order. -/
theorem performAll (h : OnlyRead store l) {ops : List LedgerOp} (hops : ∀ op ∈ ops, op.Reads) :
    OnlyRead store (ops.foldl (fun l op => (op.perform store l).2) l) := by
  induction ops generalizing l with
  | nil => exact h
  | cons op rest ih =>
    exact ih (h.perform (hops op List.mem_cons_self)) fun op' hop' =>
      hops op' (List.mem_cons_of_mem _ hop')

/-- What has only been read **shows what the store has**. -/
theorem shows (hstore : store.Reliable) (hagrees : store.Agrees {[]}) (h : OnlyRead store l)
    (address : Address) : l.Shows store address (store.shows address) := by
  obtain ⟨r, hr⟩ := exists_report hstore.answers {} address
  have hr' : l.report store address = .ok r := by rw [h.report, hr]
  obtain ⟨code, hcode⟩ := h.sound.exists_code hstore.answers hr'
  have hsame : (store.shows address).code = code :=
    hagrees.code_eq hstore rfl h.codes hr rfl hcode
  rw [Store.shows_eq hr, hsame]
  exact h.sound.shows hstore hr' hcode

/-- What has only been read has **no net effect**. -/
theorem transitions (hstore : store.Reliable) (h : OnlyRead store l) : l.transitions = .ok [] := by
  obtain ⟨us, hus, -, hnet⟩ := h.sound.transitions_spec hstore
  have hnone : us = [] := by
    refine List.eq_nil_iff_forall_not_mem.2 fun u hu => ?_
    obtain ⟨r, hr⟩ := exists_report hstore.answers {} u.address
    have hr' : l.report store u.address = .ok r := by rw [h.report, hr]
    -- An account as the store has it has not been created anew.
    have hfresh : r.fresh = false := by
      obtain ⟨stored, hstored⟩ := hstore.account u.address
      rw [report_new, hstored] at hr
      cases hr
      cases stored <;> rfl
    have hchanged : r.Changed r := (hnet u.address r r hr hr').1.1 ⟨u, hu, rfl⟩
    exact Report.not_changed_self hfresh hchanged
  rw [hus, hnone]

end OnlyRead

end Ledger

/-! ### The store of an allocation -/

/-- A number is its own key. -/
theorem storageKey_eq (number : Word) : storageKey number = number := by
  have hfits : number.toNat < span 32 := number.isLt
  rw [storageKey, wordBytes, ofBigEndian_bigEndian, Nat.mod_eq_of_lt hfits, BitVec.ofNat_toNat,
    BitVec.setWidth_eq]

namespace GenesisAccount

/-- The storage of the account is that of the allocation, under the keys of its numbers. -/
theorem storage_ofGenesis (x : GenesisAccount) : (Account.ofGenesis x).storage = x.storage := by
  have hentries : (x.storage.entries.map fun e => (storageKey e.1, e.2)) = x.storage.entries := by
    simp only [storageKey_eq]
    exact List.map_id _
  change WordMap.ofList (x.storage.entries.map fun e => (storageKey e.1, e.2)) = x.storage
  rw [hentries]
  exact WordMap.ofList_of_perm (.refl _)

/-- An account of the allocation in full. -/
def shown (x : GenesisAccount) : Shown where
  present := true
  info := { codeHash := keccak x.code, balance := x.balance, nonce := x.nonce }
  code := x.code
  storage key := (x.storage.get? key).getD 0

end GenesisAccount

namespace Genesis

variable {g : Genesis} {address : Address} {x : GenesisAccount}

/-- The store of an allocation. -/
def store (g : Genesis) : Store := .ofAccounts g.accounts

/-- The codes of an allocation, the empty one included. -/
def codes (g : Genesis) : List Bytes := [] :: g.alloc.entries.map (·.2.code)

/-- No two codes share a digest. -/
def CodesApart (g : Genesis) : Prop :=
  ∀ code ∈ g.codes, ∀ code' ∈ g.codes, keccak code = keccak code' → code = code'

theorem accounts_eq (g : Genesis) : g.accounts = g.alloc.mapValues .ofGenesis :=
  WordMap.ofList_of_perm (.refl _)

theorem store_account (g : Genesis) (address : Address) :
    g.store.account address =
      .ok ((g.alloc.get? address).map fun x => Store.storedOf (.ofGenesis x)) := by
  change Except.ok ((g.accounts.get? address).map Store.storedOf) = _
  rw [accounts_eq, WordMap.get?_mapValues, Option.map_map]
  rfl

theorem store_slot (hx : g.alloc.get? address = some x) (key : Hash) :
    g.store.slot address key = .ok ((x.storage.get? key).getD 0) := by
  change Except.ok (((g.accounts.get? address).bind fun y => y.storage.get? key).getD 0) = _
  rw [accounts_eq, WordMap.get?_mapValues, hx, Option.map_some, Option.bind_some,
    GenesisAccount.storage_ofGenesis]

theorem mem_codes (hx : g.alloc.get? address = some x) : x.code ∈ g.codes :=
  List.mem_cons_of_mem _ (List.mem_map_of_mem (WordMap.mem_of_lookupEntry hx))

theorem store_reliable (g : Genesis) : g.store.Reliable := Store.ofAccounts_reliable g.accounts

/-- The code of an account is found, at whichever account the search for its digest ends. -/
theorem store_code (hcodes : g.CodesApart) (hx : g.alloc.get? address = some x) :
    g.store.code (keccak x.code) = .ok x.code := by
  have hstored : g.store.account address = .ok (some (Store.storedOf (.ofGenesis x))) := by
    rw [store_account, hx]
    rfl
  obtain ⟨code, hcode⟩ := g.store_reliable.code hstored
  change g.store.code (keccak x.code) = .ok code at hcode
  obtain ⟨e, he, hdigest, hfound⟩ := Store.ofAccounts_code_eq_ok hcode
  rw [accounts_eq] at he
  obtain ⟨⟨a, y⟩, hy, rfl⟩ := List.mem_map.1 he
  have hsame : y.code = x.code :=
    hcodes y.code (mem_codes (WordMap.get?_of_mem hy)) x.code (mem_codes hx) hdigest
  rw [hcode, ← hfound]
  exact congrArg Except.ok hsame

/-- No other code is kept under the digest of the empty one. -/
theorem store_agrees (hcodes : g.CodesApart) : g.store.Agrees {[]} := by
  intro code hnil address stored hstored hdigest
  obtain rfl : code = [] := hnil
  rw [store_account] at hstored
  obtain ⟨x, hx, rfl⟩ := Option.map_eq_some_iff.1 (Except.ok.inj hstored)
  change keccak [] = keccak x.code at hdigest
  change g.store.code (keccak x.code) = .ok []
  rw [store_code hcodes hx, hcodes [] List.mem_cons_self x.code (mem_codes hx) hdigest]

/-- The store has an account of the allocation **as the allocation says**. -/
theorem shows_of_allocated (hcodes : g.CodesApart) (hx : g.alloc.get? address = some x) :
    g.store.shows address = x.shown := by
  have hslots : (fun key => (g.store.slot address key).toOption.getD 0) = x.shown.storage := by
    funext key
    rw [store_slot hx]
    rfl
  have hcode : (g.store.code (Account.ofGenesis x).info.codeHash).toOption.getD [] = x.code := by
    change (g.store.code (keccak x.code)).toOption.getD [] = x.code
    rw [store_code hcodes hx]
    rfl
  simp only [Store.shows, store_account, hx, Option.map_some, Store.storedOf, hslots, hcode]
  rfl

/-- The store has nothing **elsewhere**. -/
theorem shows_of_elsewhere (hx : g.alloc.get? address = none) : g.store.shows address = {} := by
  simp only [Store.shows, store_account, hx, Option.map_none]

/-! ### The state that is read -/

/-- A ledger **shows an allocation** and nothing else. -/
structure ShownBy (g : Genesis) (l : Ledger) : Prop where
  /-- An account of the allocation exists, with its balance, its nonce and its code. -/
  allocated {address : Address} {x : GenesisAccount} (hx : g.alloc.get? address = some x) :
    (Ledger.accountExists g.store address l).1 = .ok true ∧
    (Ledger.balance g.store address l).1 = .ok x.balance ∧
    (Ledger.nonce g.store address l).1 = .ok x.nonce ∧
    (Ledger.codeHash g.store address l).1 = .ok (keccak x.code) ∧
    (Ledger.code g.store address l).1 = .ok x.code
  /-- The slot of a number holds what the allocation gives for the number. -/
  slot {address : Address} {x : GenesisAccount} (hx : g.alloc.get? address = some x)
    {number value : Word} (hnumber : x.storage.get? number = some value) :
    (Ledger.slot g.store address (storageKey number) l).1 = .ok value
  /-- Every other slot holds zero. -/
  otherSlot {address : Address} {x : GenesisAccount} (hx : g.alloc.get? address = some x)
    {key : Hash} (hkey : ∀ number value, x.storage.get? number = some value →
      key ≠ storageKey number) :
    (Ledger.slot g.store address key l).1 = .ok 0
  /-- There is no other account. -/
  elsewhere {address : Address} (hx : g.alloc.get? address = none) :
    (Ledger.accountExists g.store address l).1 = .ok false ∧
    (Ledger.balance g.store address l).1 = .ok 0 ∧
    (Ledger.nonce g.store address l).1 = .ok 0 ∧
    (Ledger.code g.store address l).1 = .ok [] ∧
    ∀ key, (Ledger.slot g.store address key l).1 = .ok 0
  /-- Nothing has changed. -/
  transitions : l.transitions = .ok []

/-- **An allocation seeds the state.** If no two codes of an allocation share a digest, then a new
ledger over the store of the allocation shows the allocation and nothing else, whatever is read
before, in whatever order and however often, and reading has no net effect. -/
theorem seeds_the_state (g : Genesis) (hcodes : g.CodesApart) (ops : List LedgerOp)
    (hops : ∀ op ∈ ops, op.Reads) :
    g.ShownBy (ops.foldl (fun l op => (op.perform g.store l).2) {}) := by
  -- Reading has left the ledger sound, and all it shows is the store.
  have hread := (Ledger.OnlyRead.new g.store).performAll hops
  have hshows := hread.shows g.store_reliable (store_agrees hcodes)
  refine ⟨fun {a x} hx => ?_, fun {a x} hx number value hnumber => ?_,
    fun {a x} hx key hkey => ?_, fun {a} hx => ?_, hread.transitions g.store_reliable⟩
  · -- An allocated account shows its own fields.
    have h := shows_of_allocated hcodes hx ▸ hshows a
    exact ⟨h.present, h.balance, h.nonce, h.codeHash, h.code⟩
  · have h := shows_of_allocated hcodes hx ▸ hshows a
    rw [h.slot, storageKey_eq]
    change Except.ok ((x.storage.get? number).getD 0) = _
    rw [hnumber, Option.getD_some]
  · -- A slot that the genesis does not name is zero.
    have h := shows_of_allocated hcodes hx ▸ hshows a
    have hnone : x.storage.get? key = none := by
      refine Option.eq_none_iff_forall_ne_some.2 fun value hvalue => ?_
      exact hkey key value hvalue (storageKey_eq key).symm
    rw [h.slot]
    change Except.ok ((x.storage.get? key).getD 0) = _
    rw [hnone, Option.getD_none]
  · -- An account elsewhere is absent and blank.
    have h := shows_of_elsewhere hx ▸ hshows a
    exact ⟨h.present, h.balance, h.nonce, h.code, h.slot⟩

/-- Two accounts of one code, one of them with a slot. -/
def sample : Genesis where
  config := {}
  alloc := .ofList [(1, { balance := 5, nonce := 3, code := [1], storage := .ofList [(2, 9)] }),
    (4, { balance := 0, code := [1] })]

/-- The code of the one account is read by way of the other, and an address outside twice. -/
theorem seeds_the_state_sample :
    let ops : List LedgerOp := [.code 4, .balance 7, .slot 1 6, .balance 7]
    let l := ops.foldl (fun l op => (op.perform sample.store l).2) {}
    sample.CodesApart ∧ (∀ op ∈ ops, op.Reads) ∧
      (Ledger.code sample.store 1 l).1 = .ok [1] ∧
      (Ledger.slot sample.store 1 (storageKey 2) l).1 = .ok 9 ∧
      (Ledger.accountExists sample.store 7 l).1 = .ok false ∧ l.transitions = .ok [] := by
  intro ops l
  -- Two codes are allocated, the empty one and that of a single byte.
  have hcodes : sample.CodesApart := by
    have hmem : ∀ code ∈ sample.codes, code = [] ∨ code = [1] := by decide
    have hapart : keccak [1] ≠ keccak [] := by
      rw [keccak_nil]
      decide +kernel
    intro code hcode code' hcode' heq
    rcases hmem code hcode with rfl | rfl <;> rcases hmem code' hcode' with rfl | rfl
    · rfl
    · exact absurd heq.symm hapart
    · exact absurd heq hapart
    · rfl
  have hops : ∀ op ∈ ops, op.Reads := by simp [ops, LedgerOp.Reads]
  have h := seeds_the_state sample hcodes ops hops
  have halloc : sample.alloc.get? 1 =
      some { balance := 5, nonce := 3, code := [1], storage := .ofList [(2, 9)] } := by decide
  obtain ⟨-, -, -, -, hcode⟩ := h.allocated halloc
  obtain ⟨habsent, -⟩ := h.elsewhere (show sample.alloc.get? 7 = none by decide)
  exact ⟨hcodes, hops, hcode, h.slot halloc (show _ = some 9 by decide), habsent, h.transitions⟩

end Genesis

end MessageCall
