import MessageCall.Proofs.State.Reading

/-!
# Ledgers over reliable stores

A store answers (`Store.Answers`) if it has an answer to every question that a ledger may ask of it,
it is blank (`Store.Blank`) if it has zero for the slots of accounts that it does not have, and it
is reliable if it is both. The stores of finite maps are reliable. A sound ledger over a store that
answers has a report for every address and a content for every slot, and code that it cannot find at
hand is code of one of the store's accounts.
-/

namespace MessageCall

theorem keccak_nil : keccak [] = emptyCodeHash := by decide +kernel

/-- A store that answers. It need not know any code but that of its own accounts. -/
structure Store.Reliable (store : Store) : Prop where
  account : ∀ address, ∃ stored, store.account address = .ok stored
  slot : ∀ address key, ∃ value, store.slot address key = .ok value
  blank : ∀ address key, store.account address = .ok none → store.slot address key = .ok 0
  code : ∀ {address stored}, store.account address = .ok (some stored) →
    ∃ code, store.code stored.codeHash = .ok code

/-- A store that answers for every account and every slot, and finds the code of its accounts. It
may hold anything in the slots of accounts that it does not have. -/
structure Store.Answers (store : Store) : Prop where
  account : ∀ address, ∃ stored, store.account address = .ok stored
  slot : ∀ address key, ∃ value, store.slot address key = .ok value
  code : ∀ {address stored}, store.account address = .ok (some stored) →
    ∃ code, store.code stored.codeHash = .ok code

/-- A store that has zero for the slots of accounts that it does not have. It need not answer any
other question. -/
def Store.Blank (store : Store) : Prop :=
  ∀ address key, store.account address = .ok none → store.slot address key = .ok 0

namespace Store

theorem Reliable.answers {store : Store} (h : store.Reliable) : store.Answers :=
  ⟨h.account, h.slot, h.code⟩

/-- The digest of each account's code is that of the code which the store finds by it. -/
def HasDigests (store : Store) : Prop :=
  ∀ {address stored code}, store.account address = .ok (some stored) →
    store.code stored.codeHash = .ok code → keccak code = stored.codeHash

/-! ### Stores of finite maps -/

variable {accounts : WordMap 160 Account}

theorem ofAccounts_code_eq_ok {codeHash : Hash} {code : Bytes}
    (h : (ofAccounts accounts).code codeHash = .ok code) :
    ∃ e ∈ accounts.entries, e.2.info.codeHash = codeHash ∧ e.2.code = code := by
  simp only [ofAccounts] at h
  split at h
  · next a x hfound =>
    refine ⟨(a, x), List.mem_of_find?_eq_some hfound, ?_, Except.ok.inj h⟩
    exact of_decide_eq_true (List.find?_some hfound :)
  · cases h

theorem ofAccounts_reliable (accounts : WordMap 160 Account) : (ofAccounts accounts).Reliable where
  account _ := ⟨_, rfl⟩
  slot _ _ := ⟨_, rfl⟩
  blank address key h := by
    simp only [ofAccounts, Except.ok.injEq, Option.map_eq_none_iff] at h
    simp only [ofAccounts, h]
    rfl
  code {address stored} h := by
    simp only [ofAccounts, Except.ok.injEq, Option.map_eq_some_iff] at h
    obtain ⟨x, hx, rfl⟩ := h
    -- The account itself would do, so the search finds one.
    have hfound : (accounts.entries.find? fun e => e.2.info.codeHash = x.info.codeHash).isSome := by
      rw [List.find?_isSome]
      exact ⟨(address, x), WordMap.mem_of_lookupEntry hx, by simp⟩
    obtain ⟨e, he⟩ := Option.isSome_iff_exists.mp hfound
    exact ⟨e.2.code, by simp only [ofAccounts, storedOf, he]⟩

theorem ofAccounts_hasDigests
    (h : ∀ e ∈ accounts.entries, e.2.info.codeHash = keccak e.2.code) :
    (ofAccounts accounts).HasDigests := by
  intro address stored code _ hcode
  obtain ⟨e, he, hdigest, rfl⟩ := ofAccounts_code_eq_ok hcode
  rw [← hdigest, h e he]

/-- The store of one account, with a byte of code and one slot. -/
def sample : Store :=
  ofAccounts ((∅ : WordMap 160 Account).insert 1 (.new 5 [1] 0 ((∅ : WordMap 256 Word).insert 3 9)))

theorem sample_reliable : sample.Reliable := ofAccounts_reliable _

theorem sample_hasDigests : sample.HasDigests := by
  unfold sample
  refine ofAccounts_hasDigests fun e he => ?_
  rw [List.mem_singleton.mp he]
  rfl

theorem code_of_sample {codeHash : Hash} {code : Bytes} (h : sample.code codeHash = .ok code) :
    code = [1] := by
  unfold sample at h
  obtain ⟨e, he, -, rfl⟩ := ofAccounts_code_eq_ok h
  rw [List.mem_singleton.mp he]
  rfl

/-- The store in which every account has the same code and no storage. -/
def uniform (code : Bytes) : Store where
  account _ := .ok (some { nonce := 0, balance := 0, storageRoot := emptyTrieHash, codeHash := 1 })
  slot _ _ := .ok 0
  code _ := .ok code

theorem uniform_reliable (code : Bytes) : (uniform code).Reliable where
  account _ := ⟨_, rfl⟩
  slot _ _ := ⟨0, rfl⟩
  blank _ _ _ := rfl
  code _ := ⟨code, rfl⟩

end Store

variable {store : Store}

theorem CachedAccount.ReadFrom.account_of_present {address : Address} {before : CachedAccount}
    (h : before.ReadFrom store address) (hp : before.present = true) :
    ∃ stored, store.account address = .ok (some stored) ∧
      before.info = ⟨stored.codeHash, stored.balance, stored.nonce⟩ := by
  obtain ⟨stored, hs, hunread⟩ := h.account
  have hpresent : (ofStored stored).present = true := by
    rw [← hunread]
    exact hp
  have hinfo : before.info = (ofStored stored).info := by
    rw [← hunread]
    rfl
  cases stored with
  | none => cases hpresent
  | some s => exact ⟨s, hs, hinfo⟩

theorem CachedAccount.ReadFrom.account_of_absent {address : Address} {before : CachedAccount}
    (h : before.ReadFrom store address) (hp : before.present = false) :
    store.account address = .ok none ∧ before.info = {} := by
  obtain ⟨stored, hs, hunread⟩ := h.account
  have hpresent : (ofStored stored).present = false := by
    rw [← hunread]
    exact hp
  have hinfo : before.info = (ofStored stored).info := by
    rw [← hunread]
    rfl
  cases stored with
  | none => exact ⟨hs, hinfo⟩
  | some s => cases hpresent

namespace Ledger

variable {l : Ledger} {address : Address} {r : Report}

/-- A new ledger reports what the store has. -/
theorem report_new (store : Store) (address : Address) :
    report store {} address = (store.account address).map fun stored =>
      (CachedAccount.ofStored stored).report store address :=
  Accounts.report_of_missing store (WordMap.get?_empty address)

/-- A report is that of a cached account or of the account that would be loaded. -/
theorem Sound.report_cases (h : l.Sound store) (hr : l.report store address = .ok r) :
    (∃ x before, l.current.get? address = some x ∧ l.initial.get? address = some before ∧
      before.ReadFrom store address ∧ x.Faithful store address l.codes before ∧
      r = x.report store address) ∨
    (∃ stored, l.current.get? address = none ∧ store.account address = .ok stored ∧
      r = (CachedAccount.ofStored stored).report store address) := by
  cases hc : l.current.get? address with
  | some x =>
    -- An entry is only there because its start was read, so both are known.
    obtain ⟨before, hb⟩ := h.coherent.initial_of_cached hc
    refine .inl ⟨x, before, rfl, hb, h.initial hb, h.coherent.faithful hc hb, ?_⟩
    exact Except.ok.inj (hr.symm.trans (report_of_cached hc))
  | none =>
    -- Without an entry the report is what the store says now.
    have hmissing : l.report store address = _ := Accounts.report_of_missing store hc
    rw [hmissing] at hr
    cases hs : store.account address with
    | error e =>
      rw [hs] at hr
      cases hr
    | ok stored =>
      rw [hs] at hr
      exact .inr ⟨stored, rfl, rfl, (Except.ok.inj hr).symm⟩

/-- An account that is reported absent is not in the store either. -/
theorem Sound.account_of_absent (h : l.Sound store) (hr : l.report store address = .ok r)
    (hp : r.present = false) : store.account address = .ok none := by
  rcases h.report_cases hr with ⟨x, before, -, -, hread, hfaithful, rfl⟩ | ⟨stored, -, hs, rfl⟩
  · exact (hread.account_of_absent (hfaithful.absent hp).1).1
  · cases stored with
    | none => exact hs
    | some s => cases hp

/-- An account that is reported absent is reported as no account is. -/
theorem Sound.report_of_absent (h : l.Sound store) (hr : l.report store address = .ok r)
    (hp : r.present = false) : r = CachedAccount.report store address {} := by
  rcases h.report_cases hr with ⟨x, before, -, -, -, hfaithful, rfl⟩ | ⟨stored, -, -, rfl⟩
  · rw [(hfaithful.absent hp).2]
  · cases stored with
    | none => rfl
    | some s => cases hp

/-- So it has the info of no account. -/
theorem Sound.info_of_absent (h : l.Sound store) (hr : l.report store address = .ok r)
    (hp : r.present = false) : r.info = {} := by
  rw [h.report_of_absent hr hp]
  rfl

/-- Code is that of an account in the store, or empty, or at hand. -/
theorem Sound.codeHash_cases (h : l.Sound store) (hr : l.report store address = .ok r) :
    (∃ stored, store.account address = .ok (some stored) ∧ r.info.codeHash = stored.codeHash) ∨
      r.info.codeHash = emptyCodeHash ∨ HasCode l.codes r.info.codeHash := by
  rcases h.report_cases hr with ⟨x, before, -, -, hread, hfaithful, rfl⟩ | ⟨stored, -, hs, rfl⟩
  · -- The digest is the one that was read, or one set since, whose code is at hand.
    refine hfaithful.code.elim (fun hsame => ?_) .inr
    cases hp : before.present with
    | true =>
      obtain ⟨stored, hs, hinfo⟩ := hread.account_of_present hp
      exact .inl ⟨stored, hs, by rw [CachedAccount.report_info, hsame, hinfo]⟩
    | false =>
      refine .inr (.inl ?_)
      rw [CachedAccount.report_info, hsame, (hread.account_of_absent hp).2]
  · cases stored with
    | none => exact .inr (.inl rfl)
    -- The store owes the code of every digest it names.
    | some s => exact .inl ⟨s, hs, rfl⟩

/-! ### Reliable stores -/

theorem exists_report (hstore : store.Answers) (l : Ledger) (address : Address) :
    ∃ r, l.report store address = .ok r := by
  cases hc : l.current.get? address with
  | some x => exact ⟨_, report_of_cached hc⟩
  | none =>
    obtain ⟨stored, hs⟩ := hstore.account address
    refine ⟨(CachedAccount.ofStored stored).report store address, ?_⟩
    rw [report, Accounts.report_of_missing store hc, hs]
    rfl

theorem Sound.exists_slot (hstore : store.Answers) (h : l.Sound store)
    (hr : l.report store address = .ok r) (key : Hash) : ∃ value, r.slot key = .ok value := by
  have slotOver : ∀ x : CachedAccount, ∃ value, x.slotOver store address key = .ok value := by
    intro x
    unfold CachedAccount.slotOver
    split
    · exact ⟨_, rfl⟩
    · split
      · exact ⟨0, rfl⟩
      · exact hstore.slot address key
  rcases h.report_cases hr with ⟨x, _, -, -, -, -, rfl⟩ | ⟨stored, -, -, rfl⟩
  · exact slotOver x
  · exact slotOver (CachedAccount.ofStored stored)

/-- The slots of an absent account are zero. -/
theorem Sound.slot_of_absent (h : l.Sound store) (hr : l.report store address = .ok r)
    (hp : r.present = false) (key : Hash) : r.slot key = .ok 0 := by
  rw [h.report_of_absent hr hp]
  rfl

/-- Being brought into existence changes nothing else of an account. -/
theorem Sound.enliven_eq (hstore : store.Blank) (h : l.Sound store)
    (hr : l.report store address = .ok r) :
    r.enliven store address = { r with present := true } := by
  unfold Report.enliven
  cases hp : r.present with
  | true => rfl
  | false =>
    -- The store has no such account, so it has zero for the slots too.
    have hslot : store.slot address = r.slot := by
      funext key
      rw [h.slot_of_absent hr hp, hstore address key (h.account_of_absent hr hp)]
    rw [hslot]
    rfl

/-- The code of every account can be found. -/
theorem Sound.exists_code (hstore : store.Answers) (h : l.Sound store)
    (hr : l.report store address = .ok r) :
    ∃ code, codeOver store l.codes r.info.codeHash = .ok code := by
  unfold codeOver
  split
  · exact ⟨[], rfl⟩
  · next hne =>
    split
    · next code _ => exact ⟨code, rfl⟩
    · next hnone =>
      -- The digest is neither that of no code nor at hand, so it was read from the store.
      rcases h.codeHash_cases hr with ⟨stored, hs, hsame⟩ | hempty | ⟨code, hcode, -⟩
      · rw [hsame]
        exact hstore.code hs
      · exact absurd hempty hne
      · rw [hnone] at hcode
        cases hcode

end Ledger

end MessageCall
