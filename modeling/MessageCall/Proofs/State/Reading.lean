import MessageCall.Proofs.State.History

/-!
# What reading operations answer

A reading operation of a sound ledger answers what is reported, or the error of the store that the
report ends with. The answer depends on the reports, and for code on the code at hand, but never on
which accounts and slots happen to be cached. Reading leaves all reports as they are
(`Ledger.Looks`), whether it succeeds or fails.
-/

namespace MessageCall

/-- A step whose value is changed afterwards. -/
theorem Attempt.bind_pure_apply {σ ε α β : Type} (m : Attempt σ ε α) (f : α → β) (s : σ) :
    (m >>= fun a => pure (f a)) s = ((m s).1.map f, (m s).2) := by
  rw [Attempt.bind_apply]
  rcases m s with ⟨_ | _, _⟩ <;> rfl

variable {store : Store}

/-! ### Accounts just loaded -/

namespace CachedAccount

variable {address : Address} {codes : WordMap 256 Bytes}

theorem readFrom_ofStored {stored : Option StoredAccount} (h : store.account address = .ok stored) :
    (ofStored stored).ReadFrom store address where
  account := ⟨stored, h, by cases stored <;> rfl⟩
  slots hk := by cases stored <;> cases hk

theorem faithful_ofStored (store : Store) (address : Address) (codes : WordMap 256 Bytes)
    (stored : Option StoredAccount) :
    (ofStored stored).Faithful store address codes (ofStored stored) where
  absent hp := by
    cases stored with
    | none => exact ⟨rfl, rfl⟩
    | some s => cases hp
  untouched _ := by cases stored <;> rfl
  read _ _ key hk := by cases stored <;> cases hk
  code := .inl rfl

theorem ReadFrom.setSlot {before : CachedAccount} (h : before.ReadFrom store address) {key : Hash}
    {value : Word} (hs : store.slot address key = .ok value) :
    (before.setSlot key value).ReadFrom store address where
  account := h.account
  slots {key' value'} hk := by
    unfold CachedAccount.setSlot at hk
    rw [WordMap.get?_insert] at hk
    -- The slot that was written holds what the store has, and the others are as they were read.
    by_cases hkey : key' = key
    · rw [if_pos hkey] at hk
      cases hk
      rw [hkey, hs]
    · rw [if_neg hkey] at hk
      exact h.slots hk

/-- A slot that is read from the store is noted on both sides. -/
theorem Faithful.setSlot_both {x before : CachedAccount}
    (h : x.Faithful store address codes before) (hp : x.present = true) {key : Hash} {value : Word}
    (hs : x.slotOver store address key = .ok value) :
    (x.setSlot key value).Faithful store address codes (before.setSlot key value) where
  -- The account is there, so nothing is to be shown of an absent one.
  absent hx := by
    change x.present = false at hx
    rw [hp] at hx
    cases hx
  untouched hm := by
    rw [report_setSlot, Report.setSlot_self hs]
    exact h.untouched hm
  read hb hf key' hk := by
    unfold CachedAccount.setSlot at hk ⊢
    rw [WordMap.get?_insert] at hk ⊢
    -- The slot itself has now been read, and of the others it is known from before.
    by_cases hkey : key' = key
    · rw [if_pos hkey]
      rfl
    · rw [if_neg hkey] at hk ⊢
      exact h.read hb hf key' hk
  code := h.code

end CachedAccount

namespace Ledger

variable {l l' l'' : Ledger} {address : Address}

/-- What the ledger reports of an address. -/
def report (store : Store) (l : Ledger) : Address → Except StoreError Report :=
  l.current.report store

theorem report_of_cached {x : CachedAccount} (h : l.current.get? address = some x) :
    l.report store address = .ok (x.report store address) := Accounts.report_of_cached store h

/-- Going back to where an evolution started gives back what was reported then. -/
theorem Evolves.report_revertTo (h : Evolves store l l') :
    (Ledger.revertTo l.snapshot l').2.report store = l.report store := by
  obtain ⟨es, c, hes, hc, hag⟩ := h.undone
  have hr : Ledger.revertTo l.snapshot l' =
      (.ok (), { l' with journal := l.journal, current := c }) := revertTo_of_undoAll hes hc
  rw [hr]
  exact hag.report

/-- How a ledger changes when it is only looked at. -/
structure Looks (store : Store) (l l' : Ledger) : Prop where
  evolves : Evolves store l l'
  journal : l'.journal = l.journal
  report : l'.report store = l.report store

namespace Looks

theorem refl (h : l.Sound store) : Looks store l l := ⟨.refl h, rfl, rfl⟩

theorem trans (h : Looks store l l') (h' : Looks store l' l'') : Looks store l l'' where
  evolves := h.evolves.trans h'.evolves
  journal := h'.journal.trans h.journal
  report := h'.report.trans h.report

theorem sound (h : Looks store l l') : l'.Sound store := h.evolves.sound

/-- A step that caches more, in agreement with what was cached before. -/
theorem of_agrees (h : l.Sound store) (hj : l'.journal = l.journal)
    (hr : ∀ {address before}, l'.initial.get? address = some before →
      before.ReadFrom store address)
    (hin : l.initial.Within l'.initial) (hcodes : CodesGrow l.codes l'.codes)
    (hag : l.current.Agrees store l'.current)
    (hc : Coherent store l'.initial l'.codes l'.current) : Looks store l l' where
  evolves := .of_quiet h hj hr hin hcodes hag hc
  journal := hj
  report := hag.report

/-- A step that only adds to the code at hand. -/
theorem of_codes (h : l.Sound store) {codes : WordMap 256 Bytes} (hc : CodesGrow l.codes codes) :
    Looks store l { l with codes } :=
  of_agrees h rfl h.initial (Accounts.Within.refl _) hc (.refl store _) (h.coherent.codes_mono hc)

end Looks

/-- How a ledger changes when one of its accounts is looked at. -/
structure LooksAt (store : Store) (address : Address) (l l' : Ledger) : Prop
    extends Looks store l l' where
  codes : l'.codes = l.codes
  /-- The account is cached afterwards. -/
  cached : ∀ {r}, l.report store address = .ok r →
    ∃ x, l'.current.get? address = some x ∧ x.report store address = r

theorem LooksAt.trans (h : LooksAt store address l l') (h' : LooksAt store address l' l'') :
    LooksAt store address l l'' where
  toLooks := h.toLooks.trans h'.toLooks
  codes := h'.codes.trans h.codes
  cached hr := h'.cached (by rw [h.report, hr])

/-! ### Reading -/

/-- What is reported, as an operation answers it. -/
def asked {α : Type} (r : Except StoreError α) : Except InternalError α := r.mapError .store

@[simp] theorem asked_ok {α : Type} (a : α) : asked (.ok a) = .ok a := rfl

@[simp] theorem asked_error {α : Type} (e : StoreError) :
    asked (.error e : Except StoreError α) = .error (.store e) := rfl

theorem asked_eq_ok {α : Type} {r : Except StoreError α} {a : α} :
    asked r = .ok a ↔ r = .ok a := by
  cases r with
  | error e => exact ⟨nofun, nofun⟩
  | ok b => simp only [asked_ok, Except.ok.injEq]

/-- An account that is cached is not loaded again. -/
theorem load_of_cached {x : CachedAccount} (hx : l.current.get? address = some x) :
    load store address l = (.ok x, l) := by
  simp only [load, hx]

/-- What loading answers is cached from then on. -/
theorem cached_of_load {x : CachedAccount} (h : load store address l = (.ok x, l')) :
    l'.current.get? address = some x := by
  -- The account is in the first cache, in the second, or comes from the store.
  unfold load at h
  split at h
  · next y hy =>
    cases h
    exact hy
  · split at h
    · cases h
      exact WordMap.get?_insert_self _ _ _
    · split at h
      · cases h
      · cases h
        exact WordMap.get?_insert_self _ _ _

/-! A part of an account is read by loading the account. -/

section

variable {x : CachedAccount} (h : load store address l = (.ok x, l'))

include h

theorem accountExists_of_load : accountExists store address l = (.ok x.present, l') :=
  Attempt.bind_of_ok h

theorem account_of_load : account store address l = (.ok x.info, l') := Attempt.bind_of_ok h

theorem balance_of_load : balance store address l = (.ok x.info.balance, l') :=
  Attempt.bind_of_ok (account_of_load h)

theorem codeHash_of_load : codeHash store address l = (.ok x.info.codeHash, l') :=
  Attempt.bind_of_ok (account_of_load h)

end

/-- **Loading** answers what is reported, or the error of the store. -/
theorem load_spec (h : l.Sound store) (address : Address) :
    (∃ x l', load store address l = (.ok x, l') ∧ l'.current.get? address = some x ∧
      l.report store address = .ok (x.report store address) ∧ LooksAt store address l l') ∨
    (∃ e, load store address l = (.error (.store e), l) ∧ l.report store address = .error e) := by
  cases hc : l.current.get? address with
  | some x =>
    have hr : l.report store address = .ok (x.report store address) := report_of_cached hc
    refine .inl ⟨x, l, load_of_cached hc, hc, hr, ⟨.refl h, rfl, fun hr' => ⟨x, hc, ?_⟩⟩⟩
    -- What is reported of it is unique, so it is what was found.
    exact Except.ok.inj (hr.symm.trans hr')
  | none =>
    -- The account is in neither cache, so the answer of the store goes into both.
    have hi := h.coherent.initial_of_missing hc
    have hreport : l.report store address =
        (store.account address).map fun s =>
          (CachedAccount.ofStored s).report store address := Accounts.report_of_missing store hc
    simp only [load, hc, hi]
    cases hs : store.account address with
    | error e =>
      -- The store does not answer, and nothing has been put into the caches.
      rw [hs] at hreport
      exact .inr ⟨e, rfl, hreport⟩
    | ok stored =>
      rw [hs] at hreport
      have hnow := WordMap.get?_insert_self l.current address (CachedAccount.ofStored stored)
      have hfaithful := CachedAccount.faithful_ofStored store address l.codes stored
      have hinitial : ∀ {b before},
          (l.initial.insert address (CachedAccount.ofStored stored)).get? b = some before →
            before.ReadFrom store b := by
        intro b before hb
        rw [WordMap.get?_insert] at hb
        by_cases hba : b = address
        · rw [if_pos hba] at hb
          cases hb
          rw [hba]
          exact CachedAccount.readFrom_ofStored hs
        · rw [if_neg hba] at hb
          exact h.initial hb
      have hlooks : Looks store l (l.putLoaded address (CachedAccount.ofStored stored)) :=
        -- Nothing was changed in what is reported, so the ledger has only been looked at.
        .of_agrees h rfl hinitial (Accounts.Within.insert_new hi _) (.refl _)
          (.insert_loaded hc hs) (h.coherent.insert_both hfaithful)
      refine .inl ⟨_, _, rfl, hnow, hreport, hlooks, rfl, fun hr => ⟨_, hnow, ?_⟩⟩
      exact Except.ok.inj (hreport.symm.trans hr)

/-- Reading a part of the account under an address. -/
theorem load_map_spec {α : Type} (h : l.Sound store) (address : Address) (f : CachedAccount → α)
    (g : Report → α) (hfg : ∀ x, f x = g (x.report store address)) :
    ∃ l', (load store address >>= fun x => pure (f x)) l =
        (asked ((l.report store address).map g), l') ∧ LooksAt store address l l' := by
  rw [Attempt.bind_pure_apply]
  rcases load_spec h address with ⟨x, l', hl, -, hr, hlooks⟩ | ⟨e, hl, hr⟩
  · refine ⟨l', ?_, hlooks⟩
    rw [hl, hr]
    exact congrArg (fun a => (Except.ok a, l')) (hfg x)
  · -- Where the account could not be loaded, nothing is said of one.
    refine ⟨l, ?_, .refl h, rfl, fun hr' => ?_⟩
    · rw [hl, hr]
      rfl
    · rw [hr] at hr'
      cases hr'

theorem accountExists_spec (h : l.Sound store) (address : Address) :
    ∃ l', accountExists store address l =
        (asked ((l.report store address).map (·.present)), l') ∧ LooksAt store address l l' :=
  load_map_spec h address (·.present) (·.present) fun _ => rfl

theorem account_spec (h : l.Sound store) (address : Address) :
    ∃ l', account store address l = (asked ((l.report store address).map (·.info)), l') ∧
      LooksAt store address l l' :=
  load_map_spec h address (·.info) (·.info) fun _ => rfl

/-- Reading a part of an account's info. -/
theorem info_spec {α : Type} (h : l.Sound store) (address : Address) (f : AccountInfo → α) :
    ∃ l', (account store address >>= fun info => pure (f info)) l =
        (asked ((l.report store address).map fun r => f r.info), l') ∧
      LooksAt store address l l' := by
  unfold account
  simp only [bind_assoc, pure_bind]
  exact load_map_spec h address (fun x => f x.info) (fun r => f r.info) fun _ => rfl

theorem balance_spec (h : l.Sound store) (address : Address) :
    ∃ l', balance store address l =
        (asked ((l.report store address).map (·.info.balance)), l') ∧ LooksAt store address l l' :=
  info_spec h address (·.balance)

theorem nonce_spec (h : l.Sound store) (address : Address) :
    ∃ l', nonce store address l =
        (asked ((l.report store address).map (·.info.nonce)), l') ∧ LooksAt store address l l' :=
  info_spec h address (·.nonce)

theorem codeHash_spec (h : l.Sound store) (address : Address) :
    ∃ l', codeHash store address l =
        (asked ((l.report store address).map (·.info.codeHash)), l') ∧
      LooksAt store address l l' :=
  info_spec h address (·.codeHash)

/-- A slot of an account that has kept its storage has been read. -/
def SlotRead (l : Ledger) (address : Address) (key : Hash) : Prop :=
  ∀ x before, l.current.get? address = some x → l.initial.get? address = some before →
    before.present → x.storageIsFresh = false → (before.storage.get? key).isSome

/-- The store is asked for a slot that is not cached, and its answer is cached twice. -/
theorem loadSlot_spec (h : l.Sound store) {x : CachedAccount} {key : Hash}
    (hx : l.current.get? address = some x) (hp : x.present = true)
    (hs : x.slotOver store address key = store.slot address key) :
    ∃ l', (do
        let value ← loadSlot store address key
        let account ← load store address
        modify (putCurrent address (account.setSlot key value))
        return value : Step Word) l = (asked (store.slot address key), l') ∧
      LooksAt store address l l' ∧
      ∀ {value}, store.slot address key = .ok value → l'.SlotRead address key := by
  obtain ⟨before, hb⟩ := h.coherent.initial_of_cached hx
  cases hv : store.slot address key with
  | error e =>
    have hload : loadSlot store address key l = (.error (.store e), l) := by
      simp only [loadSlot, hv]
    -- Without an answer of the store nothing is noted.
    refine ⟨l, Attempt.bind_of_error hload, ⟨.refl h, rfl, fun hr => ⟨x, hx, ?_⟩⟩, fun hr => ?_⟩
    · exact Except.ok.inj ((report_of_cached hx).symm.trans hr)
    · cases hr
  | ok value =>
    rw [hv] at hs
    -- The content is noted first in the account as first read, and then in the account as it is.
    let l₁ : Ledger := { l with initial := l.initial.insert address (before.setSlot key value) }
    have hload : loadSlot store address key l = (.ok value, l₁) := by
      simp only [loadSlot, hv, hb, l₁]
    have hx₁ : l₁.current.get? address = some x := hx
    have hfaithful := (h.coherent.faithful hx hb).setSlot_both hp hs
    have hreport : (x.setSlot key value).report store address = x.report store address := by
      rw [CachedAccount.report_setSlot, Report.setSlot_self hs]
    -- Putting in what would be found anyway does not show in the reports.
    have hnow := WordMap.get?_insert_self l.current address (x.setSlot key value)
    have hinitial : ∀ {b before'}, l₁.initial.get? b = some before' →
        before'.ReadFrom store b := by
      intro b before' hb'
      simp only [l₁, WordMap.get?_insert] at hb'
      by_cases hba : b = address
      · rw [if_pos hba] at hb'
        cases hb'
        rw [hba]
        exact (h.initial hb).setSlot hv
      · rw [if_neg hba] at hb'
        exact h.initial hb'
    have hlooks : Looks store l (l₁.putCurrent address (x.setSlot key value)) :=
      .of_agrees h rfl hinitial (Accounts.Within.insert hb (.setSlot before key value)) (.refl _)
        (.insert_right hx hreport id) (h.coherent.insert_both hfaithful)
    refine ⟨l₁.putCurrent address (x.setSlot key value), ?_, ⟨hlooks, rfl, fun hr => ?_⟩, ?_⟩
    · rw [Attempt.bind_of_ok hload, Attempt.bind_of_ok (load_of_cached hx₁)]
      rfl
    · refine ⟨_, hnow, ?_⟩
      rw [hreport]
      exact Except.ok.inj ((report_of_cached hx).symm.trans hr)
    · -- From now on the slot is in the account as first read.
      intro _ _ y before' _ hb' _ _
      simp only [putCurrent, l₁, WordMap.get?_insert_self, Option.some.injEq] at hb'
      rw [← hb', CachedAccount.setSlot, WordMap.get?_insert_self]
      rfl

/-- **Reading a slot** answers what is reported of it, and afterwards the slot has been read. -/
theorem slot_spec (h : l.Sound store) (address : Address) (key : Hash) :
    ∃ l', slot store address key l =
        (asked ((l.report store address).bind (·.slot key)), l') ∧ LooksAt store address l l' ∧
      ∀ {value}, (l.report store address).bind (·.slot key) = .ok value →
        l'.SlotRead address key := by
  unfold slot
  rcases load_spec h address with ⟨x, l', hl, hx, hr, hlooks⟩ | ⟨e, hl, hr⟩
  · rw [Attempt.bind_of_ok hl, hr]
    simp only [Except.bind, CachedAccount.report_slot]
    cases hk : x.storage.get? key with
    | some value =>
      -- A cached slot was read at some time, unless there was nothing to read it from.
      have hslot : x.slotOver store address key = .ok value := by
        simp only [CachedAccount.slotOver, hk]
      rw [hslot]
      refine ⟨l', rfl, hlooks, fun _ y before hy hb hp hf => ?_⟩
      rw [hx] at hy
      cases hy
      exact (hlooks.sound.coherent.faithful hx hb).read hp hf key (by rw [hk]; rfl)
    | none =>
      -- The store is not asked for an account that is absent or has lost its storage.
      by_cases hblank : (!x.present || x.storageIsFresh) = true
      · have hslot : x.slotOver store address key = .ok 0 := by
          simp only [CachedAccount.slotOver, hk, if_pos hblank]
        rw [hslot, if_pos hblank]
        refine ⟨l', rfl, hlooks, fun _ y before hy hb hp hf => ?_⟩
        rw [hx] at hy
        cases hy
        -- The account was there when it was first read, and so it still is.
        have hpresent : x.present = true := by
          refine Bool.of_not_eq_false fun hn => ?_
          rw [((hlooks.sound.coherent.faithful hx hb).absent hn).1] at hp
          cases hp
        simp [hpresent, hf] at hblank
      · have hslot : x.slotOver store address key = store.slot address key := by
          simp only [CachedAccount.slotOver, hk, if_neg hblank]
        have hpresent : x.present = true := by
          refine Bool.of_not_eq_false fun hn => hblank ?_
          rw [hn]
          rfl
        rw [hslot, if_neg hblank]
        obtain ⟨l'', hl'', hlooks', hread⟩ := loadSlot_spec hlooks.sound hx hpresent hslot
        exact ⟨l'', hl'', hlooks.trans hlooks', hread⟩
  · -- Where the account cannot be loaded, neither can its slot.
    rw [Attempt.bind_of_error hl, hr]
    refine ⟨l, rfl, ⟨.refl h, rfl, fun hr' => ?_⟩, fun hr' => ?_⟩
    · rw [hr] at hr'
      cases hr'
    · cases hr'

/-! What is answered, without the ledger that reading leaves. -/

theorem Sound.accountExists_eq (h : l.Sound store) (address : Address) :
    (accountExists store address l).1 = asked ((l.report store address).map (·.present)) := by
  obtain ⟨_, hm, -⟩ := accountExists_spec h address
  rw [hm]

theorem Sound.balance_eq (h : l.Sound store) (address : Address) :
    (balance store address l).1 = asked ((l.report store address).map (·.info.balance)) := by
  obtain ⟨_, hm, -⟩ := balance_spec h address
  rw [hm]

theorem Sound.nonce_eq (h : l.Sound store) (address : Address) :
    (nonce store address l).1 = asked ((l.report store address).map (·.info.nonce)) := by
  obtain ⟨_, hm, -⟩ := nonce_spec h address
  rw [hm]

theorem Sound.codeHash_eq (h : l.Sound store) (address : Address) :
    (codeHash store address l).1 = asked ((l.report store address).map (·.info.codeHash)) := by
  obtain ⟨_, hm, -⟩ := codeHash_spec h address
  rw [hm]

theorem Sound.slot_eq (h : l.Sound store) (address : Address) (key : Hash) :
    (slot store address key l).1 = asked ((l.report store address).bind (·.slot key)) := by
  obtain ⟨_, hm, -⟩ := slot_spec h address key
  rw [hm]

/-! ### Reading code -/

/-- The code of a digest, at hand or else from the store. -/
def codeOver (store : Store) (codes : WordMap 256 Bytes) (codeHash : Hash) :
    Except StoreError Bytes :=
  if codeHash = emptyCodeHash then .ok []
  else match codes.get? codeHash with
    | some code => .ok code
    | none => store.code codeHash

/-- Reading code keeps it at hand, and nothing else is put there. -/
theorem codeOf_spec (h : l.Sound store) (codeHash : Hash) :
    ∃ l', codeOf store codeHash l = (asked (codeOver store l.codes codeHash), l') ∧
      Looks store l l' ∧ ∀ {k code}, l'.codes.get? k = some code →
        l.codes.get? k = some code ∨ (k = codeHash ∧ codeOver store l.codes k = .ok code) := by
  unfold codeOf codeOver
  -- Under the digest of no code nothing is looked up and nothing is put at hand.
  by_cases he : codeHash = emptyCodeHash
  · simp only [if_pos he]
    exact ⟨l, rfl, .refl h, .inl⟩
  · simp only [if_neg he]
    cases hc : l.codes.get? codeHash with
    | some code => exact ⟨l, rfl, .refl h, .inl⟩
    | none =>
      cases hs : store.code codeHash with
      | error e => exact ⟨l, rfl, .refl h, .inl⟩
      | ok code =>
        -- The store is asked once, and from then on the code is at hand.
        refine ⟨l.putCode codeHash code, rfl, .of_codes h (.insert_new hc code), ?_⟩
        intro k code' hk
        simp only [putCode, WordMap.get?_insert] at hk
        by_cases hkc : k = codeHash
        · rw [if_pos hkc] at hk
          cases hk
          subst hkc
          exact .inr ⟨rfl, by simp only [if_neg he, hc, hs]⟩
        · rw [if_neg hkc] at hk
          exact .inl hk

theorem code_spec (h : l.Sound store) (address : Address) :
    ∃ l', code store address l =
        (asked ((l.report store address).bind fun r => codeOver store l.codes r.info.codeHash),
          l') ∧
      Looks store l l' ∧ ∀ {k code}, l'.codes.get? k = some code →
        l.codes.get? k = some code ∨ ((l.report store address).map (·.info.codeHash) = .ok k ∧
          codeOver store l.codes k = .ok code) := by
  obtain ⟨l₁, hh, hlooks⟩ := codeHash_spec h address
  unfold code
  cases hr : l.report store address with
  | error e =>
    rw [hr] at hh
    -- Without a digest there is no code to look for.
    exact ⟨l₁, Attempt.bind_of_error hh, hlooks.toLooks, fun hk => .inl (hlooks.codes ▸ hk)⟩
  | ok r =>
    rw [hr] at hh
    obtain ⟨l₂, hc, hlooks', hcodes⟩ := codeOf_spec hlooks.sound r.info.codeHash
    rw [hlooks.codes] at hc hcodes
    -- What is at hand then was there before or is the code of this account.
    refine ⟨l₂, (Attempt.bind_of_ok hh).trans hc, hlooks.toLooks.trans hlooks', fun hk => ?_⟩
    exact (hcodes hk).imp_right fun ⟨hkc, hcode⟩ => ⟨by rw [hkc]; rfl, hcode⟩

end Ledger

end MessageCall
