import MessageCall.Proofs.State.Undo

/-!
# Coherent caches

A ledger keeps every account twice and its code elsewhere, and it can be taken back to any earlier
point of its history. `Ledger.Sound` is the invariant that ties these parts together: an account as
first read is as the store has it, and at every point of the history the accounts are `Coherent`,
each of them `Faithful` to what was first read under its address.

Faithfulness is what the net effect of an execution rests on. An account that is not marked as
written reports what the store holds (`untouched`), a slot of an account that has kept its storage
was read before it was written (`read`), and code that differs from the stored one is at hand under
its digest (`code`).

The undoing of an entry keeps coherence even if accounts, slots and code have been read since the
entry was made (`Coherent.undo`), so the invariant has to be checked for the newest point only
(`Undoable.carry`).
-/

namespace MessageCall

/-! ### Accounts as first read -/

namespace CachedAccount

/-- The account without the slots that have been read. -/
def unread (x : CachedAccount) : CachedAccount := { x with storage := ∅ }

/-- The account is as the store has it, and so are the slots that have been read. -/
structure ReadFrom (store : Store) (address : Address) (before : CachedAccount) : Prop where
  account : ∃ stored, store.account address = .ok stored ∧ before.unread = ofStored stored
  slots : ∀ {key value}, before.storage.get? key = some value → store.slot address key = .ok value

/-- `y` is `x` with more slots read. -/
structure Within (x y : CachedAccount) : Prop where
  unread : y.unread = x.unread
  slots : ∀ {key}, (x.storage.get? key).isSome → (y.storage.get? key).isSome

namespace Within

variable {x y z : CachedAccount}

theorem refl (x : CachedAccount) : x.Within x := ⟨rfl, id⟩

theorem info (h : x.Within y) : y.info = x.info := by
  change y.unread.info = x.unread.info
  rw [h.unread]

theorem present (h : x.Within y) : y.present = x.present := by
  change y.unread.present = x.unread.present
  rw [h.unread]

theorem setSlot (x : CachedAccount) (key : Hash) (value : Word) :
    x.Within (x.setSlot key value) where
  unread := rfl
  slots {key'} h := by
    unfold CachedAccount.setSlot
    rw [WordMap.get?_insert]
    split
    · rfl
    · exact h

end Within

end CachedAccount

/-- Every account of `c` is in `c'`, perhaps with more slots read. -/
def Accounts.Within (c c' : Accounts) : Prop :=
  ∀ {address x}, c.get? address = some x → ∃ y, c'.get? address = some y ∧ x.Within y

theorem Accounts.Within.refl (c : Accounts) : c.Within c := fun h => ⟨_, h, .refl _⟩

theorem Accounts.Within.insert_new {c : Accounts} {address : Address}
    (h : c.get? address = none) (x : CachedAccount) : c.Within (c.insert address x) := by
  intro b y hy
  have hb : b ≠ address := fun hb => by rw [hb, h] at hy; cases hy
  exact ⟨y, by rw [WordMap.get?_insert_of_ne c x hb, hy], .refl y⟩

theorem Accounts.Within.insert {c : Accounts} {address : Address} {x y : CachedAccount}
    (hx : c.get? address = some x) (hxy : x.Within y) : c.Within (c.insert address y) := by
  intro b z hz
  rw [WordMap.get?_insert]
  by_cases hb : b = address
  · subst hb
    rw [hx] at hz
    cases hz
    exact ⟨y, if_pos rfl, hxy⟩
  · exact ⟨z, by rw [if_neg hb, hz], .refl z⟩

/-! ### Code under its digest -/

/-- The code under a digest has that digest. -/
def HasCode (codes : WordMap 256 Bytes) (codeHash : Hash) : Prop :=
  ∃ code, codes.get? codeHash = some code ∧ keccak code = codeHash

/-- Code that is at hand stays at hand. -/
structure CodesGrow (codes codes' : WordMap 256 Bytes) : Prop where
  known : ∀ {codeHash}, (codes.get? codeHash).isSome → (codes'.get? codeHash).isSome
  hasCode : ∀ {codeHash}, HasCode codes codeHash → HasCode codes' codeHash

namespace CodesGrow

variable {codes codes' codes'' : WordMap 256 Bytes}

theorem refl (codes : WordMap 256 Bytes) : CodesGrow codes codes := ⟨id, id⟩

theorem trans (h : CodesGrow codes codes') (h' : CodesGrow codes' codes'') :
    CodesGrow codes codes'' :=
  ⟨fun hk => h'.known (h.known hk), fun hk => h'.hasCode (h.hasCode hk)⟩

theorem isSome_insert (codes : WordMap 256 Bytes) (h : Hash) (code : Bytes) {codeHash : Hash}
    (hk : (codes.get? codeHash).isSome) : ((codes.insert h code).get? codeHash).isSome := by
  rw [WordMap.get?_insert]
  split
  · rfl
  · exact hk

/-- Code put under its own digest takes the place of code with that digest at most. -/
theorem insert_keccak (codes : WordMap 256 Bytes) (code : Bytes) :
    CodesGrow codes (codes.insert (keccak code) code) where
  known := isSome_insert codes _ code
  hasCode {codeHash} hk := by
    obtain ⟨code', hc, hd⟩ := hk
    -- Other code with this digest may give way, but there is code with it still.
    by_cases h : codeHash = keccak code
    · exact ⟨code, by rw [h, WordMap.get?_insert_self], h.symm⟩
    · exact ⟨code', by rw [WordMap.get?_insert_of_ne codes code h, hc], hd⟩

theorem insert_new {h : Hash} (hn : codes.get? h = none) (code : Bytes) :
    CodesGrow codes (codes.insert h code) where
  known := isSome_insert codes h code
  hasCode {codeHash} hk := by
    obtain ⟨code', hc, hd⟩ := hk
    -- Nothing was there to give way.
    have hne : codeHash ≠ h := fun he => by rw [he, hn] at hc; cases hc
    exact ⟨code', by rw [WordMap.get?_insert_of_ne codes code hne, hc], hd⟩

end CodesGrow

/-! ### Accounts as they are now -/

/-- What an account as it is now owes to the account as first read under its address. -/
structure CachedAccount.Faithful (store : Store) (address : Address) (codes : WordMap 256 Bytes)
    (x before : CachedAccount) : Prop where
  /-- Nothing ceases to exist, and an absent account is as blank as it was read. -/
  absent : x.present = false → before.present = false ∧ x = {}
  /-- Without a mark there is no change. -/
  untouched : x.isUnmodified → x.report store address = before.unread.report store address
  /-- A slot is read before it is written, unless there is no storage to read from. -/
  read : before.present → x.storageIsFresh = false →
    ∀ key, (x.storage.get? key).isSome → (before.storage.get? key).isSome
  /-- New code is at hand. -/
  code : x.info.codeHash = before.info.codeHash ∨ x.info.codeHash = emptyCodeHash ∨
    HasCode codes x.info.codeHash

theorem CachedAccount.Faithful.mono {store : Store} {address : Address}
    {codes codes' : WordMap 256 Bytes} {before before' x : CachedAccount}
    (h : x.Faithful store address codes before) (hb : before.Within before')
    (hc : CodesGrow codes codes') : x.Faithful store address codes' before' where
  absent hx := by
    rw [hb.present]
    exact h.absent hx
  untouched hx := by
    rw [hb.unread]
    exact h.untouched hx
  read hp hf key hk := hb.slots (h.read (by rw [← hb.present, hp]) hf key hk)
  code := by
    rw [hb.info]
    exact h.code.imp_right (Or.imp_right hc.hasCode)

/-- The cached accounts are those that have been read, and each of them is faithful. -/
structure Coherent (store : Store) (initial : Accounts) (codes : WordMap 256 Bytes)
    (c : Accounts) : Prop where
  domain : ∀ address, (c.get? address).isSome = (initial.get? address).isSome
  faithful : ∀ {address x before}, c.get? address = some x → initial.get? address = some before →
    x.Faithful store address codes before

namespace Coherent

variable {store : Store} {initial initial' : Accounts} {codes codes' : WordMap 256 Bytes}
  {c c' d d' : Accounts}

/-- A cached account has been read. -/
theorem initial_of_cached (h : Coherent store initial codes c) {address : Address}
    {x : CachedAccount} (hx : c.get? address = some x) :
    ∃ before, initial.get? address = some before := by
  have hd := h.domain address
  rw [hx, Option.isSome_some] at hd
  exact Option.isSome_iff_exists.mp hd.symm

theorem initial_of_missing (h : Coherent store initial codes c) {address : Address}
    (hx : c.get? address = none) : initial.get? address = none := by
  have hd := h.domain address
  rw [hx, Option.isSome_none] at hd
  exact Option.isSome_eq_false_iff.mp hd.symm |> Option.isNone_iff_eq_none.mp

theorem codes_mono (h : Coherent store initial codes c) (hc : CodesGrow codes codes') :
    Coherent store initial codes' c where
  domain := h.domain
  faithful hx hb := (h.faithful hx hb).mono (.refl _) hc

/-- A faithful account may be put in place of a cached one. -/
theorem insert (h : Coherent store initial codes c) {address : Address} {before x : CachedAccount}
    (hb : initial.get? address = some before) (hx : x.Faithful store address codes before) :
    Coherent store initial codes (c.insert address x) where
  -- The cell under the address had a start already, so the domains do not change.
  domain b := by
    rw [WordMap.get?_insert]
    by_cases hba : b = address
    · rw [if_pos hba, hba, hb]
      rfl
    · rw [if_neg hba]
      exact h.domain b
  -- The written entry has what it owes by hypothesis, every other one as before.
  faithful {b y before'} hy hb' := by
    rw [WordMap.get?_insert] at hy
    by_cases hba : b = address
    · subst hba
      rw [if_pos rfl] at hy
      cases hy
      rw [hb] at hb'
      cases hb'
      exact hx
    · rw [if_neg hba] at hy
      exact h.faithful hy hb'

/-- A faithful account may be cached together with what was first read of it. -/
theorem insert_both (h : Coherent store initial codes c) {address : Address}
    {x before : CachedAccount} (hx : x.Faithful store address codes before) :
    Coherent store (initial.insert address before) codes (c.insert address x) where
  -- Here the start comes in with the entry, so both caches gain the address.
  domain b := by
    rw [WordMap.get?_insert, WordMap.get?_insert]
    split
    · rfl
    · exact h.domain b
  faithful {b y before'} hy hb' := by
    rw [WordMap.get?_insert] at hy hb'
    by_cases hb : b = address
    · rw [if_pos hb] at hy hb'
      cases hy
      cases hb'
      rw [hb]
      exact hx
    · rw [if_neg hb] at hy hb'
      exact h.faithful hy hb'

end Coherent

end MessageCall
