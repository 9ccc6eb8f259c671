import MessageCall.Proofs.State.Reading

/-!
# What writing operations do

A write changes the report of its own address and of no other. It is described once for all parts
of an account (`Ledger.revise_record`): whether the account was there or is brought into existence
by the write, its report changes as the part does, and undoing the entries that the write makes
takes the change back.

A write that fails, because the store fails or because a balance would not fit, has done no more
than look at the account.
-/

namespace MessageCall

/-- Of two values put under one key the later one stays. -/
theorem WordMap.insert_insert {w : Nat} {α : Type} (m : WordMap w α) (k : BitVec w) (v v' : α) :
    (m.insert k v).insert k v' = m.insert k v' := by
  refine WordMap.ext_get? fun k' => ?_
  simp only [WordMap.get?_insert]
  split <;> rfl

variable {store : Store} {address : Address}

namespace CachedAccount

variable {codes : WordMap 256 Bytes}

/-- An account that is marked and present is faithful as far as its slots and its code are. -/
theorem Faithful.of_marked {before z : CachedAccount} (hp : z.present = true)
    (hm : z.isUnmodified = false)
    (hread : before.present → z.storageIsFresh = false →
      ∀ key, (z.storage.get? key).isSome → (before.storage.get? key).isSome)
    (hcode : z.info.codeHash = before.info.codeHash ∨ z.info.codeHash = emptyCodeHash ∨
      HasCode codes z.info.codeHash) : z.Faithful store address codes before where
  absent h := by rw [hp] at h; cases h
  untouched h := by rw [hm] at h; cases h
  read := hread
  code := hcode

/-- The account as a write finds it: present and marked. -/
def enlivened (x : CachedAccount) : CachedAccount := { x with present := true }.markModified

@[simp] theorem enlivened_info (x : CachedAccount) : x.enlivened.info = x.info :=
  markModified_info _

@[simp] theorem enlivened_storage (x : CachedAccount) : x.enlivened.storage = x.storage :=
  markModified_storage _

@[simp] theorem enlivened_present (x : CachedAccount) : x.enlivened.present = true :=
  markModified_present _

@[simp] theorem enlivened_fresh (x : CachedAccount) :
    x.enlivened.storageIsFresh = x.storageIsFresh := markModified_fresh _

@[simp] theorem enlivened_isUnmodified (x : CachedAccount) : x.enlivened.isUnmodified = false :=
  markModified_isUnmodified _

theorem enlivened_of_present {x : CachedAccount} (h : x.present = true) :
    x.enlivened = x.markModified := by
  have hx : { x with present := true } = x := by rw [← h]
  rw [enlivened, hx]

/-- Bringing an account into existence does to its report what it should. -/
theorem Faithful.report_enlivened {before x : CachedAccount}
    (h : x.Faithful store address codes before) :
    x.enlivened.report store address = (x.report store address).enliven store address := by
  cases hp : x.present with
  | true =>
    rw [enlivened_of_present hp, report_markModified]
    ext : 1 <;> simp [Report.enliven, hp]
  | false =>
    -- A blank account has no slots of its own, so the store is asked for all of them.
    obtain ⟨-, rfl⟩ := h.absent hp
    rfl

end CachedAccount

namespace Ledger

variable {l l' : Ledger}

/-! ### Writing a part of an account -/

/-- What a write does to a ledger that has the account cached. -/
theorem revise_of_cached {x : CachedAccount} (hx : l.current.get? address = some x)
    (f : CachedAccount → CachedAccount) :
    revise store address f l = (.ok (), { l with
      current := l.current.insert address (f x.enlivened)
      journal := if x.present then l.journal else l.journal.record (.created address x) }) := by
  unfold revise
  rw [Attempt.bind_of_ok (load_of_cached hx)]
  cases hp : x.present <;> rfl

end Ledger

/-- A **field write**: how a write changes an account, which entry it makes, how the entry changes
the account back, and how both changes show. -/
structure FieldWrite (address : Address) where
  entry : JournalEntry
  change : CachedAccount → CachedAccount
  back : CachedAccount → CachedAccount
  changeReport : Report → Report
  backReport : Report → Report
  change_shows : CachedAccount.Shows change changeReport
  back_shows : CachedAccount.Shows back backReport
  undo_eq : ∀ c : Accounts, entry.undo c = c.amend address back

namespace FieldWrite

open CachedAccount

variable {l : Ledger} {x before : CachedAccount}

/-- The write may be made on an account: its entry takes the change of a present account back, the
slots it touches have been read, and the code it sets is at hand. -/
structure Fits (store : Store) (l : Ledger) (x : CachedAccount) (w : FieldWrite address) :
    Prop where
  undoes : x.present →
    w.backReport (w.changeReport (x.report store address)) = x.report store address
  slots : ∀ key, ((w.change {}).storage.get? key).isSome ∨ ((w.back {}).storage.get? key).isSome →
    l.SlotRead address key
  code : ∀ y : CachedAccount, y.info = x.info →
    (w.change y).info.codeHash = x.info.codeHash ∨ HasCode l.codes (w.change y).info.codeHash
  backCode : ∀ y : CachedAccount, y.info = x.info →
    (w.back (w.change y)).info.codeHash = x.info.codeHash

variable {w : FieldWrite address}

theorem isUnmodified_change (w : FieldWrite address) (x : CachedAccount) :
    (w.change x.enlivened).isUnmodified = false := by
  rw [w.change_shows.isUnmodified, enlivened_isUnmodified]

theorem isUnmodified_back (w : FieldWrite address) (x : CachedAccount) :
    (w.back (w.change x.enlivened)).isUnmodified = false := by
  rw [w.back_shows.isUnmodified, w.isUnmodified_change]

theorem fresh_change (w : FieldWrite address) (x : CachedAccount) :
    (w.change x.enlivened).storageIsFresh = x.storageIsFresh := by
  rw [← enlivened_fresh x]
  unfold storageIsFresh
  rw [w.change_shows.status]

/-- The entry of a write changes the account back. -/
theorem undo_change (w : FieldWrite address) (c : Accounts) (x : CachedAccount) :
    w.entry.undo (c.insert address (w.change x.enlivened)) =
      .ok (c.insert address (w.back (w.change x.enlivened))) := by
  rw [w.undo_eq, Accounts.amend_of_cached _ (WordMap.get?_insert_self _ _ _),
    WordMap.insert_insert]

/-- The slots of a changed account have been read. -/
theorem Fits.slots_change (hw : w.Fits store l x) (h : l.Sound store)
    (hx : l.current.get? address = some x) (hb : l.initial.get? address = some before)
    (hp : before.present) (hf : x.storageIsFresh = false) {key : Hash}
    (hk : ((w.change x.enlivened).storage.get? key).isSome) : (before.storage.get? key).isSome := by
  rcases w.change_shows.slots {} x.enlivened key hk with hk | hk
  · rw [enlivened_storage] at hk
    exact (h.coherent.faithful hx hb).read hp hf key hk
  · exact hw.slots key (.inl hk) x before hx hb hp hf

theorem Fits.faithful_change (hw : w.Fits store l x) (h : l.Sound store)
    (hx : l.current.get? address = some x) (hb : l.initial.get? address = some before) :
    (w.change x.enlivened).Faithful store address l.codes before := by
  refine .of_marked ?_ (w.isUnmodified_change x) (fun hp hf key hk => ?_) ?_
  · rw [w.change_shows.present, enlivened_present]
  · rw [w.fresh_change] at hf
    exact hw.slots_change h hx hb hp hf hk
  · rcases hw.code x.enlivened (enlivened_info x) with hc | hc
    · rw [hc]
      exact (h.coherent.faithful hx hb).code
    · exact .inr (.inr hc)

theorem Fits.faithful_back (hw : w.Fits store l x) (h : l.Sound store)
    (hx : l.current.get? address = some x) (hb : l.initial.get? address = some before) :
    (w.back (w.change x.enlivened)).Faithful store address l.codes before := by
  refine .of_marked ?_ (w.isUnmodified_back x) (fun hp hf key hk => ?_) ?_
  · rw [w.back_shows.present, w.change_shows.present, enlivened_present]
  · have hxf : x.storageIsFresh = false := by
      rw [← w.fresh_change, ← hf]
      unfold storageIsFresh
      rw [w.back_shows.status]
    rcases w.back_shows.slots {} _ key hk with hk | hk
    · exact hw.slots_change h hx hb hp hxf hk
    · exact hw.slots key (.inr hk) x before hx hb hp hxf
  · rw [hw.backCode x.enlivened (enlivened_info x)]
    exact (h.coherent.faithful hx hb).code

/-- A write to a present account that is changed back shows nowhere. The mark stays. -/
theorem Fits.agrees_back (hw : w.Fits store l x) (hx : l.current.get? address = some x)
    (hp : x.present = true) :
    l.current.Agrees store (l.current.insert address (w.back (w.change x.enlivened))) := by
  refine .insert_right hx ?_ fun hm => ?_
  · rw [w.back_shows.report, w.change_shows.report, enlivened_of_present hp, report_markModified,
      hw.undoes hp]
  · rw [w.isUnmodified_back] at hm
    cases hm

end FieldWrite

namespace Ledger

variable {l : Ledger} {x : CachedAccount} {w : FieldWrite address}

/-- The account was there: the write makes one entry. -/
theorem evolves_write_present (h : l.Sound store) (hx : l.current.get? address = some x)
    (hp : x.present = true) (hw : w.Fits store l x) :
    Evolves store l { l with
      current := l.current.insert address (w.change x.enlivened)
      journal := l.journal.record w.entry } := by
  obtain ⟨before, hb⟩ := h.coherent.initial_of_cached hx
  have hundo := w.undo_change l.current x
  have hcurrent := h.coherent.insert hb (hw.faithful_change h hx hb)
  have hback := h.coherent.insert hb (hw.faithful_back h hx hb)
  exact .of_entries [w.entry] h rfl rfl rfl (JournalEntry.undoAll_cons hundo [])
    (hw.agrees_back hx hp) (fun hrest => ⟨hcurrent, _, hundo, hrest⟩) hback

/-- The account was absent: the write makes a second entry, below its own, that takes the account
away again. -/
theorem evolves_write_absent (h : l.Sound store) (hx : l.current.get? address = some x)
    (hw : w.Fits store l x) :
    Evolves store l { l with
      current := l.current.insert address (w.change x.enlivened)
      journal := (l.journal.record (.created address x)).record w.entry } := by
  obtain ⟨before, hb⟩ := h.coherent.initial_of_cached hx
  have hundo := w.undo_change l.current x
  have hundo' : (JournalEntry.created address x).undo
      (l.current.insert address (w.back (w.change x.enlivened))) =
      .ok (l.current.insert address x) := by
    simp only [JournalEntry.undo, WordMap.insert_insert]
  have hcurrent := h.coherent.insert hb (hw.faithful_change h hx hb)
  -- With only the upper entry undone, the account is there and has its part back.
  have hmiddle := h.coherent.insert hb (hw.faithful_back h hx hb)
  have hstart := h.coherent.insert hb (h.coherent.faithful hx hb)
  refine .of_entries [w.entry, .created address x] h rfl rfl rfl ?_
    (.insert_right hx rfl id) ?_ hstart
  · -- The two entries go back in turn, the field first and then the account.
    rw [JournalEntry.undoAll_cons hundo, JournalEntry.undoAll_cons hundo',
      JournalEntry.undoAll_nil]
  · exact fun hrest => ⟨hcurrent, _, hundo, hmiddle, _, hundo', hrest⟩

/-- **Writing a part of an account** evolves the ledger and changes the report of the account as
the part changes, once the account has been brought into existence. -/
theorem revise_record (h : l.Sound store) (hx : l.current.get? address = some x)
    (w : FieldWrite address) (hw : w.Fits store l x) :
    ∃ l', (revise store address w.change >>= fun _ => modify (record w.entry)) l = (.ok (), l') ∧
      Evolves store l l' ∧ l'.codes = l.codes ∧
      l'.report store = Function.update (l.report store) address
        (.ok (w.changeReport ((x.report store address).enliven store address))) := by
  -- What the report shows is settled before the journal is looked at.
  obtain ⟨before, hb⟩ := h.coherent.initial_of_cached hx
  have hreport : Accounts.report store (l.current.insert address (w.change x.enlivened)) =
      Function.update (l.report store) address
        (.ok (w.changeReport ((x.report store address).enliven store address))) := by
    rw [Accounts.report_insert, w.change_shows.report,
      (h.coherent.faithful hx hb).report_enlivened]
    rfl
  rw [Attempt.bind_of_ok (revise_of_cached hx w.change)]
  refine ⟨_, rfl, ?_, rfl, hreport⟩
  -- An account that was absent has an entry of its own.
  cases hp : x.present with
  | true => exact evolves_write_present h hx hp hw
  | false => exact evolves_write_absent h hx hw

end Ledger

/-! ### The parts of an account -/

namespace FieldWrite

variable {l : Ledger} {x : CachedAccount}

/-- Writing the balance. -/
def balance (address : Address) (previous balance : Word) : FieldWrite address where
  entry := .balance address previous
  change := .setBalance balance
  back := .setBalance previous
  changeReport := .mapInfo ({ · with balance })
  backReport := .mapInfo ({ · with balance := previous })
  change_shows := .setBalance balance
  back_shows := .setBalance previous
  undo_eq _ := rfl

/-- Writing the nonce. -/
def nonce (address : Address) (previous nonce : UInt64) : FieldWrite address where
  entry := .nonce address previous
  change := .setNonce nonce
  back := .setNonce previous
  changeReport := .mapInfo ({ · with nonce })
  backReport := .mapInfo ({ · with nonce := previous })
  change_shows := .setNonce nonce
  back_shows := .setNonce previous
  undo_eq _ := rfl

/-- Writing the digest of the code. -/
def codeHash (address : Address) (previous codeHash : Hash) : FieldWrite address where
  entry := .code address previous
  change := .setCodeHash codeHash
  back := .setCodeHash previous
  changeReport := .mapInfo ({ · with codeHash })
  backReport := .mapInfo ({ · with codeHash := previous })
  change_shows := .setCodeHash codeHash
  back_shows := .setCodeHash previous
  undo_eq _ := rfl

/-- Writing a slot. -/
def slot (address : Address) (key : Hash) (previous value : Word) : FieldWrite address where
  entry := .storage address key previous
  change := .setSlot key value
  back := .setSlot key previous
  changeReport := .setSlot key value
  backReport := .setSlot key previous
  change_shows := .setSlot key value
  back_shows := .setSlot key previous
  undo_eq _ := rfl

theorem balance_fits (l : Ledger) (x : CachedAccount) (b : Word) :
    (balance address x.info.balance b).Fits store l x where
  undoes _ := rfl
  slots key hk := by rcases hk with hk | hk <;> cases hk
  code y hy := .inl (by rw [← hy]; rfl)
  backCode y hy := by rw [← hy]; rfl

theorem nonce_fits (l : Ledger) (x : CachedAccount) (n : UInt64) :
    (nonce address x.info.nonce n).Fits store l x where
  undoes _ := rfl
  slots key hk := by rcases hk with hk | hk <;> cases hk
  code y hy := .inl (by rw [← hy]; rfl)
  backCode y hy := by rw [← hy]; rfl

theorem codeHash_fits (x : CachedAccount) {h : Hash} (hh : HasCode l.codes h) :
    (codeHash address x.info.codeHash h).Fits store l x where
  undoes _ := rfl
  slots key hk := by rcases hk with hk | hk <;> cases hk
  code _ _ := .inr hh
  backCode _ _ := rfl

theorem slot_fits {key : Hash} {previous : Word} (value : Word)
    (hs : x.present → x.slotOver store address key = .ok previous)
    (hread : l.SlotRead address key) : (slot address key previous value).Fits store l x where
  -- Only the written slot can have come into the cache, and that one had been read.
  undoes hp := Report.setSlot_setSlot (hs hp) value
  slots key' hk := by
    have hkey : key' = key := by
      -- No other slot is cached by the write, nor by taking it back.
      by_contra hne
      have hnone : ∀ v, (CachedAccount.setSlot key v {}).storage.get? key' = none :=
        fun v => WordMap.get?_insert_of_ne ∅ v hne
      rcases hk with hk | hk
      · rw [show (slot address key previous value).change = .setSlot key value from rfl,
          hnone] at hk
        cases hk
      · rw [show (slot address key previous value).back = .setSlot key previous from rfl,
          hnone] at hk
        cases hk
    rw [hkey]
    exact hread
  code y hy := .inl (by rw [← hy]; rfl)
  backCode y hy := by rw [← hy]; rfl

end FieldWrite

/-! ### The writing operations -/

/-- An account that a write has **brought into existence**, and nothing else of the write: it is
there with the info it had while it was absent, and a slot holds what it held then or what the store
has. -/
structure Report.Enlivened (store : Store) (address : Address) (before after : Report) : Prop where
  absent : before.present = false
  present : after.present = true
  info : after.info = before.info
  fresh : after.fresh = before.fresh
  slot : ∀ key, after.slot key = before.slot key ∨ after.slot key = store.slot address key

namespace Report

variable {r after : Report}

theorem enlivened_enliven (h : r.present = false) :
    r.Enlivened store address (r.enliven store address) where
  absent := h
  present := rfl
  info := rfl
  fresh := rfl
  slot key := by
    right
    simp only [enliven, h, Bool.false_eq_true, if_false]

/-- A slot that is put back. -/
theorem Enlivened.setSlot (h : r.Enlivened store address after) {key : Hash} {value : Word}
    (hv : r.slot key = .ok value) : r.Enlivened store address (after.setSlot key value) where
  absent := h.absent
  present := h.present
  info := h.info
  fresh := h.fresh
  slot key' := by
    by_cases hkey : key' = key
    · left
      rw [hkey, hv]
      exact Function.update_self ..
    · have hsame : (after.setSlot key value).slot key' = after.slot key' :=
        Function.update_of_ne hkey ..
      rw [hsame]
      exact h.slot key'

end Report


/-- What a write makes of a report: the error that stops it, or the change of the report once the
account has been brought into existence. -/
abbrev Change := Report → Except InternalError (Report → Report)

namespace Change

def create : Change := fun r => .ok fun _ => .created r.info.balance

/-- A balance is moved to where `f` says, unless it says that there is no such balance. -/
def moveBalance (f : Word → Option Word) (failure : InternalError) : Change := fun r =>
  match f r.info.balance with
  | some balance => .ok (.mapInfo ({ · with balance }))
  | none => .error failure

def addBalance (amount : Word) : Change := moveBalance (·.add? amount) .overflow

def subBalance (amount : Word) : Change := moveBalance (·.sub? amount) .underflow

def setNonce (nonce : UInt64) : Change := fun _ => .ok (.mapInfo ({ · with nonce }))

def setCode (code : Bytes) : Change := fun _ =>
  .ok (.mapInfo ({ · with codeHash := keccak code }))

/-- The content before is read first, because undoing the write takes it. -/
def setSlot (key : Hash) (value : Word) : Change := fun r =>
  match r.slot key with
  | .ok _ => .ok (.setSlot key value)
  | .error e => .error (.store e)

/-- The report after a write. -/
def apply (store : Store) (address : Address) (f : Change) (r : Except StoreError Report) :
    Except InternalError Report :=
  match r with
  | .error e => .error (.store e)
  | .ok r => (f r).map fun g => g (r.enliven store address)

end Change

/-- The reports after a write to an address. A write that is stopped changes none of them. -/
def reportsAfter (ρ : Address → Except StoreError Report) (address : Address)
    (r : Except InternalError Report) : Address → Except StoreError Report :=
  match r with
  | .ok r => Function.update ρ address (.ok r)
  | .error _ => ρ

namespace Ledger

variable {l l₁ : Ledger}

/-- A step from `l` that writes as `f` says. The only code that it may put at hand is `new`. -/
def WritesAs (store : Store) (l : Ledger) (address : Address) (f : Change) (new : Option Bytes)
    (m : Step Unit) : Prop :=
  ∃ l', m l = ((f.apply store address (l.report store address)).map fun _ => (), l') ∧
    Evolves store l l' ∧
    l'.report store = reportsAfter (l.report store) address
      (f.apply store address (l.report store address)) ∧
    ∀ {k code}, l'.codes.get? k = some code →
      l.codes.get? k = some code ∨ (new = some code ∧ k = keccak code)

/-- A step that is stopped has only looked. -/
theorem WritesAs.of_error {f : Change} {new : Option Bytes} {m : Step Unit} {e : InternalError}
    (hl : LooksAt store address l l₁) (hm : m l = (.error e, l₁))
    (hf : f.apply store address (l.report store address) = .error e) :
    WritesAs store l address f new m := by
  refine ⟨l₁, ?_, hl.evolves, ?_, fun hk => .inl (hl.codes ▸ hk)⟩
  · rw [hm, hf]
    rfl
  · rw [hf]
    exact hl.report

/-- A write that fails shows nothing. -/
theorem WritesAs.report_of_error {f : Change} {new : Option Bytes} {m : Step Unit}
    {e : InternalError} (hm : WritesAs store l address f new m) (h : m l = (.error e, l₁)) :
    l₁.report store = l.report store := by
  obtain ⟨l', heq, -, hreport, -⟩ := hm
  obtain ⟨hanswer, rfl⟩ := Prod.mk.inj (heq.symm.trans h)
  rw [hreport]
  cases hf : f.apply store address (l.report store address) with
  | error e' => rfl
  | ok r =>
    rw [hf] at hanswer
    cases hanswer

/-- A step that looks at an account and then writes a part of it. -/
theorem WritesAs.of_write {f : Change} {new : Option Bytes} {m : Step Unit} {r : Report}
    {x : CachedAccount} {w : FieldWrite address} (hl : Looks store l l₁)
    (hr : l.report store address = .ok r) (hx : l₁.current.get? address = some x)
    (hxr : x.report store address = r) (hw : w.Fits store l₁ x)
    (hm : m l = (revise store address w.change >>= fun _ => modify (record w.entry)) l₁)
    (hf : f r = .ok w.changeReport)
    (hcodes : ∀ {k code}, l₁.codes.get? k = some code →
      l.codes.get? k = some code ∨ (new = some code ∧ k = keccak code)) :
    WritesAs store l address f new m := by
  -- The look puts nothing but the account there; all that is written is written by `revise`.
  obtain ⟨l', hl', hevolves, hkeep, hreport⟩ := revise_record hl.sound hx w hw
  have happly : f.apply store address (l.report store address) =
      .ok (w.changeReport (r.enliven store address)) := by
    rw [hr, Change.apply, hf]
    rfl
  refine ⟨l', ?_, hl.evolves.trans hevolves, ?_, fun hk => hcodes (hkeep ▸ hk)⟩
  · rw [hm, hl', happly]
    rfl
  · rw [happly, hreport, hxr, hl.report]
    rfl

/-- The **ways in which a write may go**. -/
inductive WayToWrite (store : Store) (l : Ledger) (address : Address) (f : Change)
    (new : Option Bytes) (m : Step Unit) : Prop
  /-- It is stopped, and has only looked. -/
  | stopped {l₁ : Ledger} {e : InternalError} (hl : LooksAt store address l l₁)
    (hm : m l = (.error e, l₁)) (hf : f.apply store address (l.report store address) = .error e)
  /-- It looks at an account and then writes a part of it. An account that was absent is still there
  when no more than that part has been put back. -/
  | part {l₁ : Ledger} {r : Report} {x : CachedAccount} {w : FieldWrite address}
    (hl : Looks store l l₁) (hr : l.report store address = .ok r)
    (hx : l₁.current.get? address = some x) (hxr : x.report store address = r)
    (hw : w.Fits store l₁ x)
    (hm : m l = (revise store address w.change >>= fun _ => modify (record w.entry)) l₁)
    (hf : f r = .ok w.changeReport)
    (hcodes : ∀ {k code}, l₁.codes.get? k = some code →
      l.codes.get? k = some code ∨ (new = some code ∧ k = keccak code))
    (hback : r.present = false →
      r.Enlivened store address (w.backReport (w.changeReport (r.enliven store address))))
  /-- It puts a fresh account in place of whatever was there, which its entry keeps whole. -/
  | anew {l₁ : Ledger} {x : CachedAccount} (hl : LooksAt store address l l₁)
    (hr : l.report store address = .ok (x.report store address))
    (hx : l₁.current.get? address = some x)
    (hm : m l = (.ok (), { l₁ with
      current := l₁.current.insert address
        { info := { balance := x.info.balance }, present := true, status := .created }
      journal := l₁.journal.record (.created address x) }))
    (hf : f = .create)

/-- Whichever way it goes, a write evolves the ledger and changes the reports as it should. -/
theorem WayToWrite.writesAs {f : Change} {new : Option Bytes} {m : Step Unit}
    (h : WayToWrite store l address f new m) : WritesAs store l address f new m := by
  cases h with
  | stopped hl hm hf => exact .of_error hl hm hf
  | part hl hr hx hxr hw hm hf hcodes _ => exact .of_write hl hr hx hxr hw hm hf hcodes
  -- An account made afresh is the only write that is not of one part.
  | @anew l₁ x hl hr hx hm hf =>
    subst hf
    obtain ⟨before, hb⟩ := hl.sound.coherent.initial_of_cached hx
    let fresh : CachedAccount :=
      { info := { balance := x.info.balance }, present := true, status := .created }
    -- Nothing is owed to what was read: the storage does not count, and there is no code.
    have hfresh : fresh.Faithful store address l₁.codes before :=
      .of_marked rfl rfl (fun _ hf => by cases hf) (.inr (.inl rfl))
    -- Its entry holds the account as it was, so one step takes all of it back.
    have hundo : (JournalEntry.created address x).undo (l₁.current.insert address fresh) =
        .ok (l₁.current.insert address x) := by
      simp only [JournalEntry.undo, WordMap.insert_insert]
    have hcurrent := hl.sound.coherent.insert hb hfresh
    have hback := hl.sound.coherent.insert hb (hl.sound.coherent.faithful hx hb)
    have hevolves : Evolves store l₁ { l₁ with
        current := l₁.current.insert address fresh
        journal := l₁.journal.record (.created address x) } :=
      .of_entries [.created address x] hl.sound rfl rfl rfl (JournalEntry.undoAll_cons hundo [])
        (.insert_right hx rfl id) (fun hrest => ⟨hcurrent, _, hundo, hrest⟩) hback
    refine ⟨_, ?_, hl.evolves.trans hevolves, ?_, fun hk => .inl (hl.codes ▸ hk)⟩
    · rw [hm, hr]
      rfl
    · rw [hr, ← hl.report]
      exact Accounts.report_insert store l₁.current address fresh

theorem moveBalance_way (h : l.Sound store) (address : Address) (f : Word → Option Word)
    (failure : InternalError) :
    WayToWrite store l address (.moveBalance f failure) none (do
      let previous ← balance store address
      match f previous with
      | some balance => setBalance store address previous balance
      | none => throw failure) := by
  obtain ⟨l₁, hb, hl⟩ := balance_spec h address
  -- A balance that cannot be read stops the move before the function is asked.
  cases hr : l.report store address with
  | error e =>
    rw [hr] at hb
    exact .stopped hl (Attempt.bind_of_error hb) (by rw [hr]; rfl)
  | ok r =>
    rw [hr] at hb
    obtain ⟨x, hx, rfl⟩ := hl.cached hr
    cases ha : f x.info.balance with
    | none =>
      -- By now the balance has been read, and nothing else is done.
      refine .stopped hl (e := failure) ?_ ?_
      · rw [Attempt.bind_of_ok hb]
        simp only [CachedAccount.report_info, ha, Attempt.throw_apply]
      · simp only [hr, Change.apply, Change.moveBalance, CachedAccount.report_info, ha, Except.map]
    | some balance =>
      refine .part hl.toLooks hr hx rfl (FieldWrite.balance_fits l₁ x balance) ?_ ?_
        (fun hk => .inl (hl.codes ▸ hk)) Report.enlivened_enliven
      · rw [Attempt.bind_of_ok hb]
        simp only [CachedAccount.report_info, ha]
        rfl
      · simp only [Change.moveBalance, CachedAccount.report_info, ha]
        rfl

theorem moveBalance_spec (h : l.Sound store) (address : Address) (f : Word → Option Word)
    (failure : InternalError) :
    WritesAs store l address (.moveBalance f failure) none (do
      let previous ← balance store address
      match f previous with
      | some balance => setBalance store address previous balance
      | none => throw failure) :=
  (moveBalance_way h address f failure).writesAs

theorem addBalance_spec (h : l.Sound store) (address : Address) (amount : Word) :
    WritesAs store l address (.addBalance amount) none (addBalance store address amount) :=
  moveBalance_spec h address (·.add? amount) .overflow

theorem subBalance_spec (h : l.Sound store) (address : Address) (amount : Word) :
    WritesAs store l address (.subBalance amount) none (subBalance store address amount) :=
  moveBalance_spec h address (·.sub? amount) .underflow

theorem setNonce_way (h : l.Sound store) (address : Address) (value : UInt64) :
    WayToWrite store l address (.setNonce value) none (setNonce store address value) := by
  obtain ⟨l₁, hn, hl⟩ := nonce_spec h address
  cases hr : l.report store address with
  | error e =>
    rw [hr] at hn
    exact .stopped hl (Attempt.bind_of_error hn) (by rw [hr]; rfl)
  | ok r =>
    rw [hr] at hn
    obtain ⟨x, hx, rfl⟩ := hl.cached hr
    exact .part hl.toLooks hr hx rfl (FieldWrite.nonce_fits l₁ x value)
      (Attempt.bind_of_ok hn) rfl (fun hk => .inl (hl.codes ▸ hk)) Report.enlivened_enliven

theorem setNonce_spec (h : l.Sound store) (address : Address) (value : UInt64) :
    WritesAs store l address (.setNonce value) none (setNonce store address value) :=
  (setNonce_way h address value).writesAs

theorem setCode_way (h : l.Sound store) (address : Address) (code : Bytes) :
    WayToWrite store l address (.setCode code) (some code) (setCode store address code) := by
  obtain ⟨l₁, hc, hl⟩ := codeHash_spec h address
  -- As with a balance, the read comes first and may fail.
  cases hr : l.report store address with
  | error e =>
    rw [hr] at hc
    exact .stopped hl (Attempt.bind_of_error hc) (by rw [hr]; rfl)
  | ok r =>
    rw [hr] at hc
    obtain ⟨x, hx, rfl⟩ := hl.cached hr
    -- The code is put at hand before the account is changed, so its digest is covered by then.
    have hput : Looks store l₁ (l₁.putCode (keccak code) code) :=
      .of_codes hl.sound (.insert_keccak l₁.codes code)
    have hhas : HasCode (l₁.putCode (keccak code) code).codes (keccak code) :=
      ⟨code, WordMap.get?_insert_self _ _ _, rfl⟩
    refine .part (hl.toLooks.trans hput) hr hx rfl (FieldWrite.codeHash_fits x hhas)
      (Attempt.bind_of_ok hc) rfl (fun {k code'} hk => ?_) Report.enlivened_enliven
    -- Code found later is this one, or was at hand before.
    simp only [putCode, WordMap.get?_insert] at hk
    by_cases hkc : k = keccak code
    · rw [if_pos hkc] at hk
      exact .inr ⟨hk, by rw [hkc, Option.some.inj hk]⟩
    · rw [if_neg hkc, hl.codes] at hk
      exact .inl hk

theorem setCode_spec (h : l.Sound store) (address : Address) (code : Bytes) :
    WritesAs store l address (.setCode code) (some code) (setCode store address code) :=
  (setCode_way h address code).writesAs

theorem setSlot_way (h : l.Sound store) (address : Address) (key : Hash) (value : Word) :
    WayToWrite store l address (.setSlot key value) none (setSlot store address key value) := by
  -- The content before is read for the entry, so the slot has been read when it is written.
  obtain ⟨l₁, hs, hl, hread⟩ := slot_spec h address key
  cases hr : l.report store address with
  | error e =>
    rw [hr] at hs
    exact .stopped hl (Attempt.bind_of_error hs) (by rw [hr]; rfl)
  | ok r =>
    rw [hr] at hs hread
    change slot store address key l = (asked (r.slot key), l₁) at hs
    cases hv : r.slot key with
    | error e =>
      rw [hv] at hs
      refine .stopped hl (Attempt.bind_of_error hs) ?_
      simp only [hr, Change.apply, Change.setSlot, hv, Except.map]
    | ok previous =>
      rw [hv] at hs
      obtain ⟨x, hx, rfl⟩ := hl.cached hr
      refine .part hl.toLooks hr hx rfl (FieldWrite.slot_fits value (fun _ => hv) (hread hv))
        (Attempt.bind_of_ok hs) (by simp only [Change.setSlot, hv]; rfl)
        (fun hk => .inl (hl.codes ▸ hk)) fun habsent => ?_
      -- The slot gets what it held while the account was absent, whatever the store has there.
      have hput : Report.Enlivened store address _ _ :=
        (Report.enlivened_enliven habsent).setSlot hv
      simpa only [FieldWrite.slot, Report.setSlot, Function.update_idem] using hput

theorem setSlot_spec (h : l.Sound store) (address : Address) (key : Hash) (value : Word) :
    WritesAs store l address (.setSlot key value) none (setSlot store address key value) :=
  (setSlot_way h address key value).writesAs

theorem createAccount_way (h : l.Sound store) (address : Address) :
    WayToWrite store l address .create none (createAccount store address) := by
  rcases load_spec h address with ⟨x, l₁, hload, hx, hr, hl⟩ | ⟨e, hload, hr⟩
  · exact .anew hl hr hx (Attempt.bind_of_ok hload) rfl
  · have hl : LooksAt store address l l := ⟨.refl h, rfl, fun hr' => by rw [hr] at hr'; cases hr'⟩
    exact .stopped hl (Attempt.bind_of_error hload) (by rw [hr]; rfl)

theorem createAccount_spec (h : l.Sound store) (address : Address) :
    WritesAs store l address .create none (createAccount store address) :=
  (createAccount_way h address).writesAs

end Ledger

end MessageCall
