import MessageCall.Proofs.Lockstep
import MessageCall.Proofs.State.Operations
import MessageCall.Proofs.State.Updates
import MessageCall.State.View
import Mathlib.Data.List.Forall2

/-!
# Ledgers that differ in marks

Going back undoes what was written to an account, but it does not take away the mark that the
account has been written to. So two executions of which one has done more, and undone it again, end
in ledgers that hold the same accounts with different marks. The same is true while the additional
entries are still in the journal, if they are such that nothing is changed by them.

`Ledger.Twins` says that two ledgers differ in nothing but marks and in what lies below given
positions of their journals. No operation tells them apart (`Ledger.perform_even`), and going
back to those positions is alike too (`Ledger.revertTo_mirrors`). In the end the marks make no
difference to the net effect either: an account that is marked without having changed is compared
with what was first read of it, and no difference is found (`Ledger.Sound.transitions_marked`). So
twins have the same answers (`Ledger.Twins.sameAnswers`).
-/

namespace MessageCall

open Attempt

/-! ### Accounts -/

namespace CachedAccount

/-- The same account, but one of the two may be marked as written. -/
def Twin (x y : CachedAccount) : Prop := x.markModified = y.markModified

@[simp] theorem markModified_setBalance (x : CachedAccount) (balance : Word) :
    (x.setBalance balance).markModified = x.markModified.setBalance balance := by
  unfold markModified isUnmodified setBalance
  split <;> rfl

@[simp] theorem markModified_setNonce (x : CachedAccount) (nonce : UInt64) :
    (x.setNonce nonce).markModified = x.markModified.setNonce nonce := by
  unfold markModified isUnmodified setNonce
  split <;> rfl

@[simp] theorem markModified_setCodeHash (x : CachedAccount) (codeHash : Hash) :
    (x.setCodeHash codeHash).markModified = x.markModified.setCodeHash codeHash := by
  unfold markModified isUnmodified setCodeHash
  split <;> rfl

@[simp] theorem markModified_setSlot (x : CachedAccount) (key : Hash) (value : Word) :
    (x.setSlot key value).markModified = x.markModified.setSlot key value := by
  unfold markModified isUnmodified setSlot
  split <;> rfl

@[simp] theorem markModified_markModified (x : CachedAccount) :
    x.markModified.markModified = x.markModified := by
  have h := x.markModified_isUnmodified
  generalize x.markModified = y at h ⊢
  unfold markModified
  rw [h]
  rfl

/-- An unmarked account has not been created anew. -/
theorem fresh_of_unmarked {x : CachedAccount} (h : x.isUnmodified = true) :
    x.storageIsFresh = false := by
  unfold isUnmodified at h
  unfold storageIsFresh
  rw [of_decide_eq_true h]
  rfl

namespace Twin

variable {x y : CachedAccount}

theorem info (h : x.Twin y) : x.info = y.info := by
  rw [← x.markModified_info, h, markModified_info]

theorem storage (h : x.Twin y) : x.storage = y.storage := by
  rw [← x.markModified_storage, h, markModified_storage]

theorem present (h : x.Twin y) : x.present = y.present := by
  rw [← x.markModified_present, h, markModified_present]

theorem fresh (h : x.Twin y) : x.storageIsFresh = y.storageIsFresh := by
  rw [← x.markModified_fresh, h, markModified_fresh]

/-- What a write changes is the same after the write, which marks the account in any case. -/
theorem enlivened (h : x.Twin y) : x.enlivened = y.enlivened := by
  have hmarked : ∀ z : CachedAccount, z.enlivened = { z.markModified with present := true } := by
    intro z
    unfold CachedAccount.enlivened markModified isUnmodified
    split <;> rfl
  rw [hmarked, hmarked, h]

end Twin

end CachedAccount

/-- The accounts with all of them marked as written. -/
def Accounts.marked (c : Accounts) : Accounts := c.mapValues CachedAccount.markModified

/-- The same accounts, but for marks. -/
def Accounts.Twin (c c' : Accounts) : Prop := c.marked = c'.marked

namespace Accounts.Twin

variable {c c' : Accounts} {address : Address} {x y : CachedAccount}

/-- Twins hold twins. -/
theorem get? (h : c.Twin c') (address : Address) :
    Option.Rel CachedAccount.Twin (c.get? address) (c'.get? address) := by
  have hmarked : (c.get? address).map CachedAccount.markModified =
      (c'.get? address).map CachedAccount.markModified := by
    rw [← WordMap.get?_mapValues, ← WordMap.get?_mapValues]
    exact congrArg (WordMap.get? · address) h
  generalize c.get? address = r at hmarked ⊢
  generalize c'.get? address = r' at hmarked ⊢
  cases r with
  | none =>
    cases r' with
    | none => exact .none
    | some y => cases hmarked
  | some x =>
    cases r' with
    | none => cases hmarked
    | some y => exact .some (Option.some.inj hmarked)

theorem insert (h : c.Twin c') (address : Address) (hxy : x.Twin y) :
    Accounts.Twin (c.insert address x) (c'.insert address y) := by
  refine WordMap.ext_get? fun b => ?_
  have hb := congrArg (WordMap.get? · b) h
  unfold Accounts.marked at hb ⊢
  simp only [WordMap.get?_mapValues, WordMap.get?_insert] at hb ⊢
  split
  · exact congrArg some hxy
  · exact hb

/-- Putting a twin in place of an account changes marks at most. -/
theorem insert_left (h : c.Twin c') (hy : c'.get? address = some y) (hxy : x.Twin y) :
    Accounts.Twin (c.insert address x) c' := by
  have hsame : c'.insert address y = c' := by
    refine WordMap.ext_get? fun b => ?_
    rw [WordMap.get?_insert]
    split
    · next hb => rw [hb, hy]
    · rfl
  rw [← hsame]
  exact h.insert address hxy

theorem amend (h : c.Twin c') (address : Address) {f : CachedAccount → CachedAccount}
    (hf : ∀ x, (f x).markModified = f x.markModified) :
    Ends Accounts.Twin (c.amend address f) (c'.amend address f) := by
  have hget := h.get? address
  unfold Accounts.amend
  generalize c.get? address = r at hget ⊢
  generalize c'.get? address = r' at hget ⊢
  cases hget with
  | none => exact .error _
  | some hxy =>
    -- A write that does not look at the mark takes twins to twins.
    refine .ok (h.insert address ?_)
    unfold CachedAccount.Twin
    rw [hf, hf, hxy]

end Accounts.Twin

/-! ### Journals -/

/-- The same entry, but for the mark of an account that it puts back. -/
inductive JournalEntry.Twin : JournalEntry → JournalEntry → Prop
  | same (e : JournalEntry) : Twin e e
  | created (address : Address) {x y : CachedAccount} (h : x.Twin y) :
    Twin (.created address x) (.created address y)

theorem JournalEntry.Twin.undo {e e' : JournalEntry} {c c' : Accounts} (he : e.Twin e')
    (h : c.Twin c') : Ends Accounts.Twin (e.undo c) (e'.undo c') := by
  cases he with
  | created address hxy => exact .ok (h.insert address hxy)
  | same =>
    cases e with
    | created address previous => exact .ok (h.insert address rfl)
    | balance address previous => exact h.amend address (by simp)
    | nonce address previous => exact h.amend address (by simp)
    | code address previous => exact h.amend address (by simp)
    | storage address key previous => exact h.amend address (by simp)

/-- The entries of two journals above given ones are the same, but for marks. -/
def EntriesTwin (below below' entries entries' : List JournalEntry) : Prop :=
  ∃ es es', List.Forall₂ JournalEntry.Twin es es' ∧ entries = es ++ below ∧
    entries' = es' ++ below'

namespace EntriesTwin

variable {below below' entries entries' : List JournalEntry}

theorem refl (below below' : List JournalEntry) : EntriesTwin below below' below below' :=
  ⟨[], [], .nil, rfl, rfl⟩

theorem cons (h : EntriesTwin below below' entries entries') {e e' : JournalEntry}
    (he : e.Twin e') : EntriesTwin below below' (e :: entries) (e' :: entries') := by
  obtain ⟨es, es', hes, rfl, rfl⟩ := h
  exact ⟨e :: es, e' :: es', .cons he hes, rfl, rfl⟩

theorem trans {above above' : List JournalEntry} (h : EntriesTwin below below' entries entries')
    (h' : EntriesTwin entries entries' above above') : EntriesTwin below below' above above' := by
  obtain ⟨es, es', hes, rfl, rfl⟩ := h
  obtain ⟨fs, fs', hfs, rfl, rfl⟩ := h'
  exact ⟨fs ++ es, fs' ++ es', List.rel_append hfs hes, by simp, by simp⟩

/-- **Undoing the entries above** is alike. -/
theorem unwind (below below' : List JournalEntry) {es es' : List JournalEntry}
    (hes : List.Forall₂ JournalEntry.Twin es es') {c c' : Accounts} (h : c.Twin c') :
    let undone := Journal.unwind es.length (es ++ below) c
    let undone' := Journal.unwind es'.length (es' ++ below') c'
    undone.1 = undone'.1 ∧ EntriesTwin below below' undone.2.1 undone'.2.1 ∧
      undone.2.2.Twin undone'.2.2 := by
  -- By the entries, which go back in pairs.
  induction hes generalizing c c' with
  | nil => exact ⟨rfl, refl _ _, h⟩
  | @cons e e' es es' he hes ih =>
    have hundo := he.undo h
    simp only [List.length_cons, List.cons_append, Journal.unwind]
    generalize e.undo c = r at hundo ⊢
    generalize e'.undo c' = r' at hundo ⊢
    cases hundo with
    | ok h => exact ih h
    | error error =>
      -- Where an entry cannot be undone, going back stops in front of it on both sides.
      exact ⟨rfl, ⟨es, es', hes, rfl, rfl⟩, h⟩

end EntriesTwin

/-! ### Ledgers -/

namespace Ledger

/-- Two ledgers are the same but for marks, and but for what lies below in their journals. -/
structure Twins (below below' : List JournalEntry) (l l' : Ledger) : Prop where
  current : l.current.Twin l'.current
  initial : l.initial = l'.initial
  codes : l.codes = l'.codes
  journal : EntriesTwin below below' l.journal.entries l'.journal.entries

variable {store : Store} {below below' : List JournalEntry} {l l' : Ledger}

namespace Twins

theorem refl (l : Ledger) : Twins l.journal.entries l.journal.entries l l :=
  ⟨rfl, rfl, rfl, .refl _ _⟩

theorem putCurrent (h : Twins below below' l l') (address : Address) {x y : CachedAccount}
    (hxy : x.Twin y) :
    Twins below below' (l.putCurrent address x) (l'.putCurrent address y) :=
  ⟨h.current.insert address hxy, h.initial, h.codes, h.journal⟩

theorem record (h : Twins below below' l l') {e e' : JournalEntry} (he : e.Twin e') :
    Twins below below' (l.record e) (l'.record e') :=
  ⟨h.current, h.initial, h.codes, h.journal.cons he⟩

/-- What has happened by now may be taken for what lies below. -/
theorem rebase (h : Twins below below' l l') :
    Twins l.journal.entries l'.journal.entries l l' :=
  ⟨h.current, h.initial, h.codes, .refl _ _⟩

/-- What lies below the present is below what comes. -/
theorem weaken (h : Twins below below' l l') {m m' : Ledger}
    (h' : Twins l.journal.entries l'.journal.entries m m') : Twins below below' m m' :=
  ⟨h'.current, h'.initial, h'.codes, h.journal.trans h'.journal⟩

end Twins

/-- The step does not tell twins apart. -/
abbrev Step.Even {α : Type} (below below' : List JournalEntry) (x : Step α) : Prop :=
  x.Mirrors (Twins below below') Eq x

/-! ### Reading -/

theorem load_mirrors (address : Address) :
    (load store address).Mirrors (Twins below below') CachedAccount.Twin (load store address) := by
  intro l l' h
  have hget := h.current.get? address
  unfold load
  generalize l.current.get? address = r at hget ⊢
  generalize l'.current.get? address = r' at hget ⊢
  cases hget with
  | some hxy => exact ⟨.ok hxy, h⟩
  | none =>
    -- What was first read is the same on both sides, and so is what is read now.
    rw [h.initial]
    dsimp only
    cases l'.initial.get? address with
    | some account => exact ⟨.ok rfl, h.putCurrent address rfl⟩
    | none =>
      cases store.account address with
      | error e => exact ⟨.error _, h⟩
      | ok stored =>
        refine ⟨.ok rfl, h.current.insert address rfl, ?_, h.codes, h.journal⟩
        exact congrArg (WordMap.insert · address _) h.initial

theorem codeOf_even (codeHash : Hash) : (codeOf store codeHash).Even below below' := by
  intro l l' h
  unfold codeOf
  rw [h.codes]
  split
  · exact ⟨.ok rfl, h⟩
  · cases l'.codes.get? codeHash with
    | some code => exact ⟨.ok rfl, h⟩
    | none =>
      dsimp only
      cases store.code codeHash with
      | error e => exact ⟨.error _, h⟩
      | ok code =>
        refine ⟨.ok rfl, h.current, h.initial, ?_, h.journal⟩
        exact congrArg (WordMap.insert · codeHash code) h.codes

theorem loadSlot_even (address : Address) (key : Hash) :
    (loadSlot store address key).Even below below' := by
  intro l l' h
  unfold loadSlot
  cases store.slot address key with
  | error e => exact ⟨.error _, h⟩
  | ok value =>
    rw [h.initial]
    dsimp only
    cases l'.initial.get? address with
    | none => exact ⟨.error _, h⟩
    | some account => exact ⟨.ok rfl, h.current, rfl, h.codes, h.journal⟩

theorem accountExists_even (address : Address) :
    (Ledger.accountExists store address).Even below below' :=
  .bind_of (load_mirrors address) fun _ _ hxy => .pure hxy.present

theorem account_even (address : Address) : (Ledger.account store address).Even below below' :=
  .bind_of (load_mirrors address) fun _ _ hxy => .pure hxy.info

theorem balance_even (address : Address) : (Ledger.balance store address).Even below below' :=
  .bind (account_even address) fun _ => .pure rfl

theorem nonce_even (address : Address) : (Ledger.nonce store address).Even below below' :=
  .bind (account_even address) fun _ => .pure rfl

theorem codeHash_even (address : Address) : (Ledger.codeHash store address).Even below below' :=
  .bind (account_even address) fun _ => .pure rfl

theorem code_even (address : Address) : (Ledger.code store address).Even below below' :=
  .bind (codeHash_even address) fun _ => codeOf_even _

theorem slot_even (address : Address) (key : Hash) :
    (Ledger.slot store address key).Even below below' := by
  refine .bind_of (load_mirrors address) fun x y hxy => ?_
  rw [hxy.storage]
  cases y.storage.get? key with
  | some value => exact .pure rfl
  | none =>
    dsimp only
    rw [hxy.present, hxy.fresh]
    refine .ite (.pure rfl) (.bind (loadSlot_even address key) fun value => ?_)
    refine .bind_of (load_mirrors address) fun x y hxy => .bind (.modify fun l l' h => ?_) fun _ =>
      .pure rfl
    refine h.putCurrent address ?_
    unfold CachedAccount.Twin
    rw [CachedAccount.markModified_setSlot, hxy, CachedAccount.markModified_setSlot]

/-! ### Writing -/

theorem record_even (entry : JournalEntry) :
    (modify (Ledger.record entry) : Step PUnit).Even below below' :=
  .modify fun _ _ h => h.record (.same entry)

theorem revise_even (address : Address) (f : CachedAccount → CachedAccount) :
    (revise store address f).Even below below' := by
  refine .bind_of (load_mirrors address) fun x y hxy => ?_
  have hput : (modify (Ledger.putCurrent address (f x.enlivened)) : Step PUnit).Mirrors
      (Twins below below') Eq (modify (Ledger.putCurrent address (f y.enlivened))) :=
    .modify fun _ _ h => h.putCurrent address (by rw [hxy.enlivened]; rfl)
  dsimp only
  rw [hxy.present]
  split
  · exact hput
  · -- The account is brought into existence, which is noted first.
    exact .bind (.modify fun _ _ h => h.record (.created address hxy)) fun _ => hput

theorem createAccount_even (address : Address) :
    (Ledger.createAccount store address).Even below below' := by
  refine .bind_of (load_mirrors address) fun x y hxy => ?_
  refine .bind (.modify fun l l' h => h.record (.created address hxy)) fun _ => ?_
  rw [hxy.info]
  exact .modify fun l l' h => h.putCurrent address rfl

theorem setBalance_even (address : Address) (previous balance : Word) :
    (Ledger.setBalance store address previous balance).Even below below' :=
  .bind (revise_even address _) fun _ => record_even _

theorem addBalance_even (address : Address) (amount : Word) :
    (Ledger.addBalance store address amount).Even below below' := by
  refine .bind (balance_even address) fun previous => ?_
  cases previous.add? amount with
  | some balance => exact setBalance_even address previous balance
  | none => exact .throw _

theorem subBalance_even (address : Address) (amount : Word) :
    (Ledger.subBalance store address amount).Even below below' := by
  refine .bind (balance_even address) fun previous => ?_
  cases previous.sub? amount with
  | some balance => exact setBalance_even address previous balance
  | none => exact .throw _

theorem setNonce_even (address : Address) (value : UInt64) :
    (Ledger.setNonce store address value).Even below below' :=
  .bind (nonce_even address) fun _ => .bind (revise_even address _) fun _ => record_even _

theorem setCode_even (address : Address) (code : Bytes) :
    (Ledger.setCode store address code).Even below below' := by
  refine .bind (codeHash_even address) fun _ => .bind (.modify fun l l' h => ?_) fun _ =>
    .bind (revise_even address _) fun _ => record_even _
  exact ⟨h.current, h.initial, congrArg (WordMap.insert · _ code) h.codes, h.journal⟩

theorem setSlot_even (address : Address) (key : Hash) (value : Word) :
    (Ledger.setSlot store address key value).Even below below' :=
  .bind (slot_even address key) fun _ => .bind (revise_even address _) fun _ => record_even _

/-- **No operation tells twins apart.** -/
theorem perform_even (op : LedgerOp) : (op.perform store).Even below below' := by
  cases op with
  | accountExists a => exact .bind (accountExists_even a) fun _ => .pure rfl
  | createAccount a => exact .bind (createAccount_even a) fun _ => .pure rfl
  | account a => exact .bind (account_even a) fun _ => .pure rfl
  | balance a => exact .bind (balance_even a) fun _ => .pure rfl
  | nonce a => exact .bind (nonce_even a) fun _ => .pure rfl
  | codeHash a => exact .bind (codeHash_even a) fun _ => .pure rfl
  | code a => exact .bind (code_even a) fun _ => .pure rfl
  | slot a key => exact .bind (slot_even a key) fun _ => .pure rfl
  | addBalance a amount => exact .bind (addBalance_even a amount) fun _ => .pure rfl
  | subBalance a amount => exact .bind (subBalance_even a amount) fun _ => .pure rfl
  | setNonce a value => exact .bind (setNonce_even a value) fun _ => .pure rfl
  | setCode a bytes => exact .bind (setCode_even a bytes) fun _ => .pure rfl
  | setSlot a key value => exact .bind (setSlot_even a key value) fun _ => .pure rfl

/-! ### Going back -/

theorem revertTo_of_entries {es : List JournalEntry} (h : l.journal.entries = es ++ below) :
    revertTo below.length l =
      let undone := Journal.unwind es.length (es ++ below) l.current
      (undone.1, { l with journal := ⟨undone.2.1⟩, current := undone.2.2 }) := by
  have hlength : l.journal.length = es.length + below.length := by
    rw [Journal.length, h, List.length_append]
  have hle : below.length ≤ l.journal.length := by
    rw [hlength]
    exact Nat.le_add_left _ _
  unfold revertTo
  rw [Journal.revertTo_within hle, hlength, Nat.add_sub_cancel, h]

/-- **Going back to where the journals begin to differ** is alike. -/
theorem revertTo_mirrors : (revertTo below.length).Mirrors (Twins below below') Eq
    (revertTo below'.length) := by
  intro l l' h
  obtain ⟨es, es', hes, hl, hl'⟩ := h.journal
  obtain ⟨hanswer, hentries, hcurrent⟩ := EntriesTwin.unwind below below' hes h.current
  rw [revertTo_of_entries hl, revertTo_of_entries hl']
  exact ⟨.of_eq hanswer, hcurrent, h.initial, h.codes, hentries⟩

/-! ### What marks make no difference to -/

/-- Every operation is answered alike by the two ledgers, and their net effects are the same. -/
structure SameAnswers (store : Store) (l l' : Ledger) : Prop where
  answers : ∀ op : LedgerOp, (op.perform store l).1 = (op.perform store l').1
  transitions : l.transitions = l'.transitions

variable {address : Address} {x before : CachedAccount}

/-- What an unmarked account holds of its storage is what was read of it. -/
theorem slot_of_unmarked (hread : before.ReadFrom store address)
    (hx : x.Faithful store address l.codes before) (hm : x.isUnmodified = true) {key : Hash}
    {value : Word} (hk : x.storage.get? key = some value) :
    before.storage.get? key = some value := by
  have hreport := hx.untouched hm
  have hpresent : x.present = before.present := congrArg Report.present hreport
  -- Whether it was there tells where its slots came from.
  cases hp : before.present with
  | false =>
    -- An absent account holds nothing.
    rw [(hx.absent (hpresent.trans hp)).2] at hk
    cases hk
  | true =>
    have hfresh : x.storageIsFresh = false := CachedAccount.fresh_of_unmarked hm
    obtain ⟨value', hvalue'⟩ := Option.isSome_iff_exists.mp (hx.read hp hfresh key (hk ▸ rfl))
    have hslot : x.slotOver store address key = before.unread.slotOver store address key :=
      congrFun (congrArg Report.slot hreport) key
    -- A slot that was read of the account is the stored one.
    have hstored : before.unread.slotOver store address key = .ok value' := by
      have hbefore : before.unread.storageIsFresh = false :=
        (congrArg Report.fresh hreport).symm.trans hfresh
      unfold CachedAccount.slotOver
      rw [show before.unread.storage.get? key = none from rfl,
        show before.unread.present = true from hp, hbefore]
      exact hread.slots hvalue'
    unfold CachedAccount.slotOver at hslot
    rw [hk] at hslot
    rw [hvalue', Except.ok.inj (hslot.trans hstored)]

/-- **A mark makes no difference** to the update of an account: nothing has changed in an account
that could be without one. -/
theorem update?_markModified (hread : before.ReadFrom store address)
    (hx : x.Faithful store address l.codes before) (hb : l.initial.get? address = some before) :
    l.update? address x.markModified = l.update? address x := by
  by_cases hm : x.isUnmodified = true
  · -- Unmarked, the account is what was first read of it, in every part that is compared.
    have hreport := hx.untouched hm
    have hinfo : before.info = x.info := (congrArg Report.info hreport).symm
    have hpresent : before.present = x.present := (congrArg Report.present hreport).symm
    have hfresh : x.storageIsFresh = false := CachedAccount.fresh_of_unmarked hm
    have hslots : (changedSlots before x.markModified false).isEmpty = true := by
      refine (WordMap.isEmpty_iff _).mpr fun key => ?_
      unfold changedSlots
      rw [WordMap.get?_filter, CachedAccount.markModified_storage]
      cases hk : x.storage.get? key with
      | none => rfl
      | some value => simp [slot_of_unmarked hread hx hm hk]
    have hcode : l.changedCode before x.markModified = .ok none := by
      unfold changedCode
      rw [if_pos (by rw [hinfo, CachedAccount.markModified_info])]
    unfold update?
    simp [hb, hcode, hm, hinfo, hpresent, hfresh, hslots]
  · have hmarked : x.markModified = x := if_neg hm
    rw [hmarked]

/-- So it makes none to the net effect. -/
theorem Sound.transitions_marked (h : l.Sound store) :
    l.transitions = l.updates l.current.marked.entries := by
  have hmarks : ∀ entries : List (Address × CachedAccount), (∀ e ∈ entries, e ∈ l.current.entries) →
      l.updates entries = l.updates (entries.map fun e => (e.1, e.2.markModified)) := by
    intro entries hmem
    induction entries with
    | nil => rfl
    | cons e rest ih =>
      have hcached := WordMap.get?_of_mem (hmem e List.mem_cons_self)
      obtain ⟨before, hb⟩ := h.coherent.initial_of_cached hcached
      have hupdate := update?_markModified (h.initial hb) (h.coherent.faithful hcached hb) hb
      rw [List.map_cons, updates, updates, hupdate,
        ih fun e he => hmem e (List.mem_cons_of_mem _ he)]
  exact hmarks l.current.entries fun _ he => he

/-- What an update is made of, besides the account as it is now. -/
theorem update?_congr (hinitial : l.initial = l'.initial) (hcodes : l.codes = l'.codes)
    (address : Address) (x : CachedAccount) : l.update? address x = l'.update? address x := by
  unfold update? changedCode
  rw [hinitial, hcodes]

/-- **Twins cannot be told apart**, in the end as little as on the way. -/
theorem Twins.sameAnswers (h : Twins below below' l l') (hl : l.Sound store)
    (hl' : l'.Sound store) : SameAnswers store l l' where
  answers op := (perform_even op l l' h).1.eq
  transitions := by
    calc
      l.transitions = l.updates l.current.marked.entries := hl.transitions_marked
      _ = l.updates l'.current.marked.entries := by rw [h.current]
      _ = l'.updates l'.current.marked.entries :=
        updates_congr fun e _ => update?_congr h.initial h.codes e.1 e.2
      _ = l'.transitions := hl'.transitions_marked.symm

end Ledger

end MessageCall
