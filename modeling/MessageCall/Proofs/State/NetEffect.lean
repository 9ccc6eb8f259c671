import MessageCall.Proofs.State.Session
import MessageCall.Proofs.State.Updates

/-!
# The net effect is exact

Applying the updates of a ledger to what its store has gives what the ledger shows. A `Shown` is an
account in full, as a store has it or as a ledger answers for it, and `applyAll` writes updates to
the accounts of a store: an update first wipes the storage if it says so and then writes what it
holds.

One part of an update cannot be told from what the store has and what the ledger shows: whether the
account has been created anew. `recreations` tells it from the requests alone, as a session with
copies in which creating an account sets its bit and going back to a snapshot puts all bits back.

Code is found by its digest, so the ledger can only show the code that is stored if every code of
the session that has a stored digest is the code stored under it (`Store.Agrees`). No other part of
the net effect depends on this.
-/

namespace MessageCall

/-! ### Accounts in full -/

/-- An account in full. -/
structure Shown where
  present : Bool := false
  info : AccountInfo := {}
  code : Bytes := []
  storage : Hash → Word := fun _ => 0

/-- The account as a store has it. -/
def Store.shows (store : Store) (address : Address) : Shown :=
  match store.account address with
  | .ok (some s) =>
    { present := true
      info := { codeHash := s.codeHash, balance := s.balance, nonce := s.nonce }
      code := (store.code s.codeHash).toOption.getD []
      storage := fun key => (store.slot address key).toOption.getD 0 }
  | _ => {}

/-- The account as a ledger answers for it. -/
structure Ledger.Shows (store : Store) (l : Ledger) (address : Address) (v : Shown) : Prop where
  present : (accountExists store address l).1 = .ok v.present
  info : (account store address l).1 = .ok v.info
  code : (Ledger.code store address l).1 = .ok v.code
  slot : ∀ key, (Ledger.slot store address key l).1 = .ok (v.storage key)

namespace Shown

/-- The account after an update. -/
def update (v : Shown) (u : AccountUpdate) : Shown where
  present := v.present || u.info.isSome
  info := u.info.getD v.info
  code := u.code.getD v.code
  storage key := (u.addedStorage.get? key).getD (if u.removedStorage then 0 else v.storage key)

/-- The content that a slot has unless an update says otherwise. -/
def base (v : Shown) (recreated : Bool) (key : Hash) : Word :=
  if v.present && recreated then 0 else v.storage key

/-- There is a difference between an account as it was and as it is. -/
def Differs (before now : Shown) (recreated : Bool) : Prop :=
  before.present ≠ now.present ∨ before.info ≠ now.info ∨
    (before.present && recreated) = true ∨ ∃ key, now.storage key ≠ before.base recreated key

/-- An update holds the differences and nothing else. -/
structure Difference (before now : Shown) (recreated : Bool) (u : AccountUpdate) : Prop where
  present : now.present = true
  info : u.info = if before.present = false ∨ before.info ≠ now.info then some now.info else none
  code : u.code = if before.info.codeHash ≠ now.info.codeHash then some now.code else none
  removed : u.removedStorage = (before.present && recreated)
  added : ∀ key, u.addedStorage.get? key =
    if now.storage key ≠ before.base recreated key then some (now.storage key) else none

end Shown

/-- The accounts after a list of updates. -/
def applyAll : List AccountUpdate → (Address → Shown) → Address → Shown
  | [], w => w
  | u :: us, w => applyAll us (Function.update w u.address ((w u.address).update u))

theorem applyAll_of_ne {us : List AccountUpdate} {address : Address}
    (h : ∀ u ∈ us, u.address ≠ address) (w : Address → Shown) :
    applyAll us w address = w address := by
  induction us generalizing w with
  | nil => rfl
  | cons u us ih =>
    rw [applyAll, ih fun u' hu' => h u' (List.mem_cons_of_mem _ hu')]
    exact Function.update_of_ne (h u List.mem_cons_self).symm ..

/-- In an increasing list, an account is updated once. -/
theorem applyAll_of_mem {us : List AccountUpdate}
    (hincreasing : us.Pairwise fun u v => u.address < v.address) {u : AccountUpdate} (hu : u ∈ us)
    (w : Address → Shown) : applyAll us w u.address = (w u.address).update u := by
  induction us generalizing w with
  | nil => cases hu
  | cons v us ih =>
    obtain ⟨hlt, hrest⟩ := List.pairwise_cons.mp hincreasing
    rw [applyAll]
    rcases List.mem_cons.mp hu with rfl | hu
    · -- No later update is of the same account.
      rw [applyAll_of_ne fun u' hu' => (BitVec.ne_of_lt (hlt u' hu')).symm, Function.update_self]
    · -- The first update is of another account.
      rw [ih hrest hu, Function.update_of_ne (BitVec.ne_of_lt (hlt u hu)).symm]

/-! ### Accounts created anew -/

/-- Which accounts have been created anew, as an operation changes it. -/
def Recreations.perform :
    LedgerOp → (Address → Bool) → Except InternalError Answer × (Address → Bool)
  | .createAccount a, m => (.ok .done, Function.update m a true)
  | _, m => (.ok .done, m)

/-- Which accounts have been created anew by the requests, without having been taken back since. -/
def recreations (requests : List Request) : Address → Bool :=
  (Copies.run Recreations.perform requests { now := fun _ => false }).2.now

/-- The mark of creation is on the accounts that the requests have created anew. -/
def MarksRecreated (ρ : Reports) (m : Address → Bool) : Prop :=
  ∀ address r, ρ address = .ok r → r.fresh = m address

/-- The codes of a session: the empty code and the codes that are set. -/
def codesSet (requests : List Request) : Set Bytes := fun code =>
  code = [] ∨ ∃ address, .op (.setCode address code) ∈ requests

/-- The code at hand was read from the store or belongs to the session. -/
def CodesFrom (store : Store) (K : Set Bytes) (codes : WordMap 256 Bytes) : Prop :=
  ∀ {h code}, codes.get? h = some code → (code ∈ K ∧ keccak code = h) ∨ store.code h = .ok code

section

variable {store : Store} {l : Ledger} {address : Address} {s r : Report} {K : Set Bytes}

/-- What is reported after a write is what was reported before, or it is the report that the write
has made. -/
theorem report_of_writing {ρ : Reports} {f : Change} {b : Address}
    (h : (LedgerOp.writing store address f ρ).2 b = .ok r) :
    (∃ r₀ g, b = address ∧ ρ address = .ok r₀ ∧ f r₀ = .ok g ∧ r = g (r₀.enliven store address)) ∨
      ρ b = .ok r ∧ (b = address → ∀ r₀ g, ρ address = .ok r₀ → f r₀ ≠ .ok g) := by
  unfold LedgerOp.writing Change.apply reportsAfter at h
  -- The write fails on the report, or in the change, or it goes through.
  cases hr : ρ address with
  | error e =>
    rw [hr] at h
    exact .inr ⟨h, fun _ _ _ hr₀ => by cases hr₀⟩
  | ok r₀ =>
    rw [hr] at h
    cases hg : f r₀ with
    | error e =>
      simp only [hg, Except.map] at h
      refine .inr ⟨h, fun _ r₁ g hr₁ hg₁ => ?_⟩
      cases hr₁
      rw [hg] at hg₁
      cases hg₁
    | ok g =>
      simp only [hg, Except.map, Function.update_apply] at h
      -- Only the report under the address is a new one.
      by_cases hb : b = address
      · rw [if_pos hb] at h
        cases h
        exact .inl ⟨r₀, g, hb, rfl, hg, rfl⟩
      · rw [if_neg hb] at h
        exact .inr ⟨h, fun h => absurd h hb⟩

/-- A write that leaves the mark of the account alone. -/
theorem marksRecreated_writing {ρ : Reports} {m : Address → Bool} (hm : MarksRecreated ρ m)
    (f : Change) (hf : ∀ r g, f r = .ok g → ∀ r', (g r').fresh = r'.fresh) :
    MarksRecreated (LedgerOp.writing store address f ρ).2 m := by
  intro b r' hr'
  rcases report_of_writing hr' with ⟨r, g, rfl, hr, hg, rfl⟩ | ⟨hr, -⟩
  · rw [hf r g hg]
    exact hm b r hr
  · exact hm b r' hr

/-- Creating an account sets its mark. -/
theorem marksRecreated_create {ρ : Reports} {m : Address → Bool} (hm : MarksRecreated ρ m) :
    MarksRecreated (LedgerOp.writing store address .create ρ).2
      (Function.update m address true) := by
  intro b r' hr'
  rcases report_of_writing hr' with ⟨r, g, rfl, -, hg, rfl⟩ | ⟨hr, hstopped⟩
  · cases hg
    rw [Function.update_self]
    rfl
  · have hb : b ≠ address := by
      -- Creating an account that is reported is never stopped.
      rintro rfl
      exact hstopped rfl r' _ hr rfl
    rw [Function.update_of_ne hb]
    exact hm b r' hr

/-- Each operation keeps the marks as the requests have it. -/
theorem marksRecreated_onReports {codes : WordMap 256 Bytes} {ρ : Reports} {m : Address → Bool}
    (hm : MarksRecreated ρ m) (op : LedgerOp) :
    MarksRecreated (op.onReports store codes ρ).2 (Recreations.perform op m).2 := by
  -- A balance that moves leaves the mark alone.
  have hmove : ∀ f failure r g, Change.moveBalance f failure r = .ok g →
      ∀ r', (g r').fresh = r'.fresh := by
    intro f failure r g hg r'
    unfold Change.moveBalance at hg
    split at hg
    · cases hg
      rfl
    · cases hg
  cases op with
  -- Creating is the one write that sets the mark; every other keeps it.
  | createAccount a => exact marksRecreated_create hm
  | addBalance a amount => exact marksRecreated_writing hm _ (hmove _ _)
  | subBalance a amount => exact marksRecreated_writing hm _ (hmove _ _)
  | setNonce a value =>
    refine marksRecreated_writing hm (.setNonce value) fun r g hg r' => ?_
    cases hg
    rfl
  | setCode a bytes =>
    refine marksRecreated_writing hm (.setCode bytes) fun r g hg r' => ?_
    cases hg
    rfl
  | setSlot a key value =>
    refine marksRecreated_writing hm (.setSlot key value) fun r g hg r' => ?_
    unfold Change.setSlot at hg
    split at hg
    · cases hg
      rfl
    · cases hg
  | _ => exact hm

/-- Each operation puts code at hand that is read from the store or that it sets. -/
theorem codesFrom_brings (hcodes : CodesFrom store K l.codes) (hnil : [] ∈ K) {op : LedgerOp}
    (hop : ∀ address code, op = .setCode address code → code ∈ K) {h : Hash} {code : Bytes}
    (hbrings : op.Brings store l.codes (l.report store) h code) :
    (code ∈ K ∧ keccak code = h) ∨ store.code h = .ok code := by
  cases op with
  | setCode a bytes =>
    obtain ⟨rfl, rfl⟩ := hbrings
    exact .inl ⟨hop a code rfl, rfl⟩
  -- Reading code adds the empty code, code at hand, or what the store answered.
  | code a =>
    obtain ⟨-, hcode⟩ := hbrings
    unfold Ledger.codeOver at hcode
    split at hcode
    · next hempty =>
      cases hcode
      exact .inl ⟨hnil, by rw [hempty, keccak_nil]⟩
    · split at hcode
      · next hknown =>
        cases hcode
        exact hcodes hknown
      · exact .inr hcode
  | _ => exact hbrings.elim

theorem recreations_matches (hnil : [] ∈ K) :
    Matches store (CodesFrom store K) MarksRecreated (fun _ _ => True)
      (fun op => ∀ address code, op = .setCode address code → code ∈ K) Recreations.perform := by
  intro op l m hop hl hcodes hm
  obtain ⟨l', hm', -, hreport, hgrow⟩ := Ledger.perform_spec hl op
  rw [hm']
  refine ⟨trivial, fun hk => ?_, ?_⟩
  · exact (hgrow hk).elim hcodes (codesFrom_brings hcodes hnil hop)
  · rw [hreport]
    exact marksRecreated_onReports hm op

end

/-! ### What a store has and what a ledger shows -/

/-- An account in full, from its report and its code. -/
def Report.shown (r : Report) (code : Bytes) : Shown where
  present := r.present
  info := r.info
  code := code
  storage := r.value

/-- The codes that a session sets and that a stored account names by its digest are what the store
finds by that digest. -/
def Store.Agrees (store : Store) (K : Set Bytes) : Prop :=
  ∀ code ∈ K, ∀ address stored, store.account address = .ok (some stored) →
    keccak code = stored.codeHash → store.code stored.codeHash = .ok code

section

variable {store : Store} {l : Ledger} {address : Address} {s r : Report} {code : Bytes}
  {K : Set Bytes} {u : AccountUpdate}

theorem Ledger.Sound.shows (hstore : store.Reliable) (h : l.Sound store)
    (hr : l.report store address = .ok r)
    (hcode : Ledger.codeOver store l.codes r.info.codeHash = .ok code) :
    l.Shows store address (r.shown code) where
  -- Each look answers with its part of the report, by the lemma about that look.
  present := by
    obtain ⟨l', hm, -⟩ := Ledger.accountExists_spec h address
    rw [hm, hr]
    rfl
  info := by
    obtain ⟨l', hm, -⟩ := Ledger.account_spec h address
    rw [hm, hr]
    rfl
  code := by
    obtain ⟨l', hm, -⟩ := Ledger.code_spec h address
    rw [hm, hr]
    change Ledger.asked (Ledger.codeOver store l.codes r.info.codeHash) = _
    rw [hcode]
    rfl
  slot key := by
    obtain ⟨l', hm, -⟩ := Ledger.slot_spec h address key
    -- A reliable store answers for every slot, so the report has a value for it.
    obtain ⟨value, hvalue⟩ := h.exists_slot hstore.answers hr key
    rw [hm, hr]
    change Ledger.asked (r.slot key) = _
    rw [hvalue]
    exact congrArg Except.ok (Report.value_of_slot hvalue).symm

/-- What a store has is what a new ledger reports. -/
theorem Store.shows_eq (hs : Ledger.report store {} address = .ok s) :
    store.shows address = s.shown (store.shows address).code := by
  rw [Ledger.report_new] at hs
  unfold Store.shows
  cases hstored : store.account address with
  | error e =>
    rw [hstored] at hs
    cases hs
  | ok stored =>
    rw [hstored] at hs
    cases hs
    cases stored with
    | none => rfl
    -- The slots that were never read are those of the store.
    | some x =>
      have hslots : (fun key => (store.slot address key).toOption.getD 0) =
          ((CachedAccount.ofStored (some x)).report store address).value := by
        funext key
        rw [Report.value_eq]
        rfl
      simp only [hslots]
      rfl

/-- An account whose digest of code is the stored one shows the stored code. -/
theorem Store.Agrees.code_eq (hagrees : store.Agrees K) (hstore : store.Reliable) (hnil : [] ∈ K)
    (hcodes : CodesFrom store K l.codes) (hs : Ledger.report store {} address = .ok s)
    (hsame : s.info.codeHash = r.info.codeHash)
    (hcode : Ledger.codeOver store l.codes r.info.codeHash = .ok code) :
    (store.shows address).code = code := by
  rw [← hsame] at hcode
  rw [Ledger.report_new] at hs
  unfold Store.shows
  cases hstored : store.account address with
  | error e =>
    rw [hstored] at hs
    cases hs
  | ok stored =>
    rw [hstored] at hs
    cases hs
    cases stored with
    | none => exact Except.ok.inj hcode
    | some x =>
      obtain ⟨known, hknown⟩ := hstore.code hstored
      change Ledger.codeOver store l.codes x.codeHash = .ok code at hcode
      -- Whatever way the code is found, it is the code that the store finds.
      have hfound : store.code x.codeHash = .ok code := by
        unfold Ledger.codeOver at hcode
        split at hcode
        · next hempty =>
          cases hcode
          exact hagrees [] hnil address x hstored (by rw [hempty, keccak_nil])
        · split at hcode
          · next hhand =>
            cases hcode
            rcases hcodes hhand with ⟨hmem, hdigest⟩ | hread
            · exact hagrees code hmem address x hstored hdigest
            · exact hread
          · exact hcode
      simp only [hfound, Except.toOption, Option.getD_some]

/-- The update of an account holds the differences. -/
theorem Report.Net.difference (h : s.Net store l.codes r u) {before : Bytes}
    (hcode : Ledger.codeOver store l.codes r.info.codeHash = .ok code) {recreated : Bool}
    (hfresh : r.fresh = recreated) :
    (s.shown before).Difference (r.shown code) recreated u where
  present := h.present
  info := h.info
  code := by
    have hdigest := h.digest
    change u.code = if s.info.codeHash ≠ r.info.codeHash then some code else none
    -- The update names code only where the digest is another one.
    by_cases hsame : s.info.codeHash = r.info.codeHash
    · rw [if_pos hsame, Option.map_eq_none_iff] at hdigest
      rw [if_neg (not_not.mpr hsame), hdigest]
    · rw [if_neg hsame, Option.map_eq_some_iff] at hdigest
      obtain ⟨c, hc, -⟩ := hdigest
      rw [if_pos hsame, hc]
      exact congrArg some (Except.ok.inj ((h.code hc).symm.trans hcode))
  removed := by
    rw [h.removed, Report.recreated, hfresh]
    rfl
  added key := by
    have hadded := h.added key
    rw [Report.base, Report.recreated, hfresh] at hadded
    exact hadded

/-- What is the same after an update, the code apart if its digest has not changed. -/
structure Shown.Same (v w : Shown) : Prop where
  present : v.present = w.present
  info : v.info = w.info
  storage : v.storage = w.storage

theorem Shown.Difference.same_update {before now : Shown} {recreated : Bool}
    (h : before.Difference now recreated u) : (before.update u).Same now where
  present := by
    -- Where the fields did not change, the account was there before as well.
    rw [h.present, Shown.update, h.info]
    cases hp : before.present <;> simp
  info := by
    rw [Shown.update, h.info]
    split
    · rfl
    · next hsame =>
      rw [not_or, not_not] at hsame
      exact hsame.2
  storage := by
    funext key
    rw [Shown.update]
    simp only [h.added key, h.removed]
    split
    · rfl
    · next hsame => exact (not_not.mp hsame).symm

theorem Shown.same_of_not_differs {before now : Shown} {recreated : Bool}
    (h : ¬ before.Differs now recreated) : before.Same now := by
  simp only [Shown.Differs, not_or, not_not, not_exists] at h
  obtain ⟨hp, hi, hr, hk⟩ := h
  refine ⟨hp, hi, funext fun key => ?_⟩
  rw [hk key, Shown.base, if_neg hr]

end

/-! ### Sessions -/

/-- The updates `us` are the net effect of the requests on the accounts of a store, where `v` is
what is shown of every account in the end. -/
structure NetEffect (store : Store) (requests : List Request) (us : List AccountUpdate)
    (v : Address → Shown) : Prop where
  increasing : us.Pairwise fun u u' => u.address < u'.address
  /-- An account is listed if there is a difference. -/
  listed : ∀ address, (∃ u ∈ us, u.address = address) ↔
    (store.shows address).Differs (v address) (recreations requests address)
  /-- Its update holds the differences. -/
  holds : ∀ u ∈ us, (store.shows u.address).Difference (v u.address)
    (recreations requests u.address) u
  /-- Written to the store, the updates lead to what is shown. -/
  applied : ∀ address, (applyAll us store.shows address).Same (v address)
  /-- So do the codes that they hold, where the store is consistent about digests: an update holds a
  code only if the digest is another one, so a code that has been set must be the one that the store
  has under the same digest. -/
  appliedCode : store.Agrees (codesSet requests) →
    ∀ address, (applyAll us store.shows address).code = (v address).code

variable {store : Store}

/-- **The net effect is exact.** After any session over a reliable store, the list of updates exists
and is the difference between what the store has and what the ledger shows.

Only for the codes of accounts this needs a condition, which is that of hash consistency without
collisions (`Store.Agrees`): a code that the session sets and that has the digest of a stored
account is the code that the store finds by that digest. Without it two codes with one digest could
not be told apart in the list of updates. -/
theorem Session.transitions_exact (hstore : store.Reliable) (requests : List Request) :
    ∃ us v, (Session.run store requests {}).2.ledger.transitions = .ok us ∧
      (∀ address, (Session.run store requests {}).2.ledger.Shows store address (v address)) ∧
      NetEffect store requests us v := by
  have hnil : [] ∈ codesSet requests := .inl rfl
  have hstart : InStep store (CodesFrom store (codesSet requests)) MarksRecreated {}
      { now := fun _ => false } := by
    -- A new ledger holds no account and knows no code, and nothing is recreated.
    refine .start store (fun hk => by cases hk) fun address r hr => ?_
    rcases (Ledger.sound_new store).report_cases hr with ⟨x, _, hx, -⟩ | ⟨stored, -, -, rfl⟩
    · cases hx
    · cases stored <;> rfl
  obtain ⟨-, hrun⟩ := hstart.run (recreations_matches hnil) (fun _ => trivial) requests
    fun op hop address code hset => .inr ⟨address, hset ▸ hop⟩
  obtain ⟨us, hus, hincreasing, hspec⟩ := hrun.sound.transitions_spec hstore
  -- What is shown in the end is put together from the reports and the codes found by them.
  choose s hs using Ledger.exists_report hstore.answers {}
  choose r hr using Ledger.exists_report hstore.answers (Session.run store requests {}).2.ledger
  choose code hcode using fun address => hrun.sound.exists_code hstore.answers (hr address)
  have hfresh : ∀ a, (r a).fresh = recreations requests a := fun a => hrun.now a (r a) (hr a)
  have hshows : ∀ a, store.shows a = (s a).shown (store.shows a).code :=
    fun a => Store.shows_eq (hs a)
  -- An update is there for each account that differs, and it holds the difference.
  have hlisted : ∀ a, (∃ u ∈ us, u.address = a) ↔
      (store.shows a).Differs ((r a).shown (code a)) (recreations requests a) := by
    intro a
    rw [(hspec a (s a) (r a) (hs a) (hr a)).1, hshows a, ← hfresh a]
    rfl
  have hholds : ∀ u ∈ us, (store.shows u.address).Difference
      ((r u.address).shown (code u.address)) (recreations requests u.address) u := by
    intro u hu
    rw [hshows u.address]
    exact ((hspec _ _ _ (hs _) (hr _)).2 u hu rfl).difference (hcode _) (hfresh _)
  refine ⟨us, fun a => (r a).shown (code a), hus,
    fun a => hrun.sound.shows hstore (hr a) (hcode a), hincreasing, hlisted, hholds, ?_, ?_⟩
  · -- Applied to what the store shows, the updates give what is shown in the end.
    intro a
    by_cases hmem : ∃ u ∈ us, u.address = a
    · obtain ⟨u, hu, rfl⟩ := hmem
      rw [applyAll_of_mem hincreasing hu]
      exact (hholds u hu).same_update
    · -- An account without an update is as the store has it.
      rw [applyAll_of_ne fun u hu ha => hmem ⟨u, hu, ha⟩]
      exact Shown.same_of_not_differs fun h => hmem ((hlisted a).mpr h)
  · intro hagrees a
    -- Under a digest that has not changed, the code found is the code stored.
    have hsame : (s a).info.codeHash = (r a).info.codeHash → (store.shows a).code = code a :=
      fun h => hagrees.code_eq hstore hnil hrun.codes (hs a) h (hcode a)
    -- The code comes with the update, or its digest is the one it had.
    by_cases hmem : ∃ u ∈ us, u.address = a
    · obtain ⟨u, hu, rfl⟩ := hmem
      rw [applyAll_of_mem hincreasing hu, Shown.update, (hholds u hu).code]
      split
      · rfl
      · next h =>
        rw [hshows u.address] at h
        exact hsame (not_not.mp h)
    · rw [applyAll_of_ne fun u hu ha => hmem ⟨u, hu, ha⟩]
      have hinfo := (Shown.same_of_not_differs fun h => hmem ((hlisted a).mpr h)).info
      rw [hshows a] at hinfo
      exact hsame (congrArg AccountInfo.codeHash hinfo)

theorem Session.transitions_exact_sample :
    Store.sample.Reliable ∧
      ∃ us v, (Session.run .sample sampleRequests {}).2.ledger.transitions = .ok us ∧
        (∀ address, (Session.run .sample sampleRequests {}).2.ledger.Shows .sample address
          (v address)) ∧
        NetEffect .sample sampleRequests us v :=
  ⟨Store.sample_reliable, Session.transitions_exact Store.sample_reliable sampleRequests⟩

end MessageCall
