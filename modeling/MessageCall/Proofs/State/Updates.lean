import MessageCall.Proofs.State.Backing
import MessageCall.Proofs.WordMap
import MessageCall.State.Transitions

/-!
# The list of updates

The net effect of an execution is computed from two caches, either of which may lack an account or
a slot, and from marks that going back does not always take away. None of this shows in it. Over a
reliable store, the update of an account is determined by what was reported of the account at the
beginning and what is reported of it now: `Report.Net` says what the update holds and
`Report.Changed` says whether there is one. The computation always succeeds
(`Ledger.Sound.transitions_spec`), since a written account has been read and new code is at hand.
-/

namespace MessageCall

namespace Report

/-- The content of a slot of an account over a store that answers. -/
def value (r : Report) (key : Hash) : Word :=
  match r.slot key with
  | .ok value => value
  | .error _ => 0

theorem value_eq (r : Report) (key : Hash) : r.value key = (r.slot key).toOption.getD 0 := by
  unfold Report.value
  cases r.slot key with
  | error e => rfl
  | ok value => rfl

theorem value_of_slot {r : Report} {key : Hash} {value : Word} (h : r.slot key = .ok value) :
    r.value key = value := by
  unfold Report.value
  rw [h]

/-- The account was there before and has been created anew. -/
def recreated (before now : Report) : Bool := before.present && now.fresh

/-- The content that a slot has unless it is said to have another. -/
def base (before now : Report) (key : Hash) : Word :=
  if before.recreated now then 0 else before.value key

/-- There is something to update in an account. -/
def Changed (before now : Report) : Prop :=
  before.present ≠ now.present ∨ before.info ≠ now.info ∨ before.recreated now = true ∨
    ∃ key, now.value key ≠ before.base now key

/-- What the update of an account holds. -/
structure Net (store : Store) (codes : WordMap 256 Bytes) (before now : Report)
    (u : AccountUpdate) : Prop where
  present : now.present = true
  info : u.info = if before.present = false ∨ before.info ≠ now.info then some now.info else none
  digest : u.code.map keccak =
    if before.info.codeHash = now.info.codeHash then none else some now.info.codeHash
  code : ∀ {code}, u.code = some code →
    Ledger.codeOver store codes now.info.codeHash = .ok code
  removed : u.removedStorage = before.recreated now
  added : ∀ key, u.addedStorage.get? key =
    if now.value key ≠ before.base now key then some (now.value key) else none

theorem not_changed_self {r : Report} (h : r.fresh = false) : ¬ r.Changed r := by
  have hrecreated : r.recreated r = false := by
    unfold recreated
    rw [h, Bool.and_false]
  rintro (hp | hi | hr | ⟨key, hk⟩)
  · exact hp rfl
  · exact hi rfl
  · rw [hrecreated] at hr
    cases hr
  · refine hk ?_
    rw [base, hrecreated]
    rfl

end Report

/-! ### The update of one account -/

namespace Ledger

variable {store : Store} {l : Ledger} {address : Address} {x before : CachedAccount}

/-- New code is found, and it has the new digest. -/
theorem changedCode_spec (hx : x.Faithful store address l.codes before) :
    ∃ code, l.changedCode before x = .ok code ∧
      (code.map keccak =
        if before.info.codeHash = x.info.codeHash then none else some x.info.codeHash) ∧
      ∀ {c}, code = some c → codeOver store l.codes x.info.codeHash = .ok c := by
  unfold changedCode
  by_cases hsame : before.info.codeHash = x.info.codeHash
  · rw [if_pos hsame, if_pos hsame]
    exact ⟨none, rfl, rfl, fun hc => by cases hc⟩
  · rw [if_neg hsame, if_neg hsame]
    -- No code at all counts as the empty code, without a look at the ledger.
    by_cases hempty : x.info.codeHash = emptyCodeHash
    · refine ⟨some [], if_pos hempty, ?_, fun hc => ?_⟩
      · rw [Option.map_some, hempty, keccak_nil]
      · cases hc
        exact if_pos hempty
    · rw [if_neg hempty]
      -- A digest that is new, and not that of no code, has its code at hand.
      rcases hx.code with h | h | ⟨code, hcode, hdigest⟩
      · exact absurd h.symm hsame
      · exact absurd h hempty
      · simp only [codeOver, if_neg hempty, hcode]
        refine ⟨some code, rfl, by rw [Option.map_some, hdigest], fun hc => ?_⟩
        rw [Option.some.inj hc]

/-- The slots of an account as it was first read are those of the store. -/
theorem value_unread (hstore : store.Reliable) (hread : before.ReadFrom store address)
    {key : Hash} {value : Word} (hvalue : store.slot address key = .ok value) :
    (before.unread.report store address).value key = value := by
  refine Report.value_of_slot ?_
  obtain ⟨stored, hs, hunread⟩ := hread.account
  rw [hunread, ← hvalue]
  cases stored with
  | none => exact (hstore.blank address key hs).symm
  | some s => rfl

/-- An account that was absent had zero in all slots. -/
theorem value_unread_of_absent (hstore : store.Reliable) (hread : before.ReadFrom store address)
    (hp : before.present = false) (key : Hash) :
    (before.unread.report store address).value key = 0 := by
  obtain ⟨hs, -⟩ := hread.account_of_absent hp
  exact value_unread hstore hread (hstore.blank address key hs)

/-- The mark that the computation looks at says whether the account was created anew. -/
theorem recreated_eq (store : Store) (address : Address) (before : CachedAccount)
    (hp : x.present = true) : (x.storageIsFresh && before.present && x.present) =
      (before.unread.report store address).recreated (x.report store address) := by
  rw [hp, Bool.and_true, Bool.and_comm]
  rfl

/-- A written slot of an account that was not created anew is compared with what the store has. -/
theorem getD_storage (hstore : store.Reliable) (hread : before.ReadFrom store address)
    (hx : x.Faithful store address l.codes before) {key : Hash}
    (hk : (x.storage.get? key).isSome)
    (hr : (before.unread.report store address).recreated (x.report store address) = false) :
    (before.storage.get? key).getD 0 = (before.unread.report store address).value key := by
  cases hb : before.storage.get? key with
  | some value => exact (value_unread hstore hread (hread.slots hb)).symm
  | none =>
    -- A slot that was written unread belongs to an account that was absent.
    cases hp : before.present with
    | false => exact (value_unread_of_absent hstore hread hp key).symm
    | true =>
      have hfresh : x.storageIsFresh = false := by
        change (before.present && x.storageIsFresh) = false at hr
        rw [hp, Bool.true_and] at hr
        exact hr
      -- The account was there and kept its storage, so every slot of it was read before it was
      -- written.
      have hknown := hx.read hp hfresh key hk
      rw [hb] at hknown
      cases hknown

/-- A slot that was neither read nor written is as it was. -/
theorem value_of_unread (hstore : store.Reliable) (hread : before.ReadFrom store address)
    (hp : x.present = true) {key : Hash} (hk : x.storage.get? key = none) :
    (x.report store address).value key =
      (before.unread.report store address).base (x.report store address) key := by
  have hslot : (x.report store address).slot key =
      if x.storageIsFresh = true then .ok 0 else store.slot address key := by
    simp only [CachedAccount.report_slot, CachedAccount.slotOver, hk, hp, Bool.not_true,
      Bool.false_or]
  have hbase : (before.unread.report store address).recreated (x.report store address) =
      (before.present && x.storageIsFresh) := rfl
  unfold Report.base
  rw [hbase]
  obtain ⟨value, hvalue⟩ := hstore.slot address key
  cases hfresh : x.storageIsFresh with
  | false =>
    -- The store has the content on both sides.
    rw [hfresh, if_neg (by simp), hvalue] at hslot
    rw [Bool.and_false, if_neg (by simp), Report.value_of_slot hslot,
      value_unread hstore hread hvalue]
  | true =>
    -- It is zero now, and it was zero before or counts as such.
    rw [hfresh, if_pos rfl] at hslot
    rw [Report.value_of_slot hslot, Bool.and_true]
    cases hb : before.present with
    | true => rfl
    | false => exact (value_unread_of_absent hstore hread hb key).symm

/-- The slots that are found to differ are those whose reported contents differ. -/
theorem changedSlots_get? (hstore : store.Reliable) (hread : before.ReadFrom store address)
    (hx : x.Faithful store address l.codes before) (hp : x.present = true) (key : Hash) :
    (changedSlots before x (x.storageIsFresh && before.present && x.present)).get? key =
      if (x.report store address).value key ≠
        (before.unread.report store address).base (x.report store address) key
      then some ((x.report store address).value key) else none := by
  have hrecreated := recreated_eq store address before hp
  unfold changedSlots
  rw [WordMap.get?_filter, hrecreated]
  cases hk : x.storage.get? key with
  -- A slot that is not cached has its start value, and is filtered out on either side.
  | none => rw [if_neg (not_not.mpr (value_of_unread hstore hread hp hk)), Option.filter_none]
  | some value =>
    have hvalue : (x.report store address).value key = value := by
      refine Report.value_of_slot ?_
      simp only [CachedAccount.report_slot, CachedAccount.slotOver, hk]
    -- What the update compares with is nothing for a recreated account, else what was read first.
    have hbase : (if (before.unread.report store address).recreated (x.report store address) = true
        then 0 else (before.storage.get? key).getD 0) =
        (before.unread.report store address).base (x.report store address) key := by
      unfold Report.base
      split
      · rfl
      · next hr =>
        exact getD_storage hstore hread hx (by rw [hk]; rfl) (Bool.eq_false_iff.mpr hr)
    rw [hbase, hvalue, Option.filter_some]
    simp only [decide_eq_true_eq]

/-- **The update of one account**, if anything has changed in it. -/
theorem update?_spec (hstore : store.Reliable) (hread : before.ReadFrom store address)
    (hx : x.Faithful store address l.codes before) (hb : l.initial.get? address = some before) :
    (∃ u, l.update? address x = .ok (some u) ∧ u.address = address ∧
      (before.unread.report store address).Net store l.codes (x.report store address) u ∧
      (before.unread.report store address).Changed (x.report store address)) ∨
    (l.update? address x = .ok none ∧
      ¬ (before.unread.report store address).Changed (x.report store address)) := by
  -- What was read from the store bears no mark of this session.
  have hfresh : (before.unread.report store address).fresh = false := by
    obtain ⟨stored, -, hunread⟩ := hread.account
    rw [hunread]
    cases stored <;> rfl
  unfold update?
  -- An entry that was not modified is its start.
  by_cases hm : x.isUnmodified = true
  · rw [if_pos hm, hx.untouched hm]
    exact .inr ⟨rfl, Report.not_changed_self hfresh⟩
  · -- An absent account is blank, and a blank account has no mark.
    have hp : x.present = true := by
      refine Bool.of_not_eq_false fun hn => hm ?_
      rw [(hx.absent hn).2]
      rfl
    obtain ⟨code, hcode, hdigest, hover⟩ := changedCode_spec hx
    have hslots := changedSlots_get? hstore hread hx hp
    have hrecreated := recreated_eq store address before hp
    -- The parts of the condition, as what they say of the reports.
    have hinfo : ((x.present && !before.present) || decide (before.info ≠ x.info)) = true ↔
        (before.unread.report store address).present = false ∨
          (before.unread.report store address).info ≠ (x.report store address).info := by
      rw [hp, Bool.true_and, Bool.or_eq_true, Bool.not_eq_true', decide_eq_true_eq]
      rfl
    have hempty : (changedSlots before x
        (x.storageIsFresh && before.present && x.present)).isEmpty = true ↔
        ∀ key, (x.report store address).value key =
          (before.unread.report store address).base (x.report store address) key := by
      rw [WordMap.isEmpty_iff]
      refine forall_congr' fun key => ?_
      rw [hslots, ite_eq_right_iff]
      simp only [reduceCtorEq, imp_false, not_not]
    have hnone : (!((x.present && !before.present) || decide (before.info ≠ x.info)) &&
        (changedSlots before x (x.storageIsFresh && before.present && x.present)).isEmpty &&
        !(x.storageIsFresh && before.present && x.present)) = true ↔
        ¬ (before.unread.report store address).Changed (x.report store address) := by
      have hpresent : (before.unread.report store address).present ≠
          (x.report store address).present ↔
            (before.unread.report store address).present = false := by
        rw [show (x.report store address).present = true from hp]
        exact Bool.eq_false_iff.symm
      rw [Bool.and_eq_true, Bool.and_eq_true, Bool.not_eq_true', Bool.not_eq_true',
        Bool.eq_false_iff, Ne, hinfo, hempty, hrecreated, Report.Changed, hpresent]
      simp only [not_or, not_exists, not_not, Bool.not_eq_true, and_assoc]
      exact and_congr_right fun _ => and_congr_right fun _ => and_comm
    -- Three facts decide: the account's own fields, its slots, and whether it was recreated.
    simp only [if_neg hm, hb, hcode]
    by_cases hchanged : (before.unread.report store address).Changed (x.report store address)
    · rw [if_neg fun h => hnone.mp h hchanged]
      refine .inl ⟨_, rfl, rfl, ⟨hp, ?_, hdigest, hover, hrecreated, hslots⟩, hchanged⟩
      exact if_congr hinfo rfl rfl
    · rw [if_pos (hnone.mpr hchanged)]
      exact .inr ⟨rfl, hchanged⟩

/-! ### The list of updates -/

/-- The updates of a list depend on the updates of its members only. -/
theorem updates_congr {l' : Ledger} {es : List (Address × CachedAccount)}
    (h : ∀ e ∈ es, l'.update? e.1 e.2 = l.update? e.1 e.2) : l'.updates es = l.updates es := by
  induction es with
  | nil => rfl
  | cons e rest ih =>
    simp only [updates, h e List.mem_cons_self, ih fun f hf => h f (List.mem_cons_of_mem _ hf)]

/-- The updates of a list of accounts, as far as there are any. -/
theorem updates_spec {entries : List (Address × CachedAccount)}
    (hsorted : entries.Pairwise fun x y => x.1 < y.1)
    (hok : ∀ e ∈ entries, ∃ change, l.update? e.1 e.2 = .ok change ∧
      ∀ u, change = some u → u.address = e.1) :
    ∃ us, l.updates entries = .ok us ∧ (us.Pairwise fun u v => u.address < v.address) ∧
      ∀ u, u ∈ us ↔ ∃ e ∈ entries, u.address = e.1 ∧ l.update? e.1 e.2 = .ok (some u) := by
  induction entries with
  | nil => exact ⟨[], rfl, .nil, fun u => by simp⟩
  | cons e rest ih =>
    obtain ⟨hlt, hrest⟩ := List.pairwise_cons.mp hsorted
    obtain ⟨us, hus, hincreasing, hmem⟩ := ih hrest fun e' he => hok e' (List.mem_cons_of_mem _ he)
    obtain ⟨change, hchange, haddress⟩ := hok e List.mem_cons_self
    refine ⟨change.toList ++ us, by simp only [updates, hchange, hus], ?_, fun u => ?_⟩
    · -- The addresses increase, as those of the cache do.
      cases change with
      | none => exact hincreasing
      | some u =>
        -- Further on there are greater addresses only.
        refine List.pairwise_cons.mpr ⟨fun v hv => ?_, hincreasing⟩
        obtain ⟨e', he', hv', -⟩ := (hmem v).mp hv
        rw [haddress u rfl, hv']
        exact hlt e' he'
    · -- An update of the list belongs to the head or to the rest.
      have hhead : change = some u ↔ u.address = e.1 ∧ l.update? e.1 e.2 = .ok (some u) := by
        rw [hchange, Except.ok.injEq]
        exact ⟨fun h => ⟨haddress u h, h⟩, And.right⟩
      rw [List.mem_append, Option.mem_toList, hmem, hhead]
      simp only [List.mem_cons, exists_eq_or_imp]

variable {s r : Report}

/-- What was reported at the beginning is what the store has. -/
theorem report_start (hread : before.ReadFrom store address) :
    report store {} address = .ok (before.unread.report store address) := by
  obtain ⟨stored, hs, hunread⟩ := hread.account
  rw [report_new, hs, hunread]
  rfl

/-- The update of a cached account, by what was reported and what is reported of it. -/
theorem Sound.update?_of_cached (hstore : store.Reliable) (h : l.Sound store)
    (hx : l.current.get? address = some x) :
    ∃ s r change, report store {} address = .ok s ∧ l.report store address = .ok r ∧
      l.update? address x = .ok change ∧
      (∀ u, change = some u → u.address = address ∧ s.Net store l.codes r u) ∧
      (change.isSome ↔ s.Changed r) := by
  obtain ⟨before, hb⟩ := h.coherent.initial_of_cached hx
  have hread := h.initial hb
  refine ⟨before.unread.report store address, x.report store address, ?_⟩
  -- Whether there is an update is whether anything changed.
  rcases update?_spec hstore hread (h.coherent.faithful hx hb) hb with
    ⟨u, hu, haddress, hnet, hchanged⟩ | ⟨hu, hchanged⟩
  · refine ⟨some u, report_start hread, report_of_cached hx, hu, fun v hv => ?_, ?_⟩
    · cases hv
      exact ⟨haddress, hnet⟩
    · exact iff_of_true rfl hchanged
  · refine ⟨none, report_start hread, report_of_cached hx, hu, fun v hv => ?_, ?_⟩
    · cases hv
    · exact iff_of_false (fun h => by cases h) hchanged

/-- An account that is not cached has not changed. -/
theorem Sound.not_changed_of_missing (h : l.Sound store) (hx : l.current.get? address = none)
    (hs : report store {} address = .ok s) (hr : l.report store address = .ok r) :
    ¬ s.Changed r := by
  have hstart : report store {} address = l.report store address := by
    rw [report_new]
    exact (Accounts.report_of_missing store hx).symm
  obtain rfl : s = r := Except.ok.inj (hs.symm.trans (hstart.trans hr))
  rcases h.report_cases hr with ⟨y, _, hy, -⟩ | ⟨stored, -, -, rfl⟩
  · rw [hx] at hy
    cases hy
  · exact Report.not_changed_self (by cases stored <;> rfl)

/-- The updates `us` are for the accounts in which something has changed, and hold what they
should. -/
def AreNet (store : Store) (codes : WordMap 256 Bytes) (ρ : Address → Except StoreError Report)
    (us : List AccountUpdate) : Prop :=
  ∀ address s r, report store {} address = .ok s → ρ address = .ok r →
    ((∃ u ∈ us, u.address = address) ↔ s.Changed r) ∧
      ∀ u ∈ us, u.address = address → s.Net store codes r u

/-- **The list of updates** always exists. It is increasing by address and holds what has
changed. -/
theorem Sound.transitions_spec (hstore : store.Reliable) (h : l.Sound store) :
    ∃ us, l.transitions = .ok us ∧ (us.Pairwise fun u v => u.address < v.address) ∧
      AreNet store l.codes (l.report store) us := by
  obtain ⟨us, hus, hincreasing, hmem⟩ := updates_spec l.current.increasing fun e he => by
    obtain ⟨s, r, change, -, -, hchange, hnet, -⟩ :=
      h.update?_of_cached hstore (WordMap.get?_of_mem he)
    exact ⟨change, hchange, fun u hu => (hnet u hu).1⟩
  refine ⟨us, hus, hincreasing, fun address s r hs hr => ?_⟩
  cases hx : l.current.get? address with
  | none =>
    -- There is no entry under the address, so there is no update either.
    have hno : ∀ u ∈ us, u.address ≠ address := by
      intro u hu haddress
      obtain ⟨e, he, he', -⟩ := (hmem u).mp hu
      have hcached := WordMap.get?_of_mem he
      rw [← he', haddress, hx] at hcached
      cases hcached
    refine ⟨iff_of_false ?_ (h.not_changed_of_missing hx hs hr), ?_⟩
    · rintro ⟨u, hu, haddress⟩
      exact hno u hu haddress
    · exact fun u hu haddress => absurd haddress (hno u hu)
  | some x =>
    obtain ⟨s', r', change, hs', hr', hchange, hnet, hiff⟩ := h.update?_of_cached hstore hx
    obtain rfl : s' = s := Except.ok.inj (hs'.symm.trans hs)
    obtain rfl : r' = r := Except.ok.inj (hr'.symm.trans hr)
    -- The entries have different addresses, so only this account can have led to the update.
    have hus' : ∀ u, u ∈ us ∧ u.address = address ↔ change = some u := by
      intro u
      rw [hmem]
      constructor
      · rintro ⟨⟨e, he, he', hu⟩, rfl⟩
        have hcached := WordMap.get?_of_mem he
        rw [← he'] at hcached hu
        obtain rfl : e.2 = x := Option.some.inj (hcached.symm.trans hx)
        exact Except.ok.inj (hchange.symm.trans hu)
      · intro hu
        have haddress := (hnet u hu).1
        refine ⟨⟨(address, x), WordMap.mem_of_lookupEntry hx, haddress, ?_⟩, haddress⟩
        rw [hchange, hu]
    refine ⟨?_, fun u hu haddress => (hnet u ((hus' u).mp ⟨hu, haddress⟩)).2⟩
    rw [← hiff, Option.isSome_iff_exists]
    exact exists_congr hus'

end Ledger

end MessageCall
