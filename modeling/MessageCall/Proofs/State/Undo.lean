import MessageCall.Proofs.State.Report

/-!
# Undoing entries over accounts that agree

Going back in the history undoes journal entries on whatever is cached by then, which is more than
was cached when the entries were made: accounts and slots have been read in the meantime, and an
account whose changes were undone before keeps its mark as modified. `Accounts.Agrees` says that
nothing of this shows. It is a preorder, and undoing an entry respects it
(`JournalEntry.undo_congr`), so a history can be undone on either side with the same reports at the
end.
-/

namespace MessageCall

/-- `c'` reports what `c` reports, and has cached and marked at least as much. -/
structure Accounts.Agrees (store : Store) (c c' : Accounts) : Prop where
  /-- What is cached stays cached, and what was written stays marked. -/
  cached : ∀ {address x}, c.get? address = some x →
    ∃ y, c'.get? address = some y ∧ (y.isUnmodified → x.isUnmodified)
  report : c'.report store = c.report store

namespace Accounts.Agrees

variable {store : Store} {c c' c'' : Accounts}

theorem refl (store : Store) (c : Accounts) : c.Agrees store c where
  cached h := ⟨_, h, id⟩
  report := rfl

theorem trans (h : c.Agrees store c') (h' : c'.Agrees store c'') : c.Agrees store c'' where
  cached hx := by
    obtain ⟨y, hy, hxy⟩ := h.cached hx
    obtain ⟨z, hz, hyz⟩ := h'.cached hy
    exact ⟨z, hz, fun hm => hxy (hyz hm)⟩
  report := h'.report.trans h.report

/-- Two cached accounts under one address have one report. -/
theorem report_eq (h : c.Agrees store c') {address : Address} {x y : CachedAccount}
    (hx : c.get? address = some x) (hy : c'.get? address = some y) :
    y.report store address = x.report store address := by
  have hr := congrFun h.report address
  rw [report_of_cached store hx, report_of_cached store hy] at hr
  exact Except.ok.inj hr

/-- Accounts with one report may be put under one address on both sides. -/
theorem insert (h : c.Agrees store c') {address : Address} {x y : CachedAccount}
    (hr : y.report store address = x.report store address)
    (hm : y.isUnmodified → x.isUnmodified) :
    Accounts.Agrees store (c.insert address x) (c'.insert address y) where
  cached {b z} hz := by
    rw [WordMap.get?_insert] at hz ⊢
    by_cases hb : b = address
    · -- At the address both sides have what was put there, and elsewhere what they had.
      rw [if_pos hb] at hz ⊢
      cases hz
      exact ⟨y, rfl, hm⟩
    · rw [if_neg hb] at hz ⊢
      exact h.cached hz
  report := by rw [report_insert, report_insert, h.report, hr]

/-- Caching an account in place of one with the same report shows nowhere. -/
theorem insert_right {address : Address} {x y : CachedAccount} (hx : c.get? address = some x)
    (hr : y.report store address = x.report store address)
    (hm : y.isUnmodified → x.isUnmodified) :
    Accounts.Agrees store c (c.insert address y) where
  cached {b z} hz := by
    rw [WordMap.get?_insert]
    by_cases hb : b = address
    · -- The right side alone has changed, and what it has now is reported as before.
      subst hb
      rw [hx] at hz
      cases hz
      exact ⟨y, if_pos rfl, hm⟩
    · exact ⟨z, by rw [if_neg hb, hz], id⟩
  report := by
    rw [report_insert, hr, ← report_of_cached store hx, Function.update_eq_self]

/-- Caching an account as the store has it shows nowhere. -/
theorem insert_loaded {address : Address} {stored : Option StoredAccount}
    (hx : c.get? address = none) (hs : store.account address = .ok stored) :
    Accounts.Agrees store c (c.insert address (CachedAccount.ofStored stored)) where
  cached {b z} hz := by
    have hb : b ≠ address := fun hb => by rw [hb, hx] at hz; cases hz
    exact ⟨z, by rw [WordMap.get?_insert_of_ne c _ hb, hz], id⟩
  report := by
    -- What is not cached is reported as it would be loaded.
    have hr : c.report store address =
        .ok ((CachedAccount.ofStored stored).report store address) := by
      rw [report_of_missing store hx, hs]
      rfl
    rw [report_insert, ← hr, Function.update_eq_self]

end Accounts.Agrees

/-! ### One entry -/

theorem Accounts.amend_eq_ok {c d : Accounts} {address : Address}
    {f : CachedAccount → CachedAccount} (h : c.amend address f = .ok d) :
    ∃ x, c.get? address = some x ∧ d = c.insert address (f x) := by
  unfold Accounts.amend at h
  split at h
  · next x hx => exact ⟨x, hx, (Except.ok.inj h).symm⟩
  · cases h

theorem Accounts.amend_of_cached {c : Accounts} {address : Address} {x : CachedAccount}
    (f : CachedAccount → CachedAccount) (h : c.get? address = some x) :
    c.amend address f = .ok (c.insert address (f x)) := by
  simp only [Accounts.amend, h]

/-- A change of a cached account that shows in its report as a change of the report, leaves the
marks as they are, and caches the same slots whatever the account. -/
structure CachedAccount.Shows (f : CachedAccount → CachedAccount) (g : Report → Report) : Prop where
  report : ∀ store address x, (f x).report store address = g (x.report store address)
  status : ∀ x, (f x).status = x.status
  present : ∀ x, (f x).present = x.present
  slots : ∀ x y key, ((f y).storage.get? key).isSome →
    (y.storage.get? key).isSome ∨ ((f x).storage.get? key).isSome

namespace CachedAccount.Shows

theorem setBalance (balance : Word) :
    Shows (CachedAccount.setBalance balance) (Report.mapInfo ({ · with balance })) :=
  ⟨fun _ _ _ => rfl, fun _ => rfl, fun _ => rfl, fun _ _ _ => .inl⟩

theorem setNonce (nonce : UInt64) :
    Shows (CachedAccount.setNonce nonce) (Report.mapInfo ({ · with nonce })) :=
  ⟨fun _ _ _ => rfl, fun _ => rfl, fun _ => rfl, fun _ _ _ => .inl⟩

theorem setCodeHash (codeHash : Hash) :
    Shows (CachedAccount.setCodeHash codeHash) (Report.mapInfo ({ · with codeHash })) :=
  ⟨fun _ _ _ => rfl, fun _ => rfl, fun _ => rfl, fun _ _ _ => .inl⟩

theorem setSlot (key : Hash) (value : Word) :
    Shows (CachedAccount.setSlot key value) (Report.setSlot key value) where
  report store address x := x.report_setSlot store address key value
  status _ := rfl
  present _ := rfl
  slots x y key' h := by
    -- The slot is the only one that was not there before.
    unfold CachedAccount.setSlot at h ⊢
    rw [WordMap.get?_insert] at h ⊢
    by_cases hk : key' = key
    · rw [if_pos hk]
      exact .inr rfl
    · rw [if_neg hk] at h
      exact .inl h

theorem isUnmodified {f : CachedAccount → CachedAccount} {g : Report → Report} (h : Shows f g)
    (x : CachedAccount) : (f x).isUnmodified = x.isUnmodified := by
  unfold CachedAccount.isUnmodified
  rw [h.status]

end CachedAccount.Shows

theorem Accounts.Agrees.amend {store : Store} {c c' d : Accounts} {address : Address}
    {f : CachedAccount → CachedAccount} {g : Report → Report} (h : c.Agrees store c')
    (hf : CachedAccount.Shows f g) (hd : c.amend address f = .ok d) :
    ∃ d', c'.amend address f = .ok d' ∧ d.Agrees store d' := by
  obtain ⟨x, hx, rfl⟩ := amend_eq_ok hd
  obtain ⟨y, hy, hm⟩ := h.cached hx
  refine ⟨_, amend_of_cached f hy, h.insert ?_ ?_⟩
  · rw [hf.report, hf.report, h.report_eq hx hy]
  · rw [hf.isUnmodified, hf.isUnmodified]
    exact hm

namespace JournalEntry

variable {store : Store}

/-- **Undoing respects agreement.** An entry that can be undone on one side can be undone on a side
that has cached more, and what is reported afterwards is the same. -/
theorem undo_congr {c c' d : Accounts} {e : JournalEntry} (h : c.Agrees store c')
    (hd : e.undo c = .ok d) : ∃ d', e.undo c' = .ok d' ∧ d.Agrees store d' := by
  cases e with
  | created address previous =>
    -- The entry holds the account as a whole, so it does not matter what is cached by now.
    cases hd
    exact ⟨_, rfl, h.insert rfl id⟩
  | balance address previous => exact h.amend (.setBalance previous) hd
  | nonce address previous => exact h.amend (.setNonce previous) hd
  | code address previous => exact h.amend (.setCodeHash previous) hd
  | storage address key previous => exact h.amend (.setSlot key previous) hd

/-! ### All entries of a list -/

/-- Undoes the entries of a list from its head on. -/
def undoAll : List JournalEntry → Accounts → Except InternalError Accounts
  | [], c => .ok c
  | e :: es, c =>
    match e.undo c with
    | .ok c => undoAll es c
    | .error error => .error error

@[simp] theorem undoAll_nil (c : Accounts) : undoAll [] c = .ok c := rfl

theorem undoAll_cons {e : JournalEntry} {c d : Accounts} (h : e.undo c = .ok d)
    (es : List JournalEntry) : undoAll (e :: es) c = undoAll es d := by
  simp only [undoAll, h]

theorem undoAll_cons_ok {e : JournalEntry} {es : List JournalEntry} {c d : Accounts}
    (h : undoAll (e :: es) c = .ok d) : ∃ b, e.undo c = .ok b ∧ undoAll es b = .ok d := by
  unfold undoAll at h
  split at h
  · next b hb => exact ⟨b, hb, h⟩
  · cases h

theorem undoAll_append {es es' : List JournalEntry} {c d : Accounts} (h : undoAll es c = .ok d) :
    undoAll (es ++ es') c = undoAll es' d := by
  induction es generalizing c with
  | nil =>
    cases h
    rfl
  | cons e es ih =>
    obtain ⟨b, hb, hd⟩ := undoAll_cons_ok h
    rw [List.cons_append, undoAll_cons hb]
    exact ih hd

theorem undoAll_congr {es : List JournalEntry} {c c' d : Accounts} (h : c.Agrees store c')
    (hd : undoAll es c = .ok d) : ∃ d', undoAll es c' = .ok d' ∧ d.Agrees store d' := by
  induction es generalizing c c' with
  | nil =>
    cases hd
    exact ⟨c', rfl, h⟩
  | cons e es ih =>
    -- One entry is undone on both sides, and the others from there.
    obtain ⟨b, hb, hd⟩ := undoAll_cons_ok hd
    obtain ⟨b', hb', hbb⟩ := undo_congr h hb
    obtain ⟨d', hd', hdd⟩ := ih hbb hd
    exact ⟨d', by rw [undoAll_cons hb', hd'], hdd⟩

end JournalEntry

end MessageCall
