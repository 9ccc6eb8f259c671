import MessageCall.Proofs.State.Reachable

/-!
# Operations are atomic

An operation that fails has loaded the account that it is about, if it got that far, and has done
nothing else to the ledger (`Ledger.perform_error`). This holds of the writing operations too, since
each of them does all that can fail before its first change, and what it does afterwards it does to
an account that is cached by then.

Loading an account shows nowhere (`Ledger.Untouched`): the journal stays as it is, every question
gets the answer that it got before, be it an error, and the net effect is the same, since an account
that was just read is not marked as written. None of this asks anything of the store. It may refuse
any question, as long as it does so every time.
-/

namespace MessageCall

namespace Ledger

variable {store : Store} {l l' : Ledger} {address : Address}

/-! ### Ledgers that have only read more -/

/-- Nothing that is asked of `l'` tells it from `l`. -/
structure Untouched (store : Store) (l l' : Ledger) : Prop where
  /-- No entry is new and none is gone. -/
  journal : l'.journal = l.journal
  transitions : l'.transitions = l.transitions
  accountExists : ∀ address,
    (Ledger.accountExists store address l').1 = (Ledger.accountExists store address l).1
  account : ∀ address, (Ledger.account store address l').1 = (Ledger.account store address l).1
  balance : ∀ address, (Ledger.balance store address l').1 = (Ledger.balance store address l).1
  nonce : ∀ address, (Ledger.nonce store address l').1 = (Ledger.nonce store address l).1
  codeHash : ∀ address, (Ledger.codeHash store address l').1 = (Ledger.codeHash store address l).1
  code : ∀ address, (Ledger.code store address l').1 = (Ledger.code store address l).1
  slot : ∀ address key,
    (Ledger.slot store address key l').1 = (Ledger.slot store address key l).1

theorem Untouched.refl (store : Store) (l : Ledger) : Untouched store l l where
  journal := rfl
  transitions := rfl
  accountExists _ := rfl
  account _ := rfl
  balance _ := rfl
  nonce _ := rfl
  codeHash _ := rfl
  code _ := rfl
  slot _ _ := rfl

theorem Untouched.trans {l'' : Ledger} (h : Untouched store l l') (h' : Untouched store l' l'') :
    Untouched store l l'' where
  journal := h'.journal.trans h.journal
  transitions := h'.transitions.trans h.transitions
  accountExists a := (h'.accountExists a).trans (h.accountExists a)
  account a := (h'.account a).trans (h.account a)
  balance a := (h'.balance a).trans (h.balance a)
  nonce a := (h'.nonce a).trans (h.nonce a)
  codeHash a := (h'.codeHash a).trans (h.codeHash a)
  code a := (h'.code a).trans (h.code a)
  slot a key := (h'.slot a key).trans (h.slot a key)

/-- Looking shows nowhere but perhaps in the net effect, where the same code is found. -/
theorem Looks.untouched (h : l.Sound store) (hl : Looks store l l')
    (ht : l'.transitions = l.transitions)
    (hc : ∀ codeHash, codeOver store l'.codes codeHash = codeOver store l.codes codeHash) :
    Untouched store l l' where
  -- Every look answers from the report, which the look has not changed.
  journal := hl.journal
  transitions := ht
  accountExists a := by rw [h.accountExists_eq, hl.sound.accountExists_eq, hl.report]
  account a := by
    obtain ⟨_, hm, -⟩ := account_spec h a
    obtain ⟨_, hm', -⟩ := account_spec hl.sound a
    rw [hm, hm', hl.report]
  balance a := by rw [h.balance_eq, hl.sound.balance_eq, hl.report]
  nonce a := by rw [h.nonce_eq, hl.sound.nonce_eq, hl.report]
  codeHash a := by rw [h.codeHash_eq, hl.sound.codeHash_eq, hl.report]
  code a := by
    obtain ⟨_, hm, -⟩ := code_spec h a
    obtain ⟨_, hm', -⟩ := code_spec hl.sound a
    rw [hm, hm', hl.report]
    simp only [hc]
  slot a key := by rw [h.slot_eq, hl.sound.slot_eq, hl.report]

theorem LooksAt.untouched (h : l.Sound store) (hl : LooksAt store address l l')
    (ht : l'.transitions = l.transitions) : Untouched store l l' :=
  hl.toLooks.untouched h ht fun _ => by rw [hl.codes]

/-! ### Loading and the net effect -/

/-- An account without an update adds nothing wherever it is put. -/
theorem updates_insertEntry {x : CachedAccount} (hx : l.update? address x = .ok none)
    {es : List (Address × CachedAccount)} (hes : ∀ e ∈ es, e.1 ≠ address) :
    l.updates (WordMap.insertEntry address x es) = l.updates es := by
  have skip : ∀ es, l.updates ((address, x) :: es) = l.updates es := by
    intro es
    simp only [updates, hx]
    cases l.updates es <;> rfl
  induction es with
  | nil => exact skip []
  | cons e rest ih =>
    have hne : address ≠ e.1 := (hes e List.mem_cons_self).symm
    simp only [WordMap.insertEntry, if_neg hne]
    split
    · exact skip _
    · simp only [updates, ih fun f hf => hes f (List.mem_cons_of_mem _ hf)]

/-- An account that has just been read is not marked, so it adds nothing to the net effect. -/
theorem transitions_putLoaded (hx : l.current.get? address = none) (stored : Option StoredAccount) :
    (l.putLoaded address (.ofStored stored)).transitions = l.transitions := by
  have hunmarked : (CachedAccount.ofStored stored).isUnmodified = true := by cases stored <;> rfl
  have hnone : (l.putLoaded address (.ofStored stored)).update? address (.ofStored stored) =
      .ok none := by
    simp only [update?, hunmarked, if_true]
  -- The loaded address has no entry yet, so the update of every other entry is as before.
  have hne : ∀ e ∈ l.current.entries, e.1 ≠ address := by
    intro e he heq
    have hfound := WordMap.get?_of_mem he
    rw [heq, hx] at hfound
    cases hfound
  have hrest : ∀ e ∈ l.current.entries,
      (l.putLoaded address (.ofStored stored)).update? e.1 e.2 = l.update? e.1 e.2 := by
    intro e he
    -- What was first read of the others is where it was, and so is the code.
    have hinitial : (l.putLoaded address (.ofStored stored)).initial.get? e.1 =
        l.initial.get? e.1 := WordMap.get?_insert_of_ne _ _ (hne e he)
    simp only [update?, hinitial]
    rfl
  calc (l.putLoaded address (.ofStored stored)).transitions
      = (l.putLoaded address (.ofStored stored)).updates l.current.entries :=
        updates_insertEntry hnone hne
    _ = l.transitions := updates_congr hrest

/-- **Loading shows nowhere**, whether it succeeds or fails. -/
theorem Sound.untouched_load (h : l.Sound store) (address : Address) :
    Untouched store l (load store address l).2 := by
  rcases load_spec h address with ⟨x, l', hload, -, -, hl⟩ | ⟨e, hload, -⟩
  · refine LooksAt.untouched h (by rw [hload]; exact hl) ?_
    cases hc : l.current.get? address with
    | some y => rw [load_of_cached hc]
    | none =>
      have hi := h.coherent.initial_of_missing hc
      cases hs : store.account address with
      | error e => simp only [load, hc, hi, hs]
      | ok stored =>
        simp only [load, hc, hi, hs]
        exact transitions_putLoaded hc stored
  · rw [hload]
    exact .refl store l

theorem Sound.after_load (h : l.Sound store) (address : Address) :
    (load store address l).2.Sound store := by
  rcases load_spec h address with ⟨x, l', hl, -, -, hlooks⟩ | ⟨e, hl, -⟩
  · rw [hl]
    exact hlooks.sound
  · rw [hl]
    exact h

/-- To read a part of an account is to load it. -/
theorem snd_load_map {α : Type} (f : CachedAccount → α) (l : Ledger) :
    ((load store address >>= fun x => pure (f x)) l).2 = (load store address l).2 := by
  rw [Attempt.bind_pure_apply]

/-- To read a part of an account's info is to load it. -/
theorem snd_account_map {α : Type} (f : AccountInfo → α) (l : Ledger) :
    ((account store address >>= fun info => pure (f info)) l).2 = (load store address l).2 := by
  rw [Attempt.bind_pure_apply]
  exact snd_load_map _ l

/-! ### Reading code and the net effect -/

/-- New code was at hand before, so that it is not looked for among what is put there. -/
theorem changedCode_putCode {x before : CachedAccount} {codeHash : Hash}
    (hx : x.Faithful store address l.codes before) (hc : l.codes.get? codeHash = none)
    (code : Bytes) : (l.putCode codeHash code).changedCode before x = l.changedCode before x := by
  unfold changedCode
  rcases hx.code with hsame | hempty | ⟨known, hknown, -⟩
  · rw [if_pos hsame.symm, if_pos hsame.symm]
  · simp only [if_pos hempty]
  · have hne : x.info.codeHash ≠ codeHash := by
      intro heq
      rw [heq, hc] at hknown
      cases hknown
    rw [show (l.putCode codeHash code).codes.get? x.info.codeHash =
      l.codes.get? x.info.codeHash from WordMap.get?_insert_of_ne _ _ hne]

/-- Code that has just been read adds nothing to the net effect. -/
theorem Sound.transitions_putCode (h : l.Sound store) {codeHash : Hash}
    (hc : l.codes.get? codeHash = none) (code : Bytes) :
    (l.putCode codeHash code).transitions = l.transitions := by
  refine updates_congr fun e he => ?_
  obtain ⟨before, hb⟩ := h.coherent.initial_of_cached (WordMap.get?_of_mem he)
  have hcode := changedCode_putCode (h.coherent.faithful (WordMap.get?_of_mem he) hb) hc code
  have hb' : (l.putCode codeHash code).initial.get? e.1 = some before := hb
  unfold update?
  simp only [hb, hb', hcode]

theorem Sound.untouched_codeOf (h : l.Sound store) (codeHash : Hash) :
    Untouched store l (codeOf store codeHash l).2 := by
  -- The store is asked only for code that is neither empty nor at hand.
  unfold codeOf
  by_cases hempty : codeHash = emptyCodeHash
  · rw [if_pos hempty]
    exact .refl store l
  · rw [if_neg hempty]
    cases hc : l.codes.get? codeHash with
    | some code => exact .refl store l
    | none =>
      cases hs : store.code codeHash with
      | error e => exact .refl store l
      | ok code =>
        have hlooks : Looks store l (l.putCode codeHash code) := .of_codes h (.insert_new hc code)
        refine hlooks.untouched h (h.transitions_putCode hc code) fun k => ?_
        -- What is at hand now is what the store would have answered.
        by_cases hk : k = codeHash
        · subst hk
          simp only [codeOver, if_neg hempty, putCode, WordMap.get?_insert_self, hc, hs]
        · simp only [codeOver, putCode, WordMap.get?_insert_of_ne _ _ hk]

/-- **Reading code shows nowhere**, whether it succeeds or fails. -/
theorem Sound.untouched_code (h : l.Sound store) (address : Address) :
    Untouched store l (code store address l).2 := by
  have hload := h.untouched_load address
  have hdigest : (codeHash store address l).2 = (load store address l).2 := snd_account_map _ l
  unfold code
  rw [Attempt.bind_apply]
  rcases hread : codeHash store address l with ⟨e | digest, l₁⟩
  · rw [hread] at hdigest
    obtain rfl : l₁ = _ := hdigest
    exact hload
  · rw [hread] at hdigest
    obtain rfl : l₁ = _ := hdigest
    exact hload.trans ((h.after_load address).untouched_codeOf digest)

/-! ### What a failing step leaves -/

/-- A step that has only loaded an account by the time it fails. -/
def FailsLoading {α : Type} (store : Store) (address : Address) (l : Ledger) (m : Step α) : Prop :=
  ∀ ⦃e l'⦄, m l = (.error e, l') → l' = (load store address l).2

namespace FailsLoading

variable {α β : Type}

/-- A step that loads first, and leaves what it then finds if it fails later on. -/
theorem of_load {f : CachedAccount → Step α}
    (hf : ∀ ⦃x l₁⦄, load store address l = (.ok x, l₁) → l₁.current.get? address = some x →
      ∀ ⦃e l'⦄, f x l₁ = (.error e, l') → l' = l₁) :
    FailsLoading store address l (load store address >>= f) := by
  intro e l' he
  rcases hload : load store address l with ⟨r, l₁⟩
  cases r with
  | error e₁ =>
    rw [Attempt.bind_of_error hload] at he
    cases he
    rfl
  | ok x =>
    rw [Attempt.bind_of_ok hload] at he
    exact hf hload (cached_of_load hload) he

/-- A step that loads and answers does not fail later on. -/
theorem of_load_pure (f : CachedAccount → α) :
    FailsLoading store address l (load store address >>= fun x => pure (f x)) :=
  of_load fun _ _ _ _ _ _ he => by cases he

/-- What cannot fail may follow. -/
theorem bind {m : Step α} {f : α → Step β} (hm : FailsLoading store address l m)
    (hf : ∀ ⦃a l₁⦄, m l = (.ok a, l₁) → ∃ b l₂, f a l₁ = (.ok b, l₂)) :
    FailsLoading store address l (m >>= f) := by
  intro e l' he
  rcases hml : m l with ⟨r, l₁⟩
  cases r with
  | error e₁ =>
    rw [Attempt.bind_of_error hml] at he
    cases he
    exact hm hml
  | ok a =>
    obtain ⟨b, l₂, hb⟩ := hf hml
    rw [Attempt.bind_of_ok hml, hb] at he
    cases he

end FailsLoading

/-- An account that is cached can be written. -/
theorem revise_record_of_cached (store : Store) {x : CachedAccount}
    (hx : l.current.get? address = some x) (f : CachedAccount → CachedAccount)
    (entry : JournalEntry) :
    ∃ l₁, (revise store address f >>= fun _ => modify (record entry)) l = (.ok (), l₁) :=
  ⟨_, by rw [Attempt.bind_of_ok (revise_of_cached hx f)]; rfl⟩

/-! ### The operations -/

theorem moveBalance_failsLoading (f : Word → Option Word) (failure : InternalError) :
    FailsLoading store address l (do
      let previous ← balance store address
      match f previous with
      | some balance => setBalance store address previous balance
      | none => throw failure) := by
  simp only [balance, account, bind_assoc, pure_bind]
  refine .of_load fun x l₁ _ hx e l' he => ?_
  cases hf : f x.info.balance with
  | none =>
    simp only [hf, Attempt.throw_apply] at he
    cases he
    rfl
  | some balance =>
    -- The amount fits, so nothing is left to go wrong.
    simp only [hf] at he
    obtain ⟨l₂, hw⟩ := revise_record_of_cached store hx (.setBalance balance)
      (.balance address x.info.balance)
    rw [show setBalance store address x.info.balance balance l₁ = (.ok (), l₂) from hw] at he
    cases he

theorem setNonce_failsLoading (value : UInt64) :
    FailsLoading store address l (setNonce store address value) := by
  simp only [setNonce, nonce, account, bind_assoc, pure_bind]
  refine .of_load fun x l₁ _ hx e l' he => ?_
  obtain ⟨l₂, hw⟩ := revise_record_of_cached store hx (.setNonce value)
    (.nonce address x.info.nonce)
  rw [hw] at he
  cases he

theorem setCode_failsLoading (code : Bytes) :
    FailsLoading store address l (setCode store address code) := by
  simp only [setCode, codeHash, account, bind_assoc, pure_bind]
  refine .of_load fun x l₁ _ hx e l' he => ?_
  -- The new code is put at hand first, which leaves the accounts as they are.
  have hx₁ : (l₁.putCode (keccak code) code).current.get? address = some x := hx
  obtain ⟨l₂, hw⟩ := revise_record_of_cached store hx₁ (.setCodeHash (keccak code))
    (.code address x.info.codeHash)
  rw [Attempt.bind_of_ok (Attempt.modify_apply _ _), hw] at he
  cases he

theorem createAccount_failsLoading :
    FailsLoading store address l (createAccount store address) :=
  .of_load fun _ _ _ _ _ _ he => by cases he

theorem code_failsLoading : FailsLoading store address l (code store address) := by
  simp only [code, codeHash, account, bind_assoc, pure_bind]
  refine .of_load fun x l₁ _ _ e l' he => ?_
  unfold codeOf at he
  split at he
  · cases he
  · split at he
    · cases he
    · split at he
      · cases he
        rfl
      · cases he

theorem slot_failsLoading (h : l.Sound store) (key : Hash) :
    FailsLoading store address l (slot store address key) := by
  unfold slot
  refine .of_load fun x l₁ hload hx e l' he => ?_
  -- A cached slot is answered without the store.
  cases hk : x.storage.get? key with
  | some value =>
    simp only [hk] at he
    cases he
  | none =>
    simp only [hk] at he
    split at he
    · cases he
    · -- The store may refuse the slot. The account has been read, so there is where to note it.
      have hsound : l₁.Sound store := by
        rcases load_spec h address with ⟨_, _, hl, -, -, hlooks⟩ | ⟨_, hl, -⟩
        · cases hl.symm.trans hload
          exact hlooks.sound
        · cases hl.symm.trans hload
      obtain ⟨before, hb⟩ := hsound.coherent.initial_of_cached hx
      cases hv : store.slot address key with
      | error e₁ =>
        have hl : loadSlot store address key l₁ = (.error (.store e₁), l₁) := by
          simp only [loadSlot, hv]
        rw [Attempt.bind_of_error hl] at he
        cases he
        rfl
      | ok value =>
        have hl : loadSlot store address key l₁ = (.ok value, { l₁ with
            initial := l₁.initial.insert address (before.setSlot key value) }) := by
          simp only [loadSlot, hv, hb]
        have hx₁ : ({ l₁ with initial := l₁.initial.insert address (before.setSlot key value) }
            : Ledger).current.get? address = some x := hx
        rw [Attempt.bind_of_ok hl, Attempt.bind_of_ok (load_of_cached hx₁)] at he
        cases he

theorem setSlot_failsLoading (h : l.Sound store) (key : Hash) (value : Word) :
    FailsLoading store address l (setSlot store address key value) := by
  refine (slot_failsLoading h key).bind fun previous l₁ hs => ?_
  -- The slot was answered, so its account is cached.
  obtain ⟨l₂, hs', hl, -⟩ := slot_spec h address key
  obtain ⟨hanswer, rfl⟩ := Prod.mk.inj (hs.symm.trans hs')
  cases hr : l.report store address with
  | error e =>
    rw [hr] at hanswer
    cases hanswer
  | ok r =>
    obtain ⟨x, hx, -⟩ := hl.cached hr
    obtain ⟨l₃, hw⟩ := revise_record_of_cached store hx (.setSlot key value)
      (.storage address key previous)
    exact ⟨(), l₃, hw⟩

end Ledger

/-- The address that an operation is about. -/
def LedgerOp.address : LedgerOp → Address
  | .accountExists a | .createAccount a | .account a | .balance a | .nonce a | .codeHash a
  | .code a | .slot a _ | .addBalance a _ | .subBalance a _ | .setNonce a _ | .setCode a _
  | .setSlot a _ _ => a

namespace Ledger

variable {store : Store} {l l' : Ledger}

/-- **An operation that fails has at most loaded the account that it is about.** -/
theorem perform_error (h : l.Sound store) (op : LedgerOp) :
    FailsLoading store op.address l (op.perform store) := by
  -- To answer is all that an operation does after its own step.
  have answering : ∀ {α : Type} {a : Address} {m : Step α} (f : α → Answer),
      FailsLoading store a l m → FailsLoading store a l (m >>= fun v => pure (f v)) :=
    fun f hm => hm.bind fun v l₁ _ => ⟨f v, l₁, rfl⟩
  have reading : ∀ {α : Type} {a : Address} (f : AccountInfo → α),
      FailsLoading store a l (Ledger.account store a >>= fun info => pure (f info)) := by
    intro α a f
    simp only [Ledger.account, bind_assoc, pure_bind]
    exact .of_load_pure fun x => f x.info
  -- In the order of the operations, each with the one way its first step can fail.
  cases op with
  | accountExists a => exact answering _ (.of_load_pure (·.present))
  | createAccount a => exact answering _ createAccount_failsLoading
  | account a => exact answering _ (.of_load_pure (·.info))
  | balance a => exact answering _ (reading (·.balance))
  | nonce a => exact answering _ (reading (·.nonce))
  | codeHash a => exact answering _ (reading (·.codeHash))
  | code a => exact answering _ code_failsLoading
  | slot a key => exact answering _ (slot_failsLoading h key)
  | addBalance a amount => exact answering _ (moveBalance_failsLoading (·.add? amount) .overflow)
  | subBalance a amount => exact answering _ (moveBalance_failsLoading (·.sub? amount) .underflow)
  | setNonce a value => exact answering _ (setNonce_failsLoading value)
  | setCode a bytes => exact answering _ (setCode_failsLoading bytes)
  | setSlot a key value => exact answering _ (setSlot_failsLoading h key value)

/-- What an operation fails with. -/
theorem error_cases (h : l.Sound store) {op : LedgerOp} {e : InternalError}
    (he : (op.perform store l).1 = .error e) :
    (∃ cause, e = .store cause) ∨
    (e = .overflow ∧ ∃ a amount, op = .addBalance a amount) ∨
    (e = .underflow ∧ ∃ a amount, op = .subBalance a amount) := by
  obtain ⟨_, hm, -⟩ := perform_spec h op
  rw [hm] at he
  -- A read fails with what the store answers.
  have looked : ∀ {α : Type} {r : Except StoreError α} {answer : α → Answer},
      (asked r).map answer = .error e → ∃ cause, e = .store cause := by
    intro α r answer hr
    cases r with
    | error cause => exact ⟨cause, (Except.error.inj hr).symm⟩
    | ok a => cases hr
  -- A write fails with that too, or else with what stops it once the account is there.
  have wrote : ∀ {a : Address} {f : Change},
      ((f.apply store a (l.report store a)).map fun _ => Answer.done) = .error e →
        (∃ cause, e = .store cause) ∨ ∃ r, f r = .error e := by
    intro a f hf
    cases hr : l.report store a with
    | error cause =>
      rw [hr] at hf
      exact .inl ⟨cause, (Except.error.inj hf).symm⟩
    | ok r =>
      refine .inr ⟨r, ?_⟩
      simp only [hr, Change.apply] at hf
      cases hfr : f r with
      | error e₁ =>
        rw [hfr] at hf
        exact congrArg Except.error (Except.error.inj hf)
      | ok g =>
        rw [hfr] at hf
        cases hf
  have moved : ∀ {f : Word → Option Word} {failure : InternalError} {r : Report},
      Change.moveBalance f failure r = .error e → e = failure := by
    intro f failure r hr
    unfold Change.moveBalance at hr
    split at hr
    · cases hr
    · exact (Except.error.inj hr).symm
  -- Which of the three errors it is depends on the operation only.
  cases op with
  | accountExists a | account a | balance a | nonce a | codeHash a | code a | slot a key =>
    exact .inl (looked he)
  | createAccount a | setNonce a value | setCode a bytes =>
    obtain hcause | ⟨_, hr⟩ := wrote he
    · exact .inl hcause
    · cases hr
  -- Only a credit can overflow, and only a debit can go below zero.
  | addBalance a amount =>
    obtain hcause | ⟨_, hr⟩ := wrote he
    · exact .inl hcause
    · exact .inr (.inl ⟨moved hr, a, amount, rfl⟩)
  | subBalance a amount =>
    obtain hcause | ⟨_, hr⟩ := wrote he
    · exact .inl hcause
    · exact .inr (.inr ⟨moved hr, a, amount, rfl⟩)
  -- The slot is read before it is written, and that read may fail as well.
  | setSlot a key value =>
    obtain hcause | ⟨_, hr⟩ := wrote he
    · exact .inl hcause
    · unfold Change.setSlot at hr
      split at hr
      · cases hr
      · next cause _ => exact .inl ⟨cause, (Except.error.inj hr).symm⟩

/-- Going back fails exactly if it would go forward, and then nothing happens. -/
theorem Sound.revertTo_error_iff (h : l.Sound store) {mark : Snapshot} {e : InternalError} :
    Ledger.revertTo mark l = (.error e, l') ↔
      l.snapshot < mark ∧ e = .invalidSnapshot (UInt64.ofNat mark) ∧ l' = l := by
  by_cases hmark : l.snapshot < mark
  · rw [revertTo_beyond hmark, Prod.mk.injEq, Except.error.injEq, eq_comm (b := e),
      eq_comm (b := l')]
    exact (and_iff_right hmark).symm
  · obtain ⟨_, _, _, -, -, -, hr, -⟩ := h.exists_revertTo (Nat.le_of_not_lt hmark)
    constructor
    · intro he
      cases hr.symm.trans he
    · intro he
      exact absurd he.1 hmark

end Ledger

/-! ### Atomicity -/

/-- What can be asked of the state under an execution. -/
inductive StateCall
  | op (action : LedgerOp)
  | revertTo (mark : Ledger.Snapshot)
  deriving DecidableEq

namespace StateCall

/-- The call on a ledger. -/
def perform (store : Store) : StateCall → Ledger.Step Answer
  | .op action => action.perform store
  | .revertTo mark => do
    Ledger.revertTo mark
    return .done

/-- What a call may fail with. -/
def MayFail (l : Ledger) : StateCall → InternalError → Prop
  | .op action, e =>
    (∃ cause, e = .store cause) ∨
    (e = .overflow ∧ ∃ a amount, action = .addBalance a amount) ∨
    (e = .underflow ∧ ∃ a amount, action = .subBalance a amount)
  | .revertTo mark, e => l.snapshot < mark ∧ e = .invalidSnapshot (UInt64.ofNat mark)

/-- **A call that fails changes nothing.** Whatever the store refuses to answer, the ledger that a
failing call leaves has the journal and the net effect of the one before, and gives the same answer
to every question. The only errors are those of the store, balances that do not fit, and snapshots
beyond the journal. -/
theorem untouched_of_error {store : Store} {l l' : Ledger} (h : Ledger.Reachable store l)
    {call : StateCall} {e : InternalError} (he : call.perform store l = (.error e, l')) :
    Ledger.Untouched store l l' ∧ call.MayFail l e := by
  cases call with
  -- A failed operation leaves what its load alone would have left.
  | op action =>
    obtain rfl := Ledger.perform_error h.sound action he
    exact ⟨h.sound.untouched_load action.address,
      Ledger.error_cases h.sound (congrArg Prod.fst he)⟩
  | revertTo mark =>
    -- Going back fails only before it undoes anything.
    have hr : Ledger.revertTo mark l = (.error e, l') := by
      change (Ledger.revertTo mark >>= fun _ => pure Answer.done) l = _ at he
      rcases hm : Ledger.revertTo mark l with ⟨r, l₁⟩
      cases r with
      | error e₁ =>
        rw [Attempt.bind_of_error hm] at he
        cases he
        rfl
      | ok _ =>
        rw [Attempt.bind_of_ok hm] at he
        cases he
    obtain ⟨hmark, heq, rfl⟩ := h.sound.revertTo_error_iff.mp hr
    exact ⟨.refl store l', hmark, heq⟩

/-- A write to a slot that the store does not answer for, to an account that was written before. -/
theorem untouched_of_error_outage :
    let store := Store.sample.withOutages { storage := fun _ => true }
    let l := ((LedgerOp.addBalance 1 2).perform store {}).2
    let write := StateCall.op (.setSlot 1 3 4)
    let e := InternalError.store (.custom "storage unavailable")
    (write.perform store l).1 = .error e ∧
      Ledger.Untouched store l (write.perform store l).2 ∧ write.MayFail l e := by
  intro store l write e
  have he : (write.perform store l).1 = .error e := by decide +kernel
  exact ⟨he, untouched_of_error (.op .new (.addBalance 1 2)) (Prod.ext he rfl)⟩

end StateCall

end MessageCall
