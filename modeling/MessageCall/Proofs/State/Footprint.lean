import MessageCall.Proofs.State.Reachable

/-!
# Footprints

Three parts of an account are changed by some operations and left alone by all others: its storage,
the digest of its code, and its nonce. A `Footprint` says of which accounts which of these parts may
be changed, and `Footprint.Permits` is what is then known of the report of an account before and
after. What is outside of the footprint is the same, also where reading it fails, and an account
that has existed still exists.

Each operation of a ledger has a footprint (`LedgerOp.writes`), which is that of one account or
empty. The ones that bring an account into existence have no other part of it in their footprints,
because an absent account shows the same slots, digest and nonce as a new one. That is where it
matters that the store is blank.

`Ledger.Confined` is the relation of a ledger to one that it leads to within a footprint. It
composes, and it is only asked for the smaller of two footprints that something has
(`Ledger.Confined.mono`), so the footprint of a run is put together from those of its steps.
-/

namespace MessageCall

/-- A part of an account, as far as footprints go. -/
inductive Part
  | storage
  | code
  | nonce

/-- A **footprint**: the parts of accounts that may be changed. -/
abbrev Footprint := Address → Part → Prop

/-- What is reported of an account **before and after** something has been done within a
footprint. -/
structure Footprint.Permits (F : Footprint) (address : Address)
    (before after : Except StoreError Report) : Prop where
  slot : ¬ F address .storage → ∀ key, after.bind (·.slot key) = before.bind (·.slot key)
  codeHash : ¬ F address .code → after.map (·.info.codeHash) = before.map (·.info.codeHash)
  nonce : ¬ F address .nonce → after.map (·.info.nonce) = before.map (·.info.nonce)
  /-- An account that has existed still exists. -/
  present : before.map (·.present) = .ok true → after.map (·.present) = .ok true

namespace Footprint.Permits

variable {F G : Footprint} {address : Address} {before between after : Except StoreError Report}

theorem refl (F : Footprint) (address : Address) (before : Except StoreError Report) :
    F.Permits address before before where
  slot _ _ := rfl
  codeHash _ := rfl
  nonce _ := rfl
  present h := h

theorem trans (h : F.Permits address before between) (h' : F.Permits address between after) :
    F.Permits address before after where
  slot hF key := (h'.slot hF key).trans (h.slot hF key)
  codeHash hF := (h'.codeHash hF).trans (h.codeHash hF)
  nonce hF := (h'.nonce hF).trans (h.nonce hF)
  present hp := h'.present (h.present hp)

/-- What is within a footprint is within every larger one. -/
theorem mono (h : F.Permits address before after) (hFG : F ≤ G) :
    G.Permits address before after where
  slot hG := h.slot fun hF => hG (hFG address _ hF)
  codeHash hG := h.codeHash fun hF => hG (hFG address _ hF)
  nonce hG := h.nonce fun hF => hG (hFG address _ hF)
  present := h.present

/-- An account that exists afterwards, in terms of its parts. -/
theorem of_present {r r' : Report} (hslot : ¬ F address .storage → r'.slot = r.slot)
    (hcode : ¬ F address .code → r'.info.codeHash = r.info.codeHash)
    (hnonce : ¬ F address .nonce → r'.info.nonce = r.info.nonce) (hp : r'.present = true) :
    F.Permits address (.ok r) (.ok r') where
  slot hF key := congrFun (hslot hF) key
  codeHash hF := congrArg Except.ok (hcode hF)
  nonce hF := congrArg Except.ok (hnonce hF)
  present _ := congrArg Except.ok hp

end Footprint.Permits

/-! ### Operations of a ledger -/

/-- The footprint of an operation. A new account has all its parts replaced. -/
def LedgerOp.writes : LedgerOp → Footprint
  | .createAccount a => fun b _ => b = a
  | .setNonce a _ => fun b part => b = a ∧ part = .nonce
  | .setCode a _ => fun b part => b = a ∧ part = .code
  | .setSlot a _ _ => fun b part => b = a ∧ part = .storage
  | _ => fun _ _ => False

section

variable {store : Store} {l l' : Ledger} {F G : Footprint} {address : Address}

/-- A write is within a footprint if what it does to a present account is. -/
theorem LedgerOp.writing_permits (hstore : store.Blank) (h : l.Sound store) {f : Change}
    (hf : ∀ r g, l.report store address = .ok r → f r = .ok g →
      F.Permits address (.ok r) (.ok (g { r with present := true }))) (a : Address) :
    F.Permits a (l.report store a) ((writing store address f (l.report store)).2 a) := by
  unfold writing
  -- A failed write changes no report.
  cases hr : l.report store address with
  | error e => exact .refl F a _
  | ok r =>
    cases hg : f r with
    | error e =>
      simp only [Change.apply, hg, Except.map, reportsAfter]
      exact .refl F a _
    | ok g =>
      simp only [Change.apply, hg, Except.map, reportsAfter, h.enliven_eq hstore hr]
      -- A write shows at its own address only.
      by_cases ha : a = address
      · subst ha
        rw [Function.update_self, hr]
        exact hf r g hr hg
      · rw [Function.update_of_ne ha]
        exact .refl F a _

/-- **Every operation stays within its footprint.** -/
theorem LedgerOp.onReports_permits (hstore : store.Blank) (h : l.Sound store) {op : LedgerOp}
    (hop : op.writes ≤ F) (codes : WordMap 256 Bytes) (a : Address) :
    F.Permits a (l.report store a) ((op.onReports store codes (l.report store)).2 a) := by
  -- A change of balance changes none of the three parts.
  have moves : ∀ (address : Address) (move : Word → Option Word) (failure : InternalError)
      (r : Report) (g : Report → Report), l.report store address = .ok r →
      Change.moveBalance move failure r = .ok g →
      F.Permits address (.ok r) (.ok (g { r with present := true })) := by
    intro address move failure r g _ hg
    unfold Change.moveBalance at hg
    split at hg
    · cases hg
      exact .of_present (fun _ => rfl) (fun _ => rfl) (fun _ => rfl) rfl
    · cases hg
  cases op with
  | createAccount address =>
    refine writing_permits hstore h (fun r g _ hg => ?_) a
    cases hg
    -- A creation may change all three parts of its account.
    have hall : ∀ part, F address part := fun part => hop address part rfl
    exact .of_present (fun hF => absurd (hall _) hF) (fun hF => absurd (hall _) hF)
      (fun hF => absurd (hall _) hF) rfl
  | addBalance address amount => exact writing_permits hstore h (moves address _ _) a
  | subBalance address amount => exact writing_permits hstore h (moves address _ _) a
  -- A nonce, a code and a slot count as the part they belong to.
  | setNonce address value =>
    refine writing_permits hstore h (fun r g _ hg => ?_) a
    cases hg
    have hnonce : F address .nonce := hop address .nonce ⟨rfl, rfl⟩
    exact .of_present (fun _ => rfl) (fun _ => rfl) (fun hF => absurd hnonce hF) rfl
  | setCode address bytes =>
    refine writing_permits hstore h (fun r g _ hg => ?_) a
    cases hg
    have hcode : F address .code := hop address .code ⟨rfl, rfl⟩
    exact .of_present (fun _ => rfl) (fun hF => absurd hcode hF) (fun _ => rfl) rfl
  | setSlot address key value =>
    refine writing_permits hstore h (fun r g _ hg => ?_) a
    have hstorage : F address .storage := hop address .storage ⟨rfl, rfl⟩
    unfold Change.setSlot at hg
    split at hg
    · cases hg
      exact .of_present (fun hF => absurd hstorage hF) (fun _ => rfl) (fun _ => rfl) rfl
    · cases hg
  | _ => exact .refl F a _

/-- Creating an account where there is none changes nothing else of it. -/
theorem LedgerOp.createAccount_permits (hstore : store.Blank) (h : l.Sound store)
    (habsent : (l.report store address).map (·.present) = .ok false) (a : Address) :
    F.Permits a (l.report store a) ((writing store address .create (l.report store)).2 a) := by
  refine writing_permits hstore h (fun r g hr hg => ?_) a
  cases hg
  have hp : r.present = false := by
    rw [hr] at habsent
    exact Except.ok.inj habsent
  -- What is reported of the absent account is what the new account starts with.
  have hinfo : r.info = {} := h.info_of_absent hr hp
  refine .of_present (fun _ => ?_) (fun _ => ?_) (fun _ => ?_) rfl
  · funext key
    exact (h.slot_of_absent hr hp key).symm
  · rw [hinfo]
    rfl
  · rw [hinfo]
    rfl

namespace Ledger

/-- **Confinement**: one ledger leads to another, and all that is different is in the footprint. -/
structure Confined (store : Store) (F : Footprint) (l l' : Ledger) : Prop where
  leads : Leads store l l'
  permits : l.Sound store → ∀ a, F.Permits a (l.report store a) (l'.report store a)

instance : IsPreorder Ledger (Confined store F) where
  refl l := ⟨.refl l, fun _ a => .refl F a _⟩
  trans _ _ _ h h' := ⟨h.leads.trans h'.leads, fun hl a =>
    (h.permits hl a).trans (h'.permits (h.leads.evolves hl).sound a)⟩

theorem Confined.mono (h : Confined store F l l') (hFG : F ≤ G) : Confined store G l l' where
  leads := h.leads
  permits hl a := (h.permits hl a).mono hFG

/-- An operation whose footprint is in another one is confined to that. -/
theorem confined_op (hstore : store.Blank) (op : LedgerOp) (hop : op.writes ≤ F) (l : Ledger) :
    Confined store F l (op.perform store l).2 where
  leads := (Leads.refl l).op op
  permits hl a := by
    obtain ⟨l', hm, -, hreport, -⟩ := perform_spec hl op
    rw [hm, hreport]
    exact op.onReports_permits hstore hl hop l.codes a

/-! What clients read of a ledger that is confined. -/

namespace Confined

theorem slot_eq (h : Confined store F l l') (hl : l.Sound store) (hF : ¬ F address .storage)
    (key : Hash) : (Ledger.slot store address key l').1 = (Ledger.slot store address key l).1 := by
  rw [hl.slot_eq, (h.leads.evolves hl).sound.slot_eq, (h.permits hl address).slot hF key]

theorem codeHash_eq (h : Confined store F l l') (hl : l.Sound store) (hF : ¬ F address .code) :
    (Ledger.codeHash store address l').1 = (Ledger.codeHash store address l).1 := by
  rw [hl.codeHash_eq, (h.leads.evolves hl).sound.codeHash_eq, (h.permits hl address).codeHash hF]

theorem nonce_eq (h : Confined store F l l') (hl : l.Sound store) (hF : ¬ F address .nonce) :
    (Ledger.nonce store address l').1 = (Ledger.nonce store address l).1 := by
  rw [hl.nonce_eq, (h.leads.evolves hl).sound.nonce_eq, (h.permits hl address).nonce hF]

/-- No account is gone. -/
theorem accountExists (h : Confined store F l l') (hl : l.Sound store)
    (hp : (Ledger.accountExists store address l).1 = .ok true) :
    (Ledger.accountExists store address l').1 = .ok true := by
  rw [hl.accountExists_eq, asked_eq_ok] at hp
  rw [(h.leads.evolves hl).sound.accountExists_eq, (h.permits hl address).present hp]
  rfl

end Confined

end Ledger

end

end MessageCall
