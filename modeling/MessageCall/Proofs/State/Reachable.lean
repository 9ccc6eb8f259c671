import MessageCall.Proofs.State.Operations
import MessageCall.Proofs.State.Updates
import Mathlib.Data.List.Perm.Basic

/-!
# Where a ledger gets to and what shows of it

Whatever is built on a ledger changes it by its operations and by going back to points that it has
passed on the way. `Ledger.Leads` is the least relation with these steps. It composes, so it may be
established piece by piece, and from a sound ledger it implies `Ledger.Evolves`. Operations that
only read make a smaller one, `Ledger.LooksIf`.

`Ledger.ShowsSame` says that two ledgers cannot be told apart: they answer alike for every account,
and their net effects are the same. Since answers and net effects are determined by the reports,
equal reports are enough (`Ledger.Sound.showsSame`).
-/

namespace MessageCall

namespace Ledger

variable {store : Store} {l l' l'' : Ledger}

/-- One ledger leads to another by operations and by going back to where it has been. -/
inductive Leads (store : Store) : Ledger → Ledger → Prop
  | refl (l : Ledger) : Leads store l l
  | op {l l' : Ledger} (h : Leads store l l') (op : LedgerOp) :
    Leads store l (op.perform store l').2
  | back {l l₁ l₂ : Ledger} (h : Leads store l l₁) (h' : Leads store l₁ l₂) :
    Leads store l (Ledger.revertTo l₁.snapshot l₂).2

namespace Leads

theorem trans (h : Leads store l l') (h' : Leads store l' l'') : Leads store l l'' := by
  induction h' with
  | refl => exact h
  | op _ op ih => exact (ih h).op op
  | back _ h₂ ih => exact (ih h).back h₂

theorem evolves (hl : l.Sound store) (h : Leads store l l') : Evolves store l l' := by
  induction h with
  | refl => exact .refl hl
  | op _ op ih => exact (ih hl).trans (perform_evolves (ih hl).sound op)
  | back _ _ ih ih' => exact (ih hl).trans (ih' (ih hl).sound).revertTo_start

end Leads

/-- The ledgers that a new one can get to, by operations, by going back and by committing. -/
inductive Reachable (store : Store) : Ledger → Prop
  | new : Reachable store {}
  | op {l : Ledger} (h : Reachable store l) (op : LedgerOp) :
    Reachable store (op.perform store l).2
  | revertTo {l : Ledger} (h : Reachable store l) {p : Snapshot} (hp : p ≤ l.snapshot) :
    Reachable store (Ledger.revertTo p l).2
  | commit {l : Ledger} (h : Reachable store l) : Reachable store l.commit

namespace Reachable

theorem sound (h : Reachable store l) : l.Sound store := by
  induction h with
  | new => exact sound_new store
  | op _ op ih => exact (perform_evolves ih op).sound
  | revertTo _ hp ih => exact ih.revertTo hp
  | commit _ ih => exact ih.commit

theorem leads (h : Reachable store l) (h' : Leads store l l') : Reachable store l' := by
  induction h' with
  | refl => exact h
  | op _ op ih => exact (ih h).op op
  | back _ h₂ ih ih' =>
    exact (ih' (ih h)).revertTo (h₂.evolves (ih h).sound).snapshot_le

end Reachable

/-! ### Reading operations -/

instance : IsPreorder Ledger (Leads store) where
  refl := .refl
  trans _ _ _ := .trans

/-- How the answer of an operation is wrapped does not show in the ledger. -/
theorem perform_ledger {α : Type} {m : Step α} {f : α → Answer} {op : LedgerOp}
    (h : op.perform store = m >>= fun a => pure (f a)) (l : Ledger) :
    (op.perform store l).2 = (m l).2 := by
  rw [h, Attempt.bind_pure_apply]

/-- An operation with its answer left as it is leads on. -/
theorem leads_of_perform {α : Type} {m : Step α} {f : α → Answer} (op : LedgerOp)
    (h : op.perform store = m >>= fun a => pure (f a)) (l : Ledger) : Leads store l (m l).2 := by
  rw [← perform_ledger h]
  exact (Leads.refl l).op op

/-- The ledger is only looked at, if it is sound. -/
structure LooksIf (store : Store) (l l' : Ledger) : Prop where
  leads : Leads store l l'
  looks : l.Sound store → Looks store l l'

instance : IsPreorder Ledger (LooksIf store) where
  refl l := ⟨.refl l, .refl⟩
  trans _ _ _ h h' :=
    ⟨h.leads.trans h'.leads, fun hl => (h.looks hl).trans (h'.looks (h.looks hl).sound)⟩

/-- **Reading is only looking.** -/
theorem looksIf_perform {op : LedgerOp} (hop : op.Reads) (l : Ledger) :
    LooksIf store l (op.perform store l).2 where
  leads := (Leads.refl l).op op
  looks hl := by
    -- Each of the seven looks has its lemma, and the writes are not among them.
    cases op with
    | accountExists a =>
      obtain ⟨l', hm, hlooks⟩ := accountExists_spec hl a
      rw [perform_ledger rfl, hm]
      exact hlooks.toLooks
    | account a =>
      obtain ⟨l', hm, hlooks⟩ := account_spec hl a
      rw [perform_ledger rfl, hm]
      exact hlooks.toLooks
    | balance a =>
      obtain ⟨l', hm, hlooks⟩ := balance_spec hl a
      rw [perform_ledger rfl, hm]
      exact hlooks.toLooks
    | nonce a =>
      obtain ⟨l', hm, hlooks⟩ := nonce_spec hl a
      rw [perform_ledger rfl, hm]
      exact hlooks.toLooks
    | codeHash a =>
      obtain ⟨l', hm, hlooks⟩ := codeHash_spec hl a
      rw [perform_ledger rfl, hm]
      exact hlooks.toLooks
    | code a =>
      obtain ⟨l', hm, hlooks, -⟩ := code_spec hl a
      rw [perform_ledger rfl, hm]
      exact hlooks
    | slot a key =>
      obtain ⟨l', hm, hlooks, -⟩ := slot_spec hl a key
      rw [perform_ledger rfl, hm]
      exact hlooks.toLooks
    | createAccount | addBalance | subBalance | setNonce | setCode | setSlot => exact hop.elim

/-! ### Ledgers that cannot be told apart -/

/-- Updates with the digests of their codes in place of the codes. -/
def digests (us : List AccountUpdate) : List (AccountUpdate × Option Hash) :=
  us.map fun u => ({ u with code := none }, u.code.map keccak)

/-- Two ledgers answer alike for every account and have the same net effect, new codes being
compared by their digests. -/
structure ShowsSame (store : Store) (l l' : Ledger) : Prop where
  accountExists : ∀ address,
    (Ledger.accountExists store address l').1 = (Ledger.accountExists store address l).1
  account : ∀ address, (Ledger.account store address l').1 = (Ledger.account store address l).1
  slot : ∀ address key,
    (Ledger.slot store address key l').1 = (Ledger.slot store address key l).1
  transitions : l'.transitions.map digests = l.transitions.map digests

/-- An update is determined by the reports, up to the codes with one digest. -/
theorem digest_eq_of_net {codes codes' : WordMap 256 Bytes} {s r : Report} {u u' : AccountUpdate}
    (haddress : u'.address = u.address) (hu : s.Net store codes r u)
    (hu' : s.Net store codes' r u') :
    ({ u' with code := none }, u'.code.map keccak) =
      (({ u with code := none }, u.code.map keccak) : AccountUpdate × Option Hash) := by
  have hadded : u'.addedStorage = u.addedStorage := by
    refine WordMap.ext_get? fun key => ?_
    rw [hu'.added, hu.added]
  have hinfo : u'.info = u.info := by rw [hu'.info, hu.info]
  have hremoved : u'.removedStorage = u.removedStorage := by rw [hu'.removed, hu.removed]
  rw [hu'.digest, hu.digest, haddress, hinfo, hremoved, hadded]

/-- Lists that increase by address are equal in the digests if they hold the same. -/
theorem digests_eq {us us' : List AccountUpdate}
    (h : us.Pairwise fun u v => u.address < v.address)
    (h' : us'.Pairwise fun u v => u.address < v.address)
    (hmem : ∀ x, x ∈ digests us' ↔ x ∈ digests us) : digests us' = digests us := by
  have sorted : ∀ {vs : List AccountUpdate}, (vs.Pairwise fun u v => u.address < v.address) →
      (digests vs).Pairwise fun x y => x.1.address < y.1.address :=
    fun h => List.pairwise_map.mpr h
  have nodup : ∀ {vs : List AccountUpdate}, (vs.Pairwise fun u v => u.address < v.address) →
      (digests vs).Nodup := by
    intro vs h
    refine (sorted h).imp fun hlt he => ?_
    rw [he] at hlt
    exact BitVec.lt_irrefl _ hlt
  -- Neither list has repetitions, so the one is a permutation of the other; and both are sorted.
  have hperm : (digests us').Perm (digests us) :=
    (List.perm_ext_iff_of_nodup (nodup h') (nodup h)).mpr hmem
  refine hperm.eq_of_pairwise (fun x y _ _ hxy hyx => ?_) (sorted h') (sorted h)
  exact absurd hyx (BitVec.lt_asymm hxy)

/-- The reports determine the updates, up to codes with one digest. -/
theorem AreNet.digests_subset {codes codes' : WordMap 256 Bytes} {ρ : Reports}
    {us us' : List AccountUpdate} (hstore : store.Reliable) (hρ : ∀ address, ∃ r, ρ address = .ok r)
    (h : AreNet store codes ρ us) (h' : AreNet store codes' ρ us') :
    ∀ x ∈ digests us, x ∈ digests us' := by
  intro x hx
  obtain ⟨u, hu, rfl⟩ := List.mem_map.mp hx
  obtain ⟨s, hs⟩ := exists_report hstore.answers {} u.address
  obtain ⟨r, hr⟩ := hρ u.address
  -- The reports say whether there is an update, and what it holds.
  obtain ⟨hiff, hnet⟩ := h u.address s r hs hr
  obtain ⟨hiff', hnet'⟩ := h' u.address s r hs hr
  obtain ⟨u', hu', haddress⟩ := hiff'.mpr (hiff.mp ⟨u, hu, rfl⟩)
  have heq := digest_eq_of_net haddress (hnet u hu rfl) (hnet' u' hu' haddress)
  exact List.mem_map.mpr ⟨u', hu', heq⟩

/-- **Equal reports show the same.** -/
theorem Sound.showsSame (hstore : store.Reliable) (h : l.Sound store) (h' : l'.Sound store)
    (hr : l'.report store = l.report store) : ShowsSame store l l' where
  -- What is asked about an account is answered from its report.
  accountExists address := by
    obtain ⟨_, hm, -⟩ := accountExists_spec h address
    obtain ⟨_, hm', -⟩ := accountExists_spec h' address
    rw [hm, hm', hr]
  account address := by
    obtain ⟨_, hm, -⟩ := account_spec h address
    obtain ⟨_, hm', -⟩ := account_spec h' address
    rw [hm, hm', hr]
  slot address key := by
    obtain ⟨_, hm, -⟩ := slot_spec h address key
    obtain ⟨_, hm', -⟩ := slot_spec h' address key
    rw [hm, hm', hr]
  -- The updates are determined by the reports, and what the start was by the store.
  transitions := by
    obtain ⟨us, hus, hincreasing, hnet⟩ := h.transitions_spec hstore
    obtain ⟨us', hus', hincreasing', hnet'⟩ := h'.transitions_spec hstore
    rw [hr] at hnet'
    have hρ := exists_report hstore.answers l
    rw [hus, hus']
    refine congrArg Except.ok (digests_eq hincreasing hincreasing' fun x => ⟨?_, ?_⟩)
    · exact hnet'.digests_subset hstore hρ hnet x
    · exact hnet.digests_subset hstore hρ hnet' x

end Ledger

end MessageCall
