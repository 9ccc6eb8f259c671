import MessageCall.Proofs.State.Balances

/-!
# Accounts that come into existence

An account that comes into existence is not to be empty in the end, and it is not enough that it is
not empty for a moment: it might spend what it has. Two kinds of accounts last. An account with a
nonce keeps one, whatever it sends and whatever is done to it (`Report.Rooted`). An account without
a nonce lasts as long as it has a balance and no code, because nothing runs on it that could spend
the balance.

`Ledger.Tidy` says of a ledger that all accounts of some addresses last, where there are any, and
`Ledger.Tidies` says of a way from one ledger to another that it keeps this and the nonces. Looking
and going back are such ways. Writing to an account is, if the account has a nonce
(`Ledger.TidiesBy`). Setting a nonce and paying bring accounts into existence that last
(`Ledger.setNonce_tidies`, `Ledger.paid_tidies`).
-/

namespace MessageCall

namespace Report

/-- An account with a nonce, which it never loses. -/
def Rooted (r : Report) : Prop := r.info.nonce ≠ 0

/-- An account with a nonce, or one on which no code can run. -/
def Inert (r : Report) : Prop := r.Rooted ∨ r.info.codeHash = emptyCodeHash

/-- An account that **lasts**, if it is there: it has a nonce, or a balance that no code can
spend. -/
def Lasts (r : Report) : Prop :=
  r.present = true → r.Rooted ∨ r.info.balance ≠ 0 ∧ r.info.codeHash = emptyCodeHash

variable {r : Report}

theorem Rooted.lasts (h : r.Rooted) : r.Lasts := fun _ => .inl h

/-- An account that lasts is not empty. -/
theorem Lasts.not_empty (h : r.Lasts) (hp : r.present = true) :
    r.info.balance ≠ 0 ∨ r.info.nonce ≠ 0 ∨ r.info.codeHash ≠ emptyCodeHash := by
  rcases h hp with hnonce | ⟨hbalance, -⟩
  · exact .inr (.inl hnonce)
  · exact .inl hbalance

end Report

namespace Ledger

variable {store : Store} {N : Address → Prop} {l l' l'' : Ledger} {a x : Address} {r r' : Report}

/-- What is answered is what is reported. -/
theorem Sound.accountExists_iff (h : l.Sound store) {there : Bool} :
    (Ledger.accountExists store a l).1 = .ok there ↔
      ∃ r, l.report store a = .ok r ∧ r.present = there := by
  rw [h.accountExists_eq, asked_eq_ok]
  cases l.report store a with
  | error e => exact ⟨nofun, fun ⟨_, hr, _⟩ => nomatch hr⟩
  | ok r =>
    refine ⟨fun h => ⟨r, rfl, Except.ok.inj h⟩, fun ⟨_, hr, hp⟩ => ?_⟩
    cases hr
    exact congrArg Except.ok hp

/-- An address whose account has a nonce. -/
def Rooted (store : Store) (l : Ledger) (a : Address) : Prop :=
  ∃ r, l.report store a = .ok r ∧ r.Rooted

/-- An address that has nothing to send. -/
def Penniless (store : Store) (l : Ledger) (a : Address) : Prop :=
  ∀ r, l.report store a = .ok r → r.info.balance = 0

/-- A sound ledger in which the accounts of some addresses **last**. -/
structure Tidy (store : Store) (N : Address → Prop) (l : Ledger) : Prop where
  sound : l.Sound store
  lasts : ∀ {a r}, N a → l.report store a = .ok r → r.Lasts

theorem Tidy.except (h : l.Tidy store N) (a : Address) : l.Tidy store fun b => N b ∧ b ≠ a :=
  ⟨h.sound, fun hb hr => h.lasts hb.1 hr⟩

/-- No nonce is lost. -/
def KeepsRoots (store : Store) (l l' : Ledger) : Prop :=
  ∀ a, l.Rooted store a → l'.Rooted store a

/-- A way on which accounts go on to last, and no nonce is lost. -/
def Tidies (store : Store) (N : Address → Prop) (l l' : Ledger) : Prop :=
  l.Tidy store N → l'.Tidy store N ∧ KeepsRoots store l l'

/-- A way that is so if an address has a nonce at its start. -/
def TidiesBy (store : Store) (N : Address → Prop) (x : Address) (l l' : Ledger) : Prop :=
  (N x → l.Rooted store x) → Tidies store N l l'

instance : IsPreorder Ledger (Tidies store N) where
  refl _ h := ⟨h, fun _ hr => hr⟩
  trans _ _ _ h h' ht := by
    obtain ⟨ht', hroots⟩ := h ht
    obtain ⟨ht'', hroots'⟩ := h' ht'
    exact ⟨ht'', fun a hr => hroots' a (hroots a hr)⟩

instance : IsPreorder Ledger (TidiesBy store N x) where
  refl l _ := (Std.Refl.refl l : Tidies store N l l)
  trans _ _ _ h h' hx ht := by
    -- The nonce is still there after the first part of the way.
    obtain ⟨ht', hroots⟩ := h hx ht
    obtain ⟨ht'', hroots'⟩ := h' (fun hN => hroots x (hx hN)) ht'
    exact ⟨ht'', fun a hr => hroots' a (hroots a hr)⟩

/-- A way on which nothing comes to show. -/
theorem Tidies.of_report (hsound : l.Sound store → l'.Sound store)
    (hreport : l.Sound store → l'.report store = l.report store) : Tidies store N l l' := by
  intro ht
  have hsame := hreport ht.sound
  refine ⟨⟨hsound ht.sound, fun ha hr => ht.lasts ha (hsame ▸ hr)⟩, fun a hroot => ?_⟩
  unfold Rooted
  rw [hsame]
  exact hroot

/-- Going back over a part of the way is like the rest of it. -/
theorem Tidies.back (h : Tidies store N l l') (hleads : Leads store l' l'') :
    Tidies store N l (Ledger.revertTo l'.snapshot l'').2 :=
  IsTrans.trans _ _ _ h (.of_report
    (fun hl => (hleads.evolves hl).revertTo_start.sound)
    (fun hl => (hleads.evolves hl).report_revertTo))

/-- The account of an address changes, and no other. -/
theorem Tidy.update (ht : l.Tidy store fun b => N b ∧ b ≠ a) (hsound : l'.Sound store)
    (hr : l.report store a = .ok r)
    (hr' : l'.report store = Function.update (l.report store) a (.ok r'))
    (hlasts : N a → r'.Lasts) (hroots : r.Rooted → r'.Rooted) :
    l'.Tidy store N ∧ KeepsRoots store l l' := by
  -- Every other account is as it was, so only the changed one is in question.
  refine ⟨⟨hsound, fun {b q} hb hq => ?_⟩, fun b ⟨q, hq, hroot⟩ => ?_⟩
  · rw [hr'] at hq
    by_cases hab : b = a
    · subst hab
      rw [Function.update_self] at hq
      cases hq
      exact hlasts hb
    · rw [Function.update_of_ne hab] at hq
      exact ht.lasts ⟨hb, hab⟩ hq
  · -- A root elsewhere is kept, and one here by hypothesis.
    by_cases hab : b = a
    · subst hab
      rw [hr] at hq
      cases hq
      exact ⟨r', by rw [hr', Function.update_self], hroots hroot⟩
    · exact ⟨q, by rw [hr', Function.update_of_ne hab, hq], hroot⟩

/-- An account on which no code can be found does not need a nonce. -/
theorem Tidy.code_cases (ht : l.Tidy store N) (ha : N a) {code : Bytes}
    (h : (Ledger.code store a l).1 = .ok code) : l.Rooted store a ∨ code = [] := by
  obtain ⟨l₁, hcode, -⟩ := code_spec ht.sound a
  rw [hcode, asked_eq_ok] at h
  cases hr : l.report store a with
  | error e =>
    rw [hr] at h
    cases h
  | ok r =>
    rw [hr] at h
    -- The digest of no code brings no code.
    have hempty : r.info.codeHash = emptyCodeHash → code = [] := by
      intro hc
      simp only [Except.bind, codeOver, if_pos hc] at h
      exact (Except.ok.inj h).symm
    -- An absent account is blank, and one that lasts has a root or is without code.
    cases hp : r.present with
    | false => exact .inr (hempty (by rw [ht.sound.info_of_absent hr hp]))
    | true =>
      rcases ht.lasts ha hr hp with hroot | ⟨-, hc⟩
      · exact .inl ⟨r, hr, hroot⟩
      · exact .inr (hempty hc)

/-! ### Writing -/

section Writing

variable {f : Change} {new : Option Bytes} {m : Step Unit}

/-- What a write has done that has succeeded. -/
theorem WritesAs.written (hm : WritesAs store l a f new m) (h : m l = (.ok (), l')) :
    ∃ r g, l.report store a = .ok r ∧ f r = .ok g ∧ l'.Sound store ∧
      l'.report store = Function.update (l.report store) a (.ok (g (r.enliven store a))) := by
  obtain ⟨l₁, heq, hevolves, hreport, -⟩ := hm
  obtain ⟨hanswer, rfl⟩ := Prod.mk.inj (heq.symm.trans h)
  -- The write answered with success, so neither the report nor the change failed.
  cases hr : l.report store a with
  | error e =>
    rw [hr] at hanswer
    cases hanswer
  | ok r =>
    rw [hr, Change.apply] at hanswer hreport
    cases hg : f r with
    | error e =>
      rw [hg] at hanswer
      cases hanswer
    | ok g =>
      rw [hg] at hreport
      exact ⟨r, g, rfl, hg, hevolves.sound, hreport⟩

/-- A write that keeps nonces, to an account that has one. -/
theorem tidiesBy_of_writesAs (hm : l.Sound store → WritesAs store l x f new m)
    (hf : ∀ r g, f r = .ok g → ∀ q, (g q).info.nonce = q.info.nonce) :
    TidiesBy store N x l (m l).2 := by
  intro hx ht
  rcases h : m l with ⟨e | _, l'⟩
  · -- A write that failed leaves every report as it was.
    obtain ⟨l₁, heq, hevolves, -⟩ := hm ht.sound
    obtain rfl : l₁ = l' := (Prod.mk.inj (heq.symm.trans h)).2
    exact Tidies.of_report (fun _ => hevolves.sound)
      (fun hl => (hm hl).report_of_error h) ht
  · obtain ⟨r, g, hr, hg, hsound, hr'⟩ := (hm ht.sound).written h
    -- A write of another part than the nonce keeps roots, and its account had one.
    have hnonce : (g (r.enliven store x)).info.nonce = r.info.nonce := hf r g hg _
    have hroots : r.Rooted → (g (r.enliven store x)).Rooted := by
      unfold Report.Rooted
      rw [hnonce]
      exact id
    refine (ht.except x).update hsound hr hr' (fun hN => ?_) hroots
    obtain ⟨q, hq, hroot⟩ := hx hN
    rw [hr] at hq
    cases hq
    exact (hroots hroot).lasts

theorem setSlot_tidiesBy (key : Hash) (value : Word) (l : Ledger) :
    TidiesBy store N x l (Ledger.setSlot store x key value l).2 := by
  refine tidiesBy_of_writesAs (fun hl => setSlot_spec hl x key value) fun r g hg q => ?_
  unfold Change.setSlot at hg
  split at hg
  · cases hg
    rfl
  · cases hg

theorem setCode_tidiesBy (code : Bytes) (l : Ledger) :
    TidiesBy store N x l (Ledger.setCode store x code l).2 := by
  refine tidiesBy_of_writesAs (fun hl => setCode_spec hl x code) fun r g hg q => ?_
  cases hg
  rfl

/-- **Setting a nonce** that is not zero. -/
theorem setNonce_tidies {nonce : UInt64} (hnonce : nonce ≠ 0)
    (h : Ledger.setNonce store a nonce l = (.ok (), l')) (ht : l.Tidy store N) :
    (l'.Tidy store N ∧ KeepsRoots store l l') ∧ l'.Rooted store a := by
  obtain ⟨r, g, hr, hg, hsound, hr'⟩ := (setNonce_spec ht.sound a nonce).written h
  cases hg
  have hself := hr' ▸ Function.update_self a _ (l.report store)
  exact ⟨(ht.except a).update hsound hr hr' (fun _ => Report.Rooted.lasts hnonce) fun _ => hnonce,
    _, hself, hnonce⟩

/-- A ledger in which an account **awaits** an amount. The other accounts last. This one need not,
unless it gets nothing, but code that runs on it cannot spend what it gets. -/
structure Awaits (store : Store) (N : Address → Prop) (a : Address) (value : Word) (l : Ledger) :
    Prop where
  others : l.Tidy store fun b => N b ∧ b ≠ a
  inert : N a → ∃ r, l.report store a = .ok r ∧ r.Inert
  unpaid : value = 0 → l.Tidy store N

/-- An account that is there. -/
theorem Tidy.awaits (ht : l.Tidy store N) (h : (Ledger.accountExists store a l).1 = .ok true)
    (value : Word) : l.Awaits store N a value where
  others := ht.except a
  inert ha := by
    obtain ⟨r, hr, hp⟩ := ht.sound.accountExists_iff.mp h
    exact ⟨r, hr, (ht.lasts ha hr hp).imp_right And.right⟩
  unpaid _ := ht

/-- An account that is put in place with a nonce. -/
theorem founded_awaits {nonce : UInt64} (hnonce : nonce ≠ 0)
    (hcreate : Ledger.createAccount store a l = (.ok (), l'))
    (hset : Ledger.setNonce store a nonce l' = (.ok (), l'')) (ht : l.Tidy store N) (value : Word) :
    l''.Awaits store N a value ∧ KeepsRoots store l l'' ∧ l''.Rooted store a := by
  obtain ⟨r, g, hr, hg, hsound, hr'⟩ := (createAccount_spec ht.sound a).written hcreate
  obtain ⟨r₁, g₁, hr₁, hg₁, hsound₁, hr₁'⟩ := (setNonce_spec hsound a nonce).written hset
  cases hg₁
  -- The nonce is written over what the account was created with.
  rw [hr', Function.update_idem] at hr₁'
  have hself := hr₁' ▸ Function.update_self a _ (l.report store)
  obtain ⟨ht', hroots⟩ := (ht.except a).update hsound₁ hr hr₁'
    (fun _ => Report.Rooted.lasts hnonce) fun _ => hnonce
  exact ⟨⟨ht'.except a, fun _ => ⟨_, hself, .inl hnonce⟩, fun _ => ht'⟩, hroots, _, hself, hnonce⟩

/-- An account that is put in place where there was none. Until it is paid it does not last. -/
theorem created_awaits {value : Word} (hcreate : Ledger.createAccount store a l = (.ok (), l'))
    (habsent : (Ledger.accountExists store a l).1 = .ok false) (hvalue : value = 0 → ¬ N a)
    (ht : l.Tidy store N) :
    l'.Awaits store N a value ∧ KeepsRoots store l l' ∧
      ∀ b, l.Penniless store b → l'.Penniless store b := by
  obtain ⟨r, hr, hp⟩ := ht.sound.accountExists_iff.mp habsent
  obtain ⟨q, g, hq, hg, hsound, hq'⟩ := (createAccount_spec ht.sound a).written hcreate
  -- What is created was absent, so it starts from nothing.
  obtain rfl : q = r := Except.ok.inj (hq.symm.trans hr)
  cases hg
  have hinfo : q.info = {} := ht.sound.info_of_absent hr hp
  simp only [hinfo] at hq'
  have hsame : ∀ b, b ≠ a → l'.report store b = l.report store b := fun b hb => by
    rw [hq', Function.update_of_ne hb]
  have hself : l'.report store a = .ok (.created 0) := by rw [hq', Function.update_self]
  -- Everyone but the new account is as before.
  have hothers : l'.Tidy store fun b => N b ∧ b ≠ a :=
    ⟨hsound, fun hb hr => ht.lasts hb.1 (hsame _ hb.2 ▸ hr)⟩
  refine ⟨⟨hothers, fun _ => ⟨_, hself, .inr rfl⟩, fun h => ⟨hsound, fun {b q} hb hr => ?_⟩⟩,
    fun b hroot => ?_, fun b hpoor p hp => ?_⟩
  · exact hothers.lasts ⟨hb, fun hba => hvalue h (hba ▸ hb)⟩ hr
  · obtain ⟨p, hp, hroot⟩ := hroot
    by_cases hb : b = a
    · -- An absent account has no nonce.
      subst hb
      obtain rfl : p = q := Except.ok.inj (hp.symm.trans hq)
      refine absurd ?_ hroot
      rw [hinfo]
    · exact ⟨p, (hsame b hb).trans hp, hroot⟩
  · by_cases hb : b = a
    · subst hb
      rw [hself] at hp
      cases hp
      rfl
    · exact hpoor p ((hsame b hb).symm.trans hp)

/-- A write to the balance that succeeds changes the balance, and nothing else. -/
theorem moved_of_ok {move : Word → Option Word} {failure : InternalError} {g : Report → Report}
    (h : Change.moveBalance move failure r = .ok g) :
    ∃ balance, move r.info.balance = some balance ∧ g = .mapInfo ({ · with balance }) := by
  unfold Change.moveBalance at h
  split at h
  · next balance hmove =>
    cases h
    exact ⟨balance, hmove, rfl⟩
  · cases h

/-- **Paying.** The sender has a nonce, unless it has nothing to send. The recipient lasts from then
on, because it has been paid. -/
theorem paid_tidies {sender recipient : Address} {value : Word} (hvalue : value.toNat ≠ 0)
    (hsub : Ledger.subBalance store sender value l = (.ok (), l'))
    (hadd : Ledger.addBalance store recipient value l' = (.ok (), l''))
    (h : l.Awaits store N recipient value)
    (hsender : N sender → l.Rooted store sender ∨ l.Penniless store sender) :
    l''.Tidy store N ∧ KeepsRoots store l l'' := by
  -- The debit and the credit are two writes, and the credit reads what the debit left.
  obtain ⟨r, g, hr, hg, hsound, hr'⟩ := (subBalance_spec h.others.sound sender value).written hsub
  obtain ⟨b, hdebit, rfl⟩ := moved_of_ok hg
  obtain ⟨q, k, hq, hk, hsound', hq'⟩ := (addBalance_spec hsound recipient value).written hadd
  obtain ⟨c, hcredit, rfl⟩ := moved_of_ok hk
  have hb := Word.sub?_eq_some hdebit
  have hc := Word.add?_eq_some hcredit
  -- The sender lasts by its root, for without one it could pay nothing.
  have hsent : N sender ∧ sender ≠ recipient →
      Report.Lasts ((r.enliven store sender).mapInfo ({ · with balance := b })) := by
    intro hN
    rcases hsender hN.1 with ⟨r', hown, hroot⟩ | hpoor
    · obtain rfl : r = r' := Except.ok.inj (hr.symm.trans hown)
      exact Report.Rooted.lasts hroot
    · -- Nothing can be taken off an account that has nothing.
      rw [hpoor r hr] at hb
      have hnothing : BitVec.toNat (0 : Word) = 0 := rfl
      omega
  have hpaid : N recipient →
      Report.Lasts ((q.enliven store recipient).mapInfo ({ · with balance := c })) := by
    -- The recipient's own fields, but for the balance, are those it had before the debit.
    intro hN _
    obtain ⟨r₀, hr₀, hinert⟩ := h.inert hN
    have hkept : q.info.nonce = r₀.info.nonce ∧ q.info.codeHash = r₀.info.codeHash := by
      rw [hr'] at hq
      by_cases hself : recipient = sender
      · subst hself
        obtain rfl : r = r₀ := Except.ok.inj (hr.symm.trans hr₀)
        rw [Function.update_self] at hq
        cases hq
        exact ⟨rfl, rfl⟩
      · rw [Function.update_of_ne hself] at hq
        obtain rfl : q = r₀ := Except.ok.inj (hq.symm.trans hr₀)
        exact ⟨rfl, rfl⟩
    -- Without a root it is inert, and what it has been paid is not nothing.
    rcases hinert with hroot | hcode
    · exact .inl (show q.info.nonce ≠ 0 from hkept.1 ▸ hroot)
    · refine .inr ⟨fun hc => ?_, hkept.2.trans hcode⟩
      have hzero : c.toNat = 0 := congrArg BitVec.toNat hc
      omega
  obtain ⟨ht', hroots⟩ := (h.others.except sender).update hsound hr hr' hsent id
  obtain ⟨ht'', hroots'⟩ := ht'.update hsound' hq hq' hpaid id
  exact ⟨ht'', fun b hroot => hroots' b (hroots b hroot)⟩

end Writing

end Ledger

end MessageCall
