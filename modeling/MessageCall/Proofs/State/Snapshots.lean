import MessageCall.Proofs.State.Atomicity
import Mathlib.Data.List.Induction
import Mathlib.Data.List.Infix

/-!
# Valid and stale snapshots

A snapshot is a number of journal entries and nothing else. `Ledger.Holds` says that a snapshot is
still valid: since it was taken the ledger has been changed by operations and by going back, but
never to a point before it. Such a ledger has evolved from the one that the snapshot is of
(`Ledger.Holds.evolves`), and evolving is all that is needed for going back.

A snapshot becomes stale when the ledger goes back to a point before it, or when all changes are
accepted (`LedgerCall.Invalidates`). A ledger has no way to tell. It refuses a snapshot as long as
the journal is shorter than that, and once the journal has grown back it accepts the snapshot again,
although the point that it then leads to has nothing to do with the point where it was taken.

What is at such a point is told by an invariant of the whole journal. `Ledger.Remembers` says of
every point that a ledger can go back to that what is reported there is of a given kind. Reading
keeps it, since it changes no report. A write adds one point, which is the ledger itself, or two if
its account was absent: with the upper one of its two entries undone, the account is there and
nothing has been written to it (`Report.Enlivened`). So a history leads back to whole results of its
beginnings and to such halves of writes, and to nothing else (`Ledger.remembers_history`,
`Ledger.going_back`). The halves do occur (`Ledger.going_back_stale`), but no valid snapshot ever
leads to one, because no snapshot can be taken in the middle of a write.
-/

namespace MessageCall

variable {store : Store} {l₀ l l' : Ledger}

namespace Ledger

/-- Everything that is read of any account reads the same, an error included. -/
structure ReadsSame (store : Store) (l l' : Ledger) : Prop where
  accountExists : ∀ address,
    (Ledger.accountExists store address l').1 = (Ledger.accountExists store address l).1
  balance : ∀ address, (Ledger.balance store address l').1 = (Ledger.balance store address l).1
  nonce : ∀ address, (Ledger.nonce store address l').1 = (Ledger.nonce store address l).1
  codeHash : ∀ address, (Ledger.codeHash store address l').1 = (Ledger.codeHash store address l).1
  slot : ∀ address key,
    (Ledger.slot store address key l').1 = (Ledger.slot store address key l).1

/-- Equal reports read the same. No store has to answer for this. -/
theorem Sound.readsSame (h : l.Sound store) (h' : l'.Sound store)
    (hr : l'.report store = l.report store) : ReadsSame store l l' where
  accountExists address := by rw [h.accountExists_eq, h'.accountExists_eq, hr]
  balance address := by rw [h.balance_eq, h'.balance_eq, hr]
  nonce address := by rw [h.nonce_eq, h'.nonce_eq, hr]
  codeHash address := by rw [h.codeHash_eq, h'.codeHash_eq, hr]
  slot address key := by rw [h.slot_eq, h'.slot_eq, hr]

/-! ### Valid snapshots -/

/-- A snapshot of `l₀` is **still valid**: what has happened since were operations, and going back
to points that are no earlier. -/
inductive Holds (store : Store) (l₀ : Ledger) : Ledger → Prop
  | taken : Holds store l₀ l₀
  | op {l : Ledger} (h : Holds store l₀ l) (op : LedgerOp) : Holds store l₀ (op.perform store l).2
  | back {l : Ledger} (h : Holds store l₀ l) {p : Snapshot} (hp : l₀.snapshot ≤ p)
    (hp' : p ≤ l.snapshot) : Holds store l₀ (Ledger.revertTo p l).2

/-- Going back to a point on the way leaves a ledger that has evolved from the start. -/
theorem Evolves.revertTo_between (h : Evolves store l₀ l) {p : Snapshot} (hp : l₀.snapshot ≤ p)
    (hp' : p ≤ l.snapshot) : Evolves store l₀ (Ledger.revertTo p l).2 := by
  obtain ⟨es, c, hes, hc, hag⟩ := h.undone
  obtain ⟨above, rest, d, hj, hlength, hd, hr, -⟩ := h.sound.exists_revertTo hp'
  -- What is above `p` is a part of what has been entered since the start.
  have hshort : above.length ≤ es.length := by
    have hall := congrArg List.length (hj.symm.trans hes)
    rw [List.length_append, List.length_append, hlength] at hall
    change l₀.journal.entries.length ≤ p at hp
    omega
  obtain ⟨between, rfl⟩ := List.prefix_of_prefix_length_le (List.prefix_append above rest)
    (hj ▸ hes ▸ List.prefix_append es l₀.journal.entries) hshort
  have hrest : rest = between ++ l₀.journal.entries := by
    rw [hj, List.append_assoc] at hes
    exact List.append_cancel_left hes
  refine ⟨h.sound.revertTo hp', ?_, ?_⟩
  · rw [hr]
    exact h.codes
  · rw [hr]
    refine ⟨between, c, hrest, ?_, hag⟩
    rw [JournalEntry.undoAll_append hd] at hc
    exact hc

theorem Holds.evolves (h₀ : l₀.Sound store) (h : l₀.Holds store l) : Evolves store l₀ l := by
  induction h with
  | taken => exact .refl h₀
  | op _ op ih => exact ih.trans (perform_evolves ih.sound op)
  | back _ hp hp' ih => exact ih.revertTo_between hp hp'

/-- A snapshot of a ledger that has evolved into another one brings everything back that could be
read. -/
theorem Evolves.restores (h₀ : l₀.Sound store) (h : Evolves store l₀ l) :
    (Ledger.revertTo l₀.snapshot l).1 = .ok () ∧
      ReadsSame store l₀ (Ledger.revertTo l₀.snapshot l).2 :=
  ⟨(h.revertTo h₀ (Nat.le_refl _)).1,
    h₀.readsSame h.revertTo_start.sound h.report_revertTo⟩

end Ledger

/-! ### Points that a ledger can go back to -/

namespace Undoable

variable {P P' : Accounts → Prop} {Q : Reports → Prop} {es : List JournalEntry} {c c' : Accounts}

theorem mono (h : Undoable P es c) (hP : ∀ c, P c → P' c) : Undoable P' es c := by
  induction es generalizing c with
  | nil => exact hP c h
  | cons e es ih =>
    obtain ⟨hc, d, hd, h⟩ := h
    exact ⟨hP c hc, d, hd, ih h⟩

/-- What is reported along a history does not depend on what is cached. -/
theorem congr_report (h : Undoable (fun c => Q (c.report store)) es c) (hag : c.Agrees store c') :
    Undoable (fun c => Q (c.report store)) es c' := by
  induction es generalizing c c' with
  | nil =>
    change Q (c'.report store)
    rw [hag.report]
    exact h
  | cons e es ih =>
    obtain ⟨hc, d, hd, h⟩ := h
    obtain ⟨d', hd', hdd⟩ := JournalEntry.undo_congr hag hd
    refine ⟨?_, d', hd', ih h hdd⟩
    change Q (c'.report store)
    rw [hag.report]
    exact hc

end Undoable

namespace Ledger

variable {Q Q' : Reports → Prop} {address : Address}

/-- Wherever in its history a ledger goes back to, what is **reported there** is in `Q`. -/
def Remembers (store : Store) (Q : Reports → Prop) (l : Ledger) : Prop :=
  Undoable (fun c => Q (c.report store)) l.journal.entries l.current

theorem Looks.agrees (h : Looks store l l') : l.current.Agrees store l'.current := by
  obtain ⟨es, c, hes, hc, hag⟩ := h.evolves.undone
  rw [h.journal] at hes
  obtain rfl : es = [] := List.self_eq_append_left.1 hes
  cases hc
  exact hag

theorem Remembers.mono (h : Remembers store Q l) (hQ : ∀ ρ, Q ρ → Q' ρ) : Remembers store Q' l :=
  Undoable.mono h fun _ => hQ _

/-- Looking adds no point and changes none. -/
theorem Remembers.looks (h : Remembers store Q l) (hl : Looks store l l') :
    Remembers store Q l' := by
  unfold Remembers
  rw [hl.journal]
  exact Undoable.congr_report h hl.agrees

/-- **A write adds** the point after it, and one more if it brings its account into existence. -/
theorem WayToWrite.remembers {f : Change} {new : Option Bytes} {m : Step Unit}
    (hway : WayToWrite store l address f new m) (h : Remembers store Q l)
    (hnow : Q ((m l).2.report store))
    (hhalf : (m l).1 = .ok () → ∀ r r', l.report store address = .ok r →
      r.Enlivened store address r' → Q (Function.update (l.report store) address (.ok r'))) :
    Remembers store Q (m l).2 := by
  cases hway with
  | stopped hl hm _ =>
    rw [hm]
    exact h.looks hl.toLooks
  -- A write of one part: going back passes the reports after the write and those before it.
  | @part l₁ r x w hl hr hx hxr hw hm _ _ hback =>
    have h₁ := h.looks hl
    have hundo := w.undo_change l₁.current x
    rw [Attempt.bind_of_ok (revise_of_cached hx w.change)] at hm
    rw [hm] at hnow hhalf ⊢
    cases hp : x.present with
    | true =>
      simp only [hp, if_true] at hnow ⊢
      exact ⟨hnow, _, hundo, Undoable.congr_report h₁ (hw.agrees_back hx hp)⟩
    | false =>
      -- Below the entry of the write there is the one that takes the account away again.
      have hundo' : (JournalEntry.created address x).undo
          (l₁.current.insert address (w.back (w.change x.enlivened))) =
          .ok (l₁.current.insert address x) := by
        simp only [JournalEntry.undo, WordMap.insert_insert]
      obtain ⟨before, hb⟩ := hl.sound.coherent.initial_of_cached hx
      have hmiddle : Accounts.report store
          (l₁.current.insert address (w.back (w.change x.enlivened))) =
          Function.update (l.report store) address
            (.ok (w.backReport (w.changeReport (r.enliven store address)))) := by
        rw [Accounts.report_insert, w.back_shows.report, w.change_shows.report,
          (hl.sound.coherent.faithful hx hb).report_enlivened, hxr, ← hl.report]
        rfl
      have habsent : r.present = false := by
        rw [← hxr]
        exact hp
      -- With the field back and the account still there, the reports are those of half a write.
      have hmid := hhalf rfl r _ hr (hback habsent)
      rw [← hmiddle] at hmid
      simp only [hp, Bool.false_eq_true, if_false] at hnow ⊢
      exact ⟨hnow, _, hundo, hmid, _, hundo', Undoable.congr_report h₁ (.insert_right hx rfl id)⟩
  -- An account made afresh goes back in one step, to the reports from before.
  | @anew l₁ x hl _ hx hm _ =>
    have h₁ := h.looks hl.toLooks
    rw [hm] at hnow ⊢
    refine ⟨hnow, l₁.current.insert address x, ?_,
      Undoable.congr_report h₁ (.insert_right hx rfl id)⟩
    simp only [JournalEntry.undo, WordMap.insert_insert]

/-- **An operation adds** the point after it, and perhaps half of it. -/
theorem Remembers.perform (hl : l.Sound store) (h : Remembers store Q l) (action : LedgerOp)
    (hnow : Q ((action.perform store l).2.report store))
    (hhalf : (action.perform store l).1 = .ok .done →
      ∀ r r', l.report store action.address = .ok r → r.Enlivened store action.address r' →
        Q (Function.update (l.report store) action.address (.ok r'))) :
    Remembers store Q (action.perform store l).2 := by
  -- Every write has its way, and what the operation answers adds nothing to it.
  have wrote : ∀ {f : Change} {new : Option Bytes} {m : Step Unit},
      WayToWrite store l action.address f new m →
      action.perform store = (m >>= fun _ => pure .done) →
      Remembers store Q (action.perform store l).2 := by
    intro f new m hway hm
    rw [hm, Attempt.bind_pure_apply] at hnow hhalf ⊢
    refine hway.remembers h hnow fun hok => hhalf ?_
    rw [hok]
    rfl
  cases action with
  | createAccount a => exact wrote (createAccount_way hl a) rfl
  | addBalance a amount => exact wrote (moveBalance_way hl a (·.add? amount) .overflow) rfl
  | subBalance a amount => exact wrote (moveBalance_way hl a (·.sub? amount) .underflow) rfl
  | setNonce a value => exact wrote (setNonce_way hl a value) rfl
  | setCode a bytes => exact wrote (setCode_way hl a bytes) rfl
  | setSlot a key value => exact wrote (setSlot_way hl a key value) rfl
  -- What only reads enters nothing.
  | _ =>
    refine h.looks ((looksIf_perform ?_ l).looks hl)
    exact trivial

/-- **Going back** leads to a point that is remembered, and forgets the later ones. -/
theorem Remembers.revertTo (hl : l.Sound store) (h : Remembers store Q l) {mark : Snapshot}
    (hmark : mark ≤ l.snapshot) :
    Remembers store Q (Ledger.revertTo mark l).2 := by
  obtain ⟨es, rest, c, hes, -, hc, hr, -⟩ := hl.exists_revertTo hmark
  rw [hr]
  have hall : Undoable (fun c => Q (c.report store)) (es ++ rest) l.current := hes ▸ h
  obtain ⟨d, hd, hrest⟩ := hall.append
  obtain rfl : d = c := Except.ok.inj (hd.symm.trans hc)
  exact hrest

end Ledger

/-! ### Histories -/

/-- What can happen to a ledger. -/
inductive LedgerCall
  | op (action : LedgerOp)
  | revertTo (mark : Ledger.Snapshot)
  | commit
  deriving DecidableEq

namespace LedgerCall

/-- The ledger after a call, whatever the call answers. -/
def after (store : Store) (l : Ledger) : LedgerCall → Ledger
  | .op action => (action.perform store l).2
  | .revertTo mark => (Ledger.revertTo mark l).2
  | .commit => l.commit

/-- The call **makes a snapshot stale**: it accepts all changes, or it goes back to a point before
the snapshot. -/
def Invalidates (l : Ledger) (mark : Ledger.Snapshot) : LedgerCall → Prop
  | .op _ => False
  | .revertTo earlier => earlier < mark ∧ earlier ≤ l.snapshot
  | .commit => True

end LedgerCall

namespace Ledger

/-- The ledger after a history. -/
def afterAll (store : Store) (l : Ledger) (calls : List LedgerCall) : Ledger :=
  calls.foldl (LedgerCall.after store) l

theorem afterAll_concat (store : Store) (l : Ledger) (calls : List LedgerCall) (call : LedgerCall) :
    afterAll store l (calls ++ [call]) = call.after store (afterAll store l calls) := by
  rw [afterAll, List.foldl_append]
  rfl

theorem afterAll_append (store : Store) (l : Ledger) (calls calls' : List LedgerCall) :
    afterAll store l (calls ++ calls') = afterAll store (afterAll store l calls) calls' :=
  List.foldl_append

/-- Going back to the present point changes nothing. -/
theorem revertTo_here (l : Ledger) : Ledger.revertTo l.snapshot l = (.ok (), l) :=
  revertTo_of_undoAll (List.nil_append _).symm (JournalEntry.undoAll_nil _)

theorem Sound.afterAll (h : l.Sound store) (calls : List LedgerCall) :
    (Ledger.afterAll store l calls).Sound store := by
  induction calls generalizing l with
  | nil => exact h
  | cons call rest ih =>
    refine ih ?_
    cases call with
    | op action => exact (perform_evolves h action).sound
    | commit => exact h.commit
    | revertTo mark =>
      by_cases hmark : mark ≤ l.snapshot
      · exact h.revertTo hmark
      · change (Ledger.revertTo mark l).2.Sound store
        rw [revertTo_beyond (Nat.lt_of_not_le hmark)]
        exact h

/-- What is reported **at a point of a history**: after the first calls of it, or half way through
the write that comes next. -/
inductive Passed (store : Store) (calls : List LedgerCall) : Reports → Prop
  | whole {earlier : List LedgerCall} (h : earlier <+: calls) :
    Passed store calls ((afterAll store {} earlier).report store)
  | half {earlier : List LedgerCall} {action : LedgerOp} {r r' : Report}
    (h : earlier ++ [.op action] <+: calls)
    (hdone : (action.perform store (afterAll store {} earlier)).1 = .ok .done)
    (hr : (afterAll store {} earlier).report store action.address = .ok r)
    (hr' : r.Enlivened store action.address r') :
    Passed store calls
      (Function.update ((afterAll store {} earlier).report store) action.address (.ok r'))

theorem Passed.mono {calls calls' : List LedgerCall} {ρ : Reports} (h : Passed store calls ρ)
    (hcalls : calls <+: calls') : Passed store calls' ρ := by
  cases h with
  | whole h => exact .whole (h.trans hcalls)
  | half h hdone hr hr' => exact .half (h.trans hcalls) hdone hr hr'

/-- **A history remembers** nothing but points that it has passed. -/
theorem remembers_history (store : Store) (calls : List LedgerCall) :
    Remembers store (Passed store calls) (afterAll store {} calls) := by
  -- By the calls from the last one back, since it is the last that meets the whole past.
  induction calls using List.reverseRecOn with
  | nil => exact Passed.whole (List.prefix_refl [])
  | append_singleton calls call ih =>
    have hsound := (sound_new store).afterAll calls
    have hkept : Remembers store (Passed store (calls ++ [call])) (afterAll store {} calls) :=
      ih.mono fun _ h => h.mono (List.prefix_append calls [call])
    have hnow : Passed store (calls ++ [call])
        ((call.after store (afterAll store {} calls)).report store) := by
      rw [← afterAll_concat]
      exact .whole (List.prefix_refl _)
    rw [afterAll_concat]
    cases call with
    | op action =>
      -- The operation may be gone back on in the middle.
      refine hkept.perform hsound action hnow fun hdone r r' hr hr' => ?_
      exact .half (List.prefix_refl _) hdone hr hr'
    -- After a commit the journal is empty, so there is only the present to remember.
    | commit => exact hnow
    | revertTo mark =>
      by_cases hmark : mark ≤ (afterAll store {} calls).snapshot
      · exact hkept.revertTo hsound hmark
      · change Remembers store _ (Ledger.revertTo mark _).2
        -- Beyond the journal nothing is gone back on.
        rw [revertTo_beyond (Nat.lt_of_not_le hmark)]
        exact hkept

/-! ### Stale snapshots -/

/-- The snapshot of a ledger has been made stale by what has happened since. -/
def Stale (store : Store) (l₀ : Ledger) (since : List LedgerCall) : Prop :=
  ∃ earlier call later, since = earlier ++ call :: later ∧
    call.Invalidates (afterAll store l₀ earlier) l₀.snapshot

/-- A snapshot that has not been made stale **is still valid**. -/
theorem holds_of_not_stale {since : List LedgerCall} (h : ¬ Stale store l₀ since) :
    Holds store l₀ (afterAll store l₀ since) := by
  induction since using List.reverseRecOn with
  | nil => exact .taken
  | append_singleton since call ih =>
    -- A snapshot that goes stale stays so, hence it was good before the last call.
    have hholds : Holds store l₀ (afterAll store l₀ since) := by
      refine ih fun hstale => h ?_
      obtain ⟨earlier, call', later, rfl, hcall⟩ := hstale
      exact ⟨earlier, call', later ++ [call], by simp, hcall⟩
    have hlast : ¬ call.Invalidates (afterAll store l₀ since) l₀.snapshot := fun hcall =>
      h ⟨since, call, [], rfl, hcall⟩
    rw [afterAll_concat]
    cases call with
    | op action => exact hholds.op action
    | commit => exact absurd trivial hlast
    | revertTo mark =>
      by_cases hmark : mark ≤ (afterAll store l₀ since).snapshot
      · have hle : l₀.snapshot ≤ mark := by
          -- Going back below the snapshot is what would have made it stale.
          by_contra hlt
          exact hlast ⟨Nat.lt_of_not_le hlt, hmark⟩
        exact hholds.back hle hmark
      · change Holds store l₀ (Ledger.revertTo mark _).2
        rw [revertTo_beyond (Nat.lt_of_not_le hmark)]
        exact hholds

/-- **Where going back leads.** After any history a snapshot is refused exactly if it is beyond the
journal, and then nothing changes. Every other one is accepted, stale or not, and leaves what was
reported after the first calls of the history, or half way through the write that came next. One
that is not stale leaves what was reported where it was taken. -/
theorem going_back (store : Store) (calls : List LedgerCall) (mark : Snapshot) :
    let l := afterAll store {} calls
    let l' := (Ledger.revertTo mark l).2
    (l.snapshot < mark →
      Ledger.revertTo mark l = (.error (.invalidSnapshot (UInt64.ofNat mark)), l)) ∧
    (mark ≤ l.snapshot → (Ledger.revertTo mark l).1 = .ok () ∧ l'.snapshot = mark ∧
      l'.journal.entries <:+ l.journal.entries ∧ Passed store calls (l'.report store)) ∧
    ∀ before since, calls = before ++ since → mark = (afterAll store {} before).snapshot →
      ¬ Stale store (afterAll store {} before) since →
        (Ledger.revertTo mark l).1 = .ok () ∧
        l'.journal = (afterAll store {} before).journal ∧
        l'.report store = (afterAll store {} before).report store := by
  intro l l'
  have hsound : l.Sound store := (sound_new store).afterAll calls
  -- Within the journal, the reports gone back to are those of a state passed before.
  refine ⟨revertTo_beyond, fun hmark => ?_, ?_⟩
  · obtain ⟨es, rest, c, hes, hlength, -, hr, -⟩ := hsound.exists_revertTo hmark
    have hl' : l' = { l with journal := ⟨rest⟩, current := c } := congrArg Prod.snd hr
    have hremembers : Remembers store (Passed store calls) l' :=
      (remembers_history store calls).revertTo hsound hmark
    refine ⟨congrArg Prod.fst hr, hsound.snapshot_revertTo hmark, ?_, hremembers.now⟩
    rw [hl', hes]
    exact List.suffix_append es rest
  · -- A snapshot that is not stale has the journal of its own time below it still.
    rintro before since rfl rfl hnot
    have hbefore := (sound_new store).afterAll before
    have hevolves : Evolves store (afterAll store {} before) l := by
      change Evolves store _ (afterAll store {} (before ++ since))
      rw [afterAll_append]
      exact (holds_of_not_stale hnot).evolves hbefore
    obtain ⟨hok, hjournal, -, -⟩ := hevolves.revertTo hbefore (Nat.le_refl _)
    rw [revertTo_here] at hjournal
    exact ⟨hok, hjournal, hevolves.report_revertTo⟩

/-- A write that is taken back, and one to an absent account, which makes two entries: a position
beyond the journal, one in the middle of the second write, and one at its end. -/
theorem going_back_sample :
    let calls : List LedgerCall := [.op (.addBalance 1 1), .revertTo 0, .op (.addBalance 2 7)]
    let l := afterAll .sample {} calls
    l.snapshot = 2 ∧ Ledger.revertTo 3 l = (.error (.invalidSnapshot 3), l) ∧
      Passed .sample calls ((Ledger.revertTo 1 l).2.report .sample) ∧
      ¬ Stale .sample l [] ∧ (Ledger.revertTo 2 l).2.journal = l.journal := by
  intro calls l
  have hlength : l.snapshot = 2 := by decide +kernel
  have hfresh : ¬ Stale .sample l [] := by
    rintro ⟨earlier, call, later, hsplit, -⟩
    simp at hsplit
  obtain ⟨hbeyond, -, -⟩ := going_back .sample calls 3
  obtain ⟨-, hwithin, -⟩ := going_back .sample calls 1
  obtain ⟨-, -, hvalid⟩ := going_back .sample calls 2
  have hlt : l.snapshot < 3 := by
    rw [hlength]
    decide
  have hle : 1 ≤ l.snapshot := by
    rw [hlength]
    decide
  exact ⟨hlength, hbeyond hlt, (hwithin hle).2.2.2, hfresh,
    (hvalid calls [] (List.append_nil calls).symm hlength.symm hfresh).2.1⟩

/-- **A stale snapshot is not refused** once the journal has grown back. It was taken after a write
to one account, which was taken back, and it leads to the middle of a write to another account: that
account is there without its balance, which it never was after any of the calls. -/
theorem going_back_stale :
    let before : List LedgerCall := [.op (.addBalance 1 1)]
    let since : List LedgerCall := [.revertTo 0, .op (.addBalance 2 7)]
    let l₀ := afterAll .sample {} before
    let l := afterAll .sample l₀ since
    let Bare (l : Ledger) : Prop := (accountExists .sample 2 l).1 = .ok true ∧
      (balance .sample 2 l).1 = .ok 0
    0 < l₀.snapshot ∧ Stale .sample l₀ since ∧
      (Ledger.revertTo l₀.snapshot l).1 = .ok () ∧ Bare (Ledger.revertTo l₀.snapshot l).2 ∧
      ∀ earlier, earlier <+: before ++ since → ¬ Bare (afterAll .sample {} earlier) := by
  intro before since l₀ l Bare
  have hstale : Stale .sample l₀ since :=
    ⟨[], .revertTo 0, [.op (.addBalance 2 7)], rfl, by decide +kernel, by decide +kernel⟩
  have hnever : ∀ earlier ∈ (before ++ since).inits, ¬ Bare (afterAll .sample {} earlier) := by
    decide +kernel
  exact ⟨by decide +kernel, hstale, by decide +kernel, by decide +kernel,
    fun earlier hearlier => hnever earlier ((List.mem_inits _ _).2 hearlier)⟩

end Ledger

end MessageCall
