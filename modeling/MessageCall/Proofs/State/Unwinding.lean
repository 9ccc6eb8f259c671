import MessageCall.Proofs.State.Undo

/-!
# Going back in a journal

A journal is unwound one entry at a time, newest first. Nothing here asks for entries that fit the
accounts. An entry that holds a part of an account can be undone only where the account is there,
and going back ends early at the first one that cannot be (`JournalEntry.Stuck`). Which one that is
depends on all the newer ones, since an entry that holds a whole account brings the account back for
those below.

`Journal.GoesBack` says how going back may end, in terms of the entries and of what undoing a list
of them leads to, and `Journal.revertTo_eq_iff` says that it ends in that way and in no other. All
else is read off there. Above all, going back composes (`Journal.GoesBack.trans`): the entries above
a position may be undone in one go or in two, since the second one starts with the very accounts
that the first one has reached at that point.
-/

namespace MessageCall

theorem Accounts.amend_eq_error_iff {c : Accounts} {address : Address}
    {f : CachedAccount → CachedAccount} {error : InternalError} :
    c.amend address f = .error error ↔
      c.get? address = none ∧ error = .accountNotFound address := by
  unfold Accounts.amend
  cases c.get? address <;> simp [eq_comm]

namespace JournalEntry

variable {c : Accounts} {e : JournalEntry}

/-- The account that an entry is about. -/
def address : JournalEntry → Address
  | created address _ => address
  | balance address _ => address
  | nonce address _ => address
  | code address _ => address
  | storage address _ _ => address

/-- Whether an entry holds a part of its account only. -/
def holdsPart : JournalEntry → Bool
  | created _ _ => false
  | _ => true

/-- The entry **cannot be undone**: what it holds is a part of an account that is not there. -/
def Stuck (e : JournalEntry) (c : Accounts) : Prop :=
  e.holdsPart ∧ c.get? e.address = none

theorem undo_eq_error_iff {error : InternalError} :
    e.undo c = .error error ↔ e.Stuck c ∧ error = .accountNotFound e.address := by
  cases e with
  | created => simp [undo, Stuck, holdsPart]
  | _ => simp [undo, Stuck, holdsPart, address, Accounts.amend_eq_error_iff]

/-- Either all entries of a list can be undone, or there is a first one that cannot. -/
theorem undoAll_cases (es : List JournalEntry) (c : Accounts) :
    (∃ d, undoAll es c = .ok d) ∨
      ∃ newer e older d, es = newer ++ e :: older ∧ undoAll newer c = .ok d ∧ e.Stuck d := by
  induction es generalizing c with
  | nil => exact .inl ⟨c, rfl⟩
  | cons e es ih =>
    -- The newest entry is tried first, and what it leaves decides about the older ones.
    cases hundo : e.undo c with
    | error error => exact .inr ⟨[], e, es, c, rfl, rfl, (undo_eq_error_iff.mp hundo).1⟩
    | ok b =>
      rcases ih b with ⟨d, hd⟩ | ⟨newer, e', older, d, rfl, hd, hstuck⟩
      · exact .inl ⟨d, (undoAll_cons hundo es).trans hd⟩
      · exact .inr ⟨e :: newer, e', older, d, rfl, (undoAll_cons hundo newer).trans hd, hstuck⟩

end JournalEntry

namespace Journal

variable {j j' : Journal} {c c' d : Accounts} {position a b : Nat} {newer : List JournalEntry}

/-- Unwinding by as many entries as can be undone undoes them. -/
theorem unwind_of_undone (h : JournalEntry.undoAll newer c = .ok d) (older : List JournalEntry) :
    unwind newer.length (newer ++ older) c = (.ok (), older, d) := by
  induction newer generalizing c with
  | nil =>
    cases h
    rfl
  | cons e newer ih =>
    obtain ⟨b, hb, hd⟩ := JournalEntry.undoAll_cons_ok h
    simp only [List.length_cons, List.cons_append, unwind, hb]
    exact ih hd

/-- Unwinding ends at an entry that is stuck when its turn comes. The entry is gone by then. -/
theorem unwind_of_stuck {e : JournalEntry} (h : JournalEntry.undoAll newer c = .ok d)
    (hstuck : e.Stuck d) (older : List JournalEntry) {count : Nat} (hcount : newer.length < count) :
    unwind count (newer ++ e :: older) c = (.error (.accountNotFound e.address), older, d) := by
  induction newer generalizing c count with
  -- There is at least one entry to undo, and it is the one that is stuck.
  | nil =>
    obtain ⟨rest, rfl⟩ := Nat.exists_eq_succ_of_ne_zero (Nat.ne_of_gt hcount)
    cases h
    simp only [List.nil_append, unwind, JournalEntry.undo_eq_error_iff.mpr ⟨hstuck, rfl⟩]
  | cons e' newer ih =>
    obtain ⟨rest, rfl⟩ := Nat.exists_eq_succ_of_ne_zero (Nat.ne_of_gt (Nat.zero_lt_of_lt hcount))
    obtain ⟨b, hb, hd⟩ := JournalEntry.undoAll_cons_ok h
    simp only [List.cons_append, unwind, hb]
    exact ih hd (Nat.lt_of_succ_lt_succ hcount)

/-- A position beyond the end is refused, and nothing changes. -/
theorem revertTo_beyond (h : j.length < position) (c : Accounts) :
    j.revertTo position c = (.error (.invalidSnapshot (UInt64.ofNat position)), j, c) := by
  simp only [revertTo, if_pos h]

/-- Any other position is reached by unwinding the entries above it. -/
theorem revertTo_within (h : position ≤ j.length) (c : Accounts) :
    j.revertTo position c =
      let undone := unwind (j.length - position) j.entries c
      (undone.1, ⟨undone.2.1⟩, undone.2.2) := by
  simp only [revertTo, if_neg (Nat.not_lt_of_le h)]

/-- **How going back** to a position of a journal **ends**: with an answer, and with what is left of
the journal and the accounts. -/
inductive GoesBack (position : Nat) (j : Journal) (c : Accounts) :
    Except InternalError Unit × Journal × Accounts → Prop
  /-- The entries above the position have been undone and are gone. -/
  | whole {newer older : List JournalEntry} {d : Accounts} (hentries : j.entries = newer ++ older)
    (hposition : older.length = position) (hundone : JournalEntry.undoAll newer c = .ok d) :
    GoesBack position j c (.ok (), ⟨older⟩, d)
  /-- One of the entries above the position is stuck once the newer ones have been undone. It is
  gone together with these, and nothing else has happened. -/
  | part {newer older : List JournalEntry} {e : JournalEntry} {d : Accounts}
    (hentries : j.entries = newer ++ e :: older) (hposition : position ≤ older.length)
    (hundone : JournalEntry.undoAll newer c = .ok d) (hstuck : e.Stuck d) :
    GoesBack position j c (.error (.accountNotFound e.address), ⟨older⟩, d)

namespace GoesBack

variable {r : Except InternalError Unit × Journal × Accounts}

/-- What goes back in that way is what going back does. -/
theorem revertTo_eq (h : GoesBack position j c r) : j.revertTo position c = r := by
  cases h with
  | @whole newer older d hentries hposition hundone =>
    have hlength : j.length = newer.length + older.length := by
      rw [length, hentries, List.length_append]
    have hcount : j.length - position = newer.length := by omega
    rw [revertTo_within (by omega), hcount, hentries, unwind_of_undone hundone]
  | @part newer older e d hentries hposition hundone hstuck =>
    -- The entry that is stuck is undone as well, since the position is below it.
    have hlength : j.length = newer.length + (older.length + 1) := by
      rw [length, hentries, List.length_append, List.length_cons]
    have hcount : newer.length < j.length - position := by omega
    rw [revertTo_within (by omega), hentries, unwind_of_stuck hundone hstuck older hcount]

/-- The entries that are left are the oldest ones, in their order. -/
theorem suffix (h : GoesBack position j c r) : r.2.1.entries <:+ j.entries := by
  cases h with
  | whole hentries =>
    rw [hentries]
    exact List.suffix_append _ _
  | part hentries =>
    rw [hentries, List.append_cons]
    exact List.suffix_append _ _

/-- Where all has been undone, the journal ends at the position. -/
theorem length_eq (h : GoesBack position j c (.ok (), j', c')) : j'.length = position := by
  cases h with
  | whole _ hposition => exact hposition

/-- **Going back further** from where all has been undone is going back in one go. -/
theorem trans (h : GoesBack a j c (.ok (), j', c')) (h' : GoesBack b j' c' r) :
    GoesBack b j c r := by
  cases h with
  | @whole above below _ hentries _ hundone =>
    -- The entries above `a` are undone first, and then those of what is below.
    have hall : ∀ {newer older d}, below = newer ++ older →
        JournalEntry.undoAll newer c' = .ok d →
        j.entries = (above ++ newer) ++ older ∧
          JournalEntry.undoAll (above ++ newer) c = .ok d := by
      intro newer older d hbelow hundone'
      rw [List.append_assoc, ← hbelow, JournalEntry.undoAll_append hundone]
      exact ⟨hentries, hundone'⟩
    cases h' with
    | whole hentries' hposition hundone' =>
      obtain ⟨hentries, hundone⟩ := hall hentries' hundone'
      exact .whole hentries hposition hundone
    | part hentries' hposition hundone' hstuck =>
      obtain ⟨hentries, hundone⟩ := hall hentries' hundone'
      exact .part hentries hposition hundone hstuck

end GoesBack

/-- Going back to a position of the journal always ends in one of the two ways. -/
theorem goesBack_revertTo (h : position ≤ j.length) (c : Accounts) :
    GoesBack position j c (j.revertTo position c) := by
  -- A way to end is the way that it ends, so it is enough to find one.
  suffices hends : ∃ r, GoesBack position j c r by
    obtain ⟨r, hback⟩ := hends
    rw [hback.revertTo_eq]
    exact hback
  have hsplit := (List.take_append_drop (j.length - position) j.entries).symm
  have hbelow : (j.entries.drop (j.length - position)).length = position := by
    rw [List.length_drop]
    exact Nat.sub_sub_self h
  -- The entries above the position decide: all of them can be undone, or one of them is stuck.
  rcases JournalEntry.undoAll_cases (j.entries.take (j.length - position)) c with
    ⟨d, hundone⟩ | ⟨newer, e, older, d, habove, hundone, hstuck⟩
  · exact ⟨_, .whole hsplit hbelow hundone⟩
  · -- The stuck entry divides what is above the position, and all below it is left.
    rw [habove, List.append_assoc, List.cons_append] at hsplit
    refine ⟨_, .part hsplit ?_ hundone hstuck⟩
    rw [List.length_append, hbelow]
    exact Nat.le_add_left _ _

/-- **Going back ends in that way** and in no other. -/
theorem revertTo_eq_iff (h : position ≤ j.length)
    {r : Except InternalError Unit × Journal × Accounts} :
    j.revertTo position c = r ↔ GoesBack position j c r := by
  constructor
  · rintro rfl
    exact goesBack_revertTo h c
  · exact GoesBack.revertTo_eq

/-- Going back in two steps leads to where going back in one step does. -/
theorem revertTo_revertTo (hba : b ≤ a) (ha : a ≤ j.length)
    (h : j.revertTo a c = (.ok (), j', c')) : j'.revertTo b c' = j.revertTo b c := by
  have hback := (revertTo_eq_iff ha).mp h
  have hb : b ≤ j'.length := by
    rw [hback.length_eq]
    exact hba
  exact (hback.trans (goesBack_revertTo hb c')).revertTo_eq.symm

/-- The entries that are left after going back are the oldest ones, in their order. -/
theorem suffix_revertTo (j : Journal) (position : Nat) (c : Accounts) :
    (j.revertTo position c).2.1.entries <:+ j.entries := by
  by_cases h : position ≤ j.length
  · exact (goesBack_revertTo h c).suffix
  · simp only [revertTo_beyond (Nat.lt_of_not_le h), List.suffix_refl]

/-- Going back to a position of the journal fails only for want of an account. -/
theorem revertTo_answer (h : position ≤ j.length) (c : Accounts) :
    (j.revertTo position c).1 = .ok () ∨
      ∃ address, (j.revertTo position c).1 = .error (.accountNotFound address) := by
  generalize hr : j.revertTo position c = r
  cases (revertTo_eq_iff h).mp hr with
  | whole => exact .inl rfl
  | part => exact .inr ⟨_, rfl⟩

/-- **Going back composes**, whatever the entries are and whatever accounts there are. Where going
back to a position succeeds, going back further from there gives what going back in one go gives:
the same answer, which is success or an account that is missing, the same journal and the same
accounts. The entries that are left are always the oldest ones. A position beyond the end is refused
and nothing changes, and any other one ends as `GoesBack` says: with all entries above it undone, or
with those that are newer than a stuck one. -/
theorem reverts_compose (j : Journal) (c : Accounts) :
    (∀ a b, b ≤ a → a ≤ j.length → ∀ j' c', j.revertTo a c = (.ok (), j', c') →
      j'.revertTo b c' = j.revertTo b c ∧
        ((j.revertTo b c).1 = .ok () ∨
          ∃ address, (j.revertTo b c).1 = .error (.accountNotFound address))) ∧
    (∀ position, (j.revertTo position c).2.1.entries <:+ j.entries) ∧
    (∀ position, j.length < position →
      j.revertTo position c = (.error (.invalidSnapshot (UInt64.ofNat position)), j, c)) ∧
    ∀ position, position ≤ j.length →
      ∀ r, j.revertTo position c = r ↔ GoesBack position j c r := by
  refine ⟨?_, fun position => suffix_revertTo j position c,
    fun position h => revertTo_beyond h c, fun position h r => revertTo_eq_iff h⟩
  intro a b hba ha j' c' h
  exact ⟨revertTo_revertTo hba ha h, revertTo_answer (Nat.le_trans hba ha) c⟩

/-- No account is there to begin with. The newest entry brings one back, so that the next one can be
undone, and the third one is stuck. -/
theorem reverts_compose_sample :
    let j : Journal := ⟨[.created 1 {}, .balance 1 5, .nonce 2 3, .balance 1 7]⟩
    let c : Accounts := (∅ : Accounts).insert 1 { info := { balance := 5 } }
    j.revertTo 2 ∅ = (.ok (), ⟨[.nonce 2 3, .balance 1 7]⟩, c) ∧
      revertTo 0 ⟨[.nonce 2 3, .balance 1 7]⟩ c = j.revertTo 0 ∅ ∧
      GoesBack 0 j ∅ (.error (.accountNotFound 2), ⟨[.balance 1 7]⟩, c) ∧
      j.revertTo 5 ∅ = (.error (.invalidSnapshot 5), j, ∅) := by
  intro j c
  have hfirst : j.revertTo 2 ∅ = (.ok (), ⟨[.nonce 2 3, .balance 1 7]⟩, c) := rfl
  have hall : j.revertTo 0 ∅ = (.error (.accountNotFound 2), ⟨[.balance 1 7]⟩, c) := rfl
  obtain ⟨hcompose, -, hbeyond, hends⟩ := reverts_compose j ∅
  exact ⟨hfirst, (hcompose 2 0 (by decide) (by decide) _ _ hfirst).1,
    (hends 0 (Nat.zero_le _) _).mp hall, hbeyond 5 (by decide)⟩

end Journal

end MessageCall
