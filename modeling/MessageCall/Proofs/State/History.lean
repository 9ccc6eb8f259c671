import MessageCall.Proofs.State.Coherence
import MessageCall.Proofs.State.Unwinding

/-!
# Histories

`Ledger.Sound` is the invariant of a ledger and `Ledger.Evolves` is how one sound ledger may lead to
another: the journal of the later one is that of the earlier one with entries on top, and undoing
those entries gives back accounts that agree with the earlier ones. `Evolves` is transitive, it
holds of a step that makes no entry (`Evolves.of_quiet`) and of a step whose entries undo it
(`Evolves.of_entries`), and it is what makes a snapshot work: going back to the earlier ledger's
position succeeds and ends in accounts that agree with the earlier ones (`Evolves.revertTo`).
-/

namespace MessageCall

variable {store : Store}

/-! ### Undoing keeps coherence -/

/-- A change that was faithful to make on an account is faithful to make on one that agrees with
it. -/
theorem CachedAccount.Faithful.amend {address : Address} {codes codes' : WordMap 256 Bytes}
    {before before' x y : CachedAccount} {f : CachedAccount → CachedAccount} {g : Report → Report}
    (hf : CachedAccount.Shows f g) (hx : x.Faithful store address codes before)
    (hfx : (f x).Faithful store address codes before)
    (hy : y.Faithful store address codes' before') (hb : before.Within before')
    (hc : CodesGrow codes codes') (hr : y.report store address = x.report store address)
    (hm : y.isUnmodified → x.isUnmodified) : (f y).Faithful store address codes' before' := by
  have hfr : (f y).report store address = (f x).report store address := by
    rw [hf.report, hf.report, hr]
  have hinfo : (f y).info = (f x).info := congrArg Report.info hfr
  refine ⟨fun h => ?_, fun h => ?_, fun hp hfresh key hk => ?_, ?_⟩
  · -- An absent account is blank on both sides, so it is one and the same account that changes.
    have hyp : y.present = false := by rw [← hf.present, h]
    have hxp : x.present = false := by
      rw [← hyp]
      exact (congrArg Report.present hr).symm
    obtain ⟨hbefore, hy0⟩ := hy.absent hyp
    have hyx : y = x := by rw [hy0, (hx.absent hxp).2]
    rw [hyx]
    exact ⟨hbefore, (hfx.absent (by rw [hf.present, hxp])).2⟩
  · -- The mark is on neither account then, and without it the change shows nowhere.
    rw [hf.isUnmodified] at h
    rw [hfr, hb.unread]
    exact hfx.untouched (by rw [hf.isUnmodified, hm h])
  · -- A slot of the changed account was cached before, or it is one that the change caches.
    have hyfresh : y.storageIsFresh = false := by
      rw [← hfresh]
      unfold CachedAccount.storageIsFresh
      rw [hf.status]
    have hfxfresh : (f x).storageIsFresh = false := by
      rw [← hfresh]
      exact (congrArg Report.fresh hfr).symm
    rcases hf.slots x y key hk with hk | hk
    · exact hy.read hp hyfresh key hk
    · exact hb.slots (hfx.read (by rw [← hb.present, hp]) hfxfresh key hk)
  · rw [hinfo, hb.info]
    exact hfx.code.imp_right (Or.imp_right hc.hasCode)

/-- **Undoing keeps coherence**, also where more has been read by the time of the undoing than
when the entry was made. -/
theorem Coherent.undo {initial initial' : Accounts} {codes codes' : WordMap 256 Bytes}
    {c c' d d' : Accounts} {e : JournalEntry} (hin : initial.Within initial')
    (hcodes : CodesGrow codes codes') (hc : Coherent store initial codes c)
    (hd : Coherent store initial codes d) (hc' : Coherent store initial' codes' c')
    (hag : c.Agrees store c') (hu : e.undo c = .ok d) (hu' : e.undo c' = .ok d') :
    Coherent store initial' codes' d' := by
  -- The four entries that change a part of an account in place.
  have amended : ∀ {address f g}, CachedAccount.Shows f g → c.amend address f = .ok d →
      c'.amend address f = .ok d' → Coherent store initial' codes' d' := by
    intro address f g hf hu hu'
    obtain ⟨x, hx, rfl⟩ := Accounts.amend_eq_ok hu
    obtain ⟨y, hy, rfl⟩ := Accounts.amend_eq_ok hu'
    obtain ⟨y', hy', hm⟩ := hag.cached hx
    obtain rfl : y = y' := Option.some.inj (hy.symm.trans hy')
    obtain ⟨before, hb⟩ := hc.initial_of_cached hx
    obtain ⟨before', hb', hbb⟩ := hin hb
    have hfx := hd.faithful (WordMap.get?_insert_self c address (f x)) hb
    exact hc'.insert hb' (.amend hf (hc.faithful hx hb) hfx (hc'.faithful hy hb') hbb hcodes
      (hag.report_eq hx hy) hm)
  -- By the entry: four of the five put back one part.
  cases e with
  | created address previous =>
    -- A creation is taken back by putting back what its entry holds, on either side.
    cases hu
    cases hu'
    have hp := WordMap.get?_insert_self c address previous
    obtain ⟨before, hb⟩ := hd.initial_of_cached hp
    obtain ⟨before', hb', hbb⟩ := hin hb
    exact hc'.insert hb' ((hd.faithful hp hb).mono hbb hcodes)
  | balance address previous => exact amended (.setBalance previous) hu hu'
  | nonce address previous => exact amended (.setNonce previous) hu hu'
  | code address previous => exact amended (.setCodeHash previous) hu hu'
  | storage address key previous => exact amended (.setSlot key previous) hu hu'

/-! ### Points of a history -/

/-- `P` holds now and at every point that undoing the entries leads back to. -/
def Undoable (P : Accounts → Prop) : List JournalEntry → Accounts → Prop
  | [], c => P c
  | e :: es, c => P c ∧ ∃ d, e.undo c = .ok d ∧ Undoable P es d

namespace Undoable

variable {P : Accounts → Prop} {es es' : List JournalEntry} {c c' d : Accounts}

/-- The newest point. -/
theorem now (h : Undoable P es c) : P c := by
  cases es with
  | nil => exact h
  | cons e es => exact h.1

/-- Undoing the newest entries leads to a point of the history. -/
theorem append (h : Undoable P (es ++ es') c) :
    ∃ d, JournalEntry.undoAll es c = .ok d ∧ Undoable P es' d := by
  induction es generalizing c with
  | nil => exact ⟨c, rfl, h⟩
  | cons e es ih =>
    obtain ⟨-, b, hb, h⟩ := h
    obtain ⟨d, hd, hes⟩ := ih h
    exact ⟨d, by rw [JournalEntry.undoAll_cons hb, hd], hes⟩

/-- **Reading keeps the history.** If the newest point is coherent after more has been read, then
so are all the older ones. -/
theorem carry {initial initial' : Accounts} {codes codes' : WordMap 256 Bytes}
    (hin : initial.Within initial') (hcodes : CodesGrow codes codes')
    (h : Undoable (Coherent store initial codes) es c) (hag : c.Agrees store c')
    (hc' : Coherent store initial' codes' c') :
    Undoable (Coherent store initial' codes') es c' := by
  induction es generalizing c c' with
  | nil => exact hc'
  | cons e es ih =>
    obtain ⟨hc, d, hd, h⟩ := h
    -- The older points are those that the same entries lead to from here.
    obtain ⟨d', hd', hdd⟩ := JournalEntry.undo_congr hag hd
    exact ⟨hc', d', hd', ih h hdd (hc.undo hin hcodes h.now hc' hag hd hd')⟩

end Undoable

namespace Ledger

/-- The **invariant** of a ledger over a store. -/
structure Sound (store : Store) (l : Ledger) : Prop where
  /-- What was first read is as the store has it. -/
  initial : ∀ {address before}, l.initial.get? address = some before →
    before.ReadFrom store address
  /-- The accounts are coherent at every point of the history. -/
  history : Undoable (Coherent store l.initial l.codes) l.journal.entries l.current

theorem Sound.coherent {l : Ledger} (h : l.Sound store) :
    Coherent store l.initial l.codes l.current := h.history.now

/-- A new ledger is sound. -/
theorem sound_new (store : Store) : Sound store {} where
  initial h := by cases h
  history := ⟨fun _ => rfl, fun h => by cases h⟩

/-- The invariant does not depend on whether changes can still be undone. -/
theorem Sound.commit {l : Ledger} (h : l.Sound store) : l.commit.Sound store where
  initial := h.initial
  history := h.coherent

/-- How a ledger changes while snapshots of it stay valid: to a sound ledger from which undoing the
entries made since gives back what was reported. -/
structure Evolves (store : Store) (l l' : Ledger) : Prop where
  sound : l'.Sound store
  codes : CodesGrow l.codes l'.codes
  undone : ∃ es c, l'.journal.entries = es ++ l.journal.entries ∧
    JournalEntry.undoAll es l'.current = .ok c ∧ l.current.Agrees store c

namespace Evolves

variable {l l' l'' : Ledger}

theorem refl (h : l.Sound store) : Evolves store l l where
  sound := h
  codes := .refl _
  undone := ⟨[], l.current, rfl, rfl, .refl store _⟩

theorem trans (h : Evolves store l l') (h' : Evolves store l' l'') : Evolves store l l'' where
  sound := h'.sound
  codes := h.codes.trans h'.codes
  undone := by
    obtain ⟨es, c, hes, hc, hag⟩ := h.undone
    obtain ⟨es', c', hes', hc', hag'⟩ := h'.undone
    -- The later entries are undone first, and what they lead to agrees with the middle ledger.
    obtain ⟨d, hd, hcd⟩ := JournalEntry.undoAll_congr hag' hc
    refine ⟨es' ++ es, d, ?_, ?_, hag.trans hcd⟩
    · rw [hes', hes, List.append_assoc]
    · rw [JournalEntry.undoAll_append hc', hd]

/-- A step that only reads. -/
theorem of_quiet (h : l.Sound store) (hj : l'.journal = l.journal)
    (hr : ∀ {address before}, l'.initial.get? address = some before →
      before.ReadFrom store address)
    (hin : l.initial.Within l'.initial) (hcodes : CodesGrow l.codes l'.codes)
    (hag : l.current.Agrees store l'.current)
    (hc : Coherent store l'.initial l'.codes l'.current) : Evolves store l l' where
  sound := ⟨hr, by rw [hj]; exact h.history.carry hin hcodes hag hc⟩
  codes := hcodes
  undone := ⟨[], l'.current, by rw [hj]; rfl, rfl, hag⟩

/-- A step that makes entries which undo it. -/
theorem of_entries (es : List JournalEntry) {c : Accounts} (h : l.Sound store)
    (hj : l'.journal.entries = es ++ l.journal.entries) (hi : l'.initial = l.initial)
    (hk : l'.codes = l.codes) (hu : JournalEntry.undoAll es l'.current = .ok c)
    (hag : l.current.Agrees store c)
    (hhistory : Undoable (Coherent store l.initial l.codes) l.journal.entries c →
      Undoable (Coherent store l.initial l.codes) (es ++ l.journal.entries) l'.current)
    (hc : Coherent store l.initial l.codes c) : Evolves store l l' where
  sound := by
    refine ⟨by rw [hi]; exact h.initial, ?_⟩
    rw [hj, hi, hk]
    exact hhistory (h.history.carry (Accounts.Within.refl _) (.refl _) hag hc)
  codes := by
    rw [hk]
    exact .refl _
  undone := ⟨es, c, hj, hu, hag⟩

end Evolves

/-! ### Going back -/

/-- A position beyond the journal is refused, and nothing changes. -/
theorem revertTo_beyond {l : Ledger} {mark : Snapshot} (h : l.snapshot < mark) :
    revertTo mark l = (.error (.invalidSnapshot (UInt64.ofNat mark)), l) := by
  simp only [revertTo, Journal.revertTo_beyond h]

/-- Going back over the entries on top of a journal undoes them. -/
theorem revertTo_of_undoAll {l : Ledger} {es rest : List JournalEntry} {c : Accounts}
    (hj : l.journal.entries = es ++ rest) (hu : JournalEntry.undoAll es l.current = .ok c) :
    revertTo rest.length l = (.ok (), { l with journal := ⟨rest⟩, current := c }) := by
  have hback : l.journal.GoesBack rest.length l.current (.ok (), ⟨rest⟩, c) := .whole hj rfl hu
  simp only [revertTo, hback.revertTo_eq]

/-- **Going back is possible** to every position that the journal still has. -/
theorem Sound.exists_revertTo {l : Ledger} (h : l.Sound store) {p : Snapshot}
    (hp : p ≤ l.snapshot) :
    ∃ es rest c, l.journal.entries = es ++ rest ∧ rest.length = p ∧
      JournalEntry.undoAll es l.current = .ok c ∧
      revertTo p l = (.ok (), { l with journal := ⟨rest⟩, current := c }) ∧
      Undoable (Coherent store l.initial l.codes) rest c := by
  -- The entries above the position are undone, and those below stay.
  have hsplit := (List.take_append_drop (l.snapshot - p) l.journal.entries).symm
  have hlength : (l.journal.entries.drop (l.snapshot - p)).length = p := by
    rw [List.length_drop]
    exact Nat.sub_sub_self hp
  have hhistory := h.history
  rw [hsplit] at hhistory
  obtain ⟨c, hc, hrest⟩ := hhistory.append
  have hr := revertTo_of_undoAll hsplit hc
  rw [hlength] at hr
  exact ⟨_, _, c, hsplit, hlength, hc, hr, hrest⟩

theorem Sound.revertTo {l : Ledger} (h : l.Sound store) {p : Snapshot} (hp : p ≤ l.snapshot) :
    (Ledger.revertTo p l).2.Sound store := by
  obtain ⟨es, rest, c, -, -, -, hr, hrest⟩ := h.exists_revertTo hp
  rw [hr]
  exact ⟨h.initial, hrest⟩

/-- Going back leads to the position asked for. -/
theorem Sound.snapshot_revertTo {l : Ledger} (h : l.Sound store) {p : Snapshot}
    (hp : p ≤ l.snapshot) : (Ledger.revertTo p l).2.snapshot = p := by
  obtain ⟨es, rest, c, -, hlength, -, hr, -⟩ := h.exists_revertTo hp
  rw [hr]
  exact hlength

/-- Going back in two steps leads to where going back in one step does. -/
theorem Sound.revertTo_revertTo {l : Ledger} (h : l.Sound store) {p q : Snapshot} (hpq : p ≤ q)
    (hq : q ≤ l.snapshot) :
    Ledger.revertTo p (Ledger.revertTo q l).2 = Ledger.revertTo p l := by
  obtain ⟨es, rest, c, hj, hlength, hu, hr, -⟩ := h.exists_revertTo hq
  have hback : l.journal.GoesBack q l.current (.ok (), ⟨rest⟩, c) := .whole hj hlength hu
  rw [hr]
  simp only [Ledger.revertTo, Journal.revertTo_revertTo hpq hq hback.revertTo_eq]

namespace Evolves

variable {l l' : Ledger}

theorem snapshot_le (h : Evolves store l l') : l.snapshot ≤ l'.snapshot := by
  obtain ⟨es, c, hes, -, -⟩ := h.undone
  change l.journal.entries.length ≤ l'.journal.entries.length
  rw [hes, List.length_append]
  omega

/-- **What evolves can be taken back.** Going back to a position that the earlier ledger has leads
to what going back from the earlier ledger leads to, with more read by then. -/
theorem revertTo (hl : l.Sound store) (h : Evolves store l l') {p : Snapshot}
    (hp : p ≤ l.snapshot) :
    (Ledger.revertTo p l').1 = .ok () ∧
      (Ledger.revertTo p l').2.journal = (Ledger.revertTo p l).2.journal ∧
      (Ledger.revertTo p l).2.current.Agrees store (Ledger.revertTo p l').2.current ∧
      CodesGrow (Ledger.revertTo p l).2.codes (Ledger.revertTo p l').2.codes := by
  obtain ⟨es, c, hes, hc, hag⟩ := h.undone
  obtain ⟨es', rest, d, hj, hlength, hd, hr, -⟩ := hl.exists_revertTo hp
  obtain ⟨d', hd', hdd⟩ := JournalEntry.undoAll_congr hag hd
  -- What was entered since is undone first, and then what the earlier ledger would undo.
  have hall : JournalEntry.undoAll (es ++ es') l'.current = .ok d' := by
    rw [JournalEntry.undoAll_append hc, hd']
  have hjall : l'.journal.entries = (es ++ es') ++ rest := by
    rw [hes, hj, List.append_assoc]
  have hr' := revertTo_of_undoAll hjall hall
  rw [hlength] at hr'
  rw [hr, hr']
  exact ⟨rfl, rfl, hdd, h.codes⟩

/-- Going back to where an evolution started ends it. -/
theorem revertTo_start (h : Evolves store l l') :
    Evolves store l (Ledger.revertTo l.snapshot l').2 := by
  obtain ⟨es, c, hes, hc, hag⟩ := h.undone
  have hr : Ledger.revertTo l.snapshot l' =
      (.ok (), { l' with journal := l.journal, current := c }) :=
    revertTo_of_undoAll hes hc
  refine ⟨h.sound.revertTo h.snapshot_le, ?_, ?_⟩
  · rw [hr]
    exact h.codes
  · rw [hr]
    exact ⟨[], c, rfl, rfl, hag⟩

end Evolves

end Ledger

end MessageCall
