import MessageCall.Proofs.State.Operations
import Mathlib.Data.List.Forall2

/-!
# Sessions with a ledger

A client of a ledger asks for operations, takes snapshots, goes back to them and commits. It keeps
the snapshots that are still valid, newest first: going back to one makes the newer ones invalid
and leaves it valid itself, and committing makes all of them invalid. A `Request` to go back names
one of the valid snapshots by its place among them, so nested, repeated and skipped-over snapshots
can all be expressed and stale ones cannot.

`Copies` is the plain way to provide the same service over a state of any type: a snapshot saves a
copy and going back puts it in place. `InStep` relates a session with a ledger to a session with
copies, given how the reports of a ledger relate to a state. If every operation keeps the relation
(`Matches`), then so does every list of requests (`InStep.run`).
-/

namespace MessageCall

/-- What a client may ask for. -/
inductive Request
  | op (op : LedgerOp)
  | snapshot
  /-- Going back to a valid snapshot, past as many newer ones as `newer` says. -/
  | revert (newer : Nat)
  | commit
  deriving DecidableEq

/-- The replies to a list of requests, and the state after them. -/
def runRequests {σ ρ : Type} (step : Request → σ → ρ × σ) : List Request → σ → List ρ × σ
  | [], s => ([], s)
  | request :: rest, s =>
    let (reply, s) := step request s
    let (replies, s) := runRequests step rest s
    (reply :: replies, s)

/-! ### Ledgers -/

/-- A ledger and the snapshots of it that are valid, newest first. -/
structure Session where
  ledger : Ledger := {}
  marks : List Ledger.Snapshot := []

/-- Carries out a request. A snapshot that is not valid cannot be gone back to, so nothing is asked
of the ledger then. -/
def Session.step (store : Store) : Request → Session → Except InternalError Answer × Session
  | .op op, s => ((op.perform store s.ledger).1, { s with ledger := (op.perform store s.ledger).2 })
  | .snapshot, s => (.ok .done, { s with marks := s.ledger.snapshot :: s.marks })
  | .revert newer, s =>
    match s.marks.drop newer with
    | [] => (.ok .done, s)
    | mark :: older =>
      ((Ledger.revertTo mark s.ledger).1.map fun _ => .done,
        { ledger := (Ledger.revertTo mark s.ledger).2, marks := mark :: older })
  | .commit, s => (.ok .done, { ledger := s.ledger.commit, marks := [] })

/-- The replies to a list of requests to a ledger, and the session after them. -/
def Session.run (store : Store) : List Request → Session →
    List (Except InternalError Answer) × Session :=
  runRequests (Session.step store)

/-- A session that goes back three times, over a write to an absent account and a new creation. -/
def sampleRequests : List Request :=
  [.op (.slot 1 3), .snapshot, .op (.createAccount 1), .snapshot, .op (.setCode 2 [1]),
    .op (.subBalance 1 6), .revert 0, .op (.code 2), .revert 1, .op (.setSlot 1 3 0), .revert 0,
    .op (.slot 1 3), .op (.code 1), .commit, .op (.accountExists 2)]

/-! ### Copies -/

/-- A state and the copies of it that were saved, newest first. -/
structure Copies (σ : Type) where
  now : σ
  saved : List σ := []

/-- Carries out a request on a state that is saved and put back as a whole. -/
def Copies.step {σ : Type} (act : LedgerOp → σ → Except InternalError Answer × σ) :
    Request → Copies σ → Except InternalError Answer × Copies σ
  | .op op, s => ((act op s.now).1, { s with now := (act op s.now).2 })
  | .snapshot, s => (.ok .done, { s with saved := s.now :: s.saved })
  | .revert newer, s =>
    match s.saved.drop newer with
    | [] => (.ok .done, s)
    | copy :: older => (.ok .done, { now := copy, saved := copy :: older })
  | .commit, s => (.ok .done, { s with saved := [] })

/-- The replies to a list of requests, and the state after them. -/
def Copies.run {σ : Type} (act : LedgerOp → σ → Except InternalError Answer × σ) :
    List Request → Copies σ → List (Except InternalError Answer) × Copies σ :=
  runRequests (Copies.step act)

/-! ### Sessions in step -/

section InStep

variable {store : Store} {σ : Type} {J : WordMap 256 Bytes → Prop} {R : Reports → σ → Prop}
  {A : Except InternalError Answer → Except InternalError Answer → Prop} {P : LedgerOp → Prop}
  {act : LedgerOp → σ → Except InternalError Answer × σ}

/-- Every operation that meets `P` takes related states to related states, with replies that `A`
holds of, and keeps what `J` says of the code at hand. -/
def Matches (store : Store) (J : WordMap 256 Bytes → Prop) (R : Reports → σ → Prop)
    (A : Except InternalError Answer → Except InternalError Answer → Prop) (P : LedgerOp → Prop)
    (act : LedgerOp → σ → Except InternalError Answer × σ) : Prop :=
  ∀ (op : LedgerOp) (l : Ledger) (w : σ), P op → l.Sound store → J l.codes →
    R (l.report store) w → A (op.perform store l).1 (act op w).1 ∧
      J (op.perform store l).2.codes ∧ R ((op.perform store l).2.report store) (act op w).2

/-- A session with a ledger is in step with a session with copies. -/
structure InStep (store : Store) (J : WordMap 256 Bytes → Prop) (R : Reports → σ → Prop)
    (s : Session) (n : Copies σ) : Prop where
  sound : s.ledger.Sound store
  codes : J s.ledger.codes
  now : R (s.ledger.report store) n.now
  /-- Each valid snapshot leads back to what its copy holds. -/
  saved : List.Forall₂ (fun mark w => mark ≤ s.ledger.snapshot ∧
    R ((Ledger.revertTo mark s.ledger).2.report store) w) s.marks n.saved
  /-- An older snapshot is of an earlier time. -/
  sorted : s.marks.Pairwise fun newer older => older ≤ newer

namespace InStep

variable {s : Session} {n : Copies σ}

theorem op (hmatch : Matches store J R A P act) (h : InStep store J R s n) {op : LedgerOp}
    (hop : P op) : A (Session.step store (.op op) s).1 (Copies.step act (.op op) n).1 ∧
      InStep store J R (Session.step store (.op op) s).2 (Copies.step act (.op op) n).2 := by
  have hevolves := Ledger.perform_evolves h.sound op
  obtain ⟨hanswer, hcodes, hnow⟩ := hmatch op s.ledger n.now hop h.sound h.codes h.now
  refine ⟨hanswer, hevolves.sound, hcodes, hnow, h.saved.imp ?_, h.sorted⟩
  -- Going back takes back what the operation did, so the copies are still what it leads to.
  rintro mark w ⟨hmark, hback⟩
  obtain ⟨-, -, hagrees, -⟩ := hevolves.revertTo h.sound hmark
  refine ⟨Nat.le_trans hmark hevolves.snapshot_le, ?_⟩
  change R ((Ledger.revertTo mark (op.perform store s.ledger).2).2.current.report store) w
  rw [hagrees.report]
  exact hback

theorem snapshot (h : InStep store J R s n) :
    InStep store J R (Session.step store .snapshot s).2 (Copies.step act .snapshot n).2 where
  sound := h.sound
  codes := h.codes
  now := h.now
  saved := by
    -- Going back at once leads nowhere else.
    refine .cons ⟨Nat.le_refl _, ?_⟩ h.saved
    change R ((Ledger.revertTo s.ledger.snapshot s.ledger).2.report store) n.now
    rw [(Ledger.Evolves.refl h.sound).report_revertTo]
    exact h.now
  sorted := by
    refine List.pairwise_cons.mpr ⟨?_, h.sorted⟩
    exact ((List.forall₂_and_left _ _).mp h.saved).1

theorem revert (h : InStep store J R s n)
    (act : LedgerOp → σ → Except InternalError Answer × σ) (newer : Nat) :
    (Session.step store (.revert newer) s).1 = (Copies.step act (.revert newer) n).1 ∧
      InStep store J R (Session.step store (.revert newer) s).2
        (Copies.step act (.revert newer) n).2 := by
  have hsaved := List.forall₂_drop newer h.saved
  have hsorted : (s.marks.drop newer).Pairwise fun newer older => older ≤ newer :=
    h.sorted.sublist (List.drop_sublist _ _)
  cases hmarks : s.marks.drop newer with
  | nil =>
    -- Without a valid snapshot of that name there is no copy of it either.
    rw [hmarks] at hsaved
    simp only [Session.step, Copies.step, hmarks, List.forall₂_nil_left_iff.mp hsaved]
    exact ⟨trivial, h⟩
  | cons mark older =>
    rw [hmarks] at hsaved hsorted
    obtain ⟨copy, copies, ⟨hmark, hback⟩, holder, hcopies⟩ := List.forall₂_cons_left_iff.mp hsaved
    obtain ⟨hle, -⟩ := List.pairwise_cons.mp hsorted
    simp only [Session.step, Copies.step, hmarks, hcopies]
    obtain ⟨_, _, _, -, -, -, hr, -⟩ := h.sound.exists_revertTo hmark
    have hsnapshot := h.sound.snapshot_revertTo hmark
    -- Seen from the place gone back to, what is as old or older is where it was.
    have hkept : ∀ p w, p ≤ mark ∧ p ≤ s.ledger.snapshot ∧
        R ((Ledger.revertTo p s.ledger).2.report store) w →
        p ≤ (Ledger.revertTo mark s.ledger).2.snapshot ∧
          R ((Ledger.revertTo p (Ledger.revertTo mark s.ledger).2).2.report store) w := by
      rintro p w ⟨hp, -, hw⟩
      refine ⟨Nat.le_trans hp (Nat.le_of_eq hsnapshot.symm), ?_⟩
      rw [h.sound.revertTo_revertTo hp hmark]
      exact hw
    -- Going on is going back in one step, so the older snapshots keep their copies.
    refine ⟨?_, h.sound.revertTo hmark, ?_, hback, ?_, hsorted⟩
    · simp only [hr, Except.map]
    · simp only [hr]
      exact h.codes
    · refine .cons (hkept mark copy ⟨Nat.le_refl _, hmark, hback⟩) ?_
      exact ((List.forall₂_and_left _ _).mpr ⟨hle, holder⟩).imp hkept

theorem commit (h : InStep store J R s n) :
    InStep store J R (Session.step store .commit s).2 (Copies.step act .commit n).2 where
  sound := h.sound.commit
  codes := h.codes
  now := h.now
  saved := .nil
  sorted := .nil

/-- **One request** to both sessions. -/
theorem step (hmatch : Matches store J R A P act) (hA : ∀ r, A r r) (h : InStep store J R s n)
    (request : Request) (hP : ∀ op, request = .op op → P op) :
    A (Session.step store request s).1 (Copies.step act request n).1 ∧
      InStep store J R (Session.step store request s).2 (Copies.step act request n).2 := by
  cases request with
  | op op => exact h.op hmatch (hP op rfl)
  | snapshot => exact ⟨hA _, h.snapshot⟩
  | revert newer =>
    obtain ⟨hreply, h'⟩ := h.revert act newer
    rw [hreply]
    exact ⟨hA _, h'⟩
  | commit => exact ⟨hA _, h.commit⟩

/-- **A list of requests** to both sessions. -/
theorem run (hmatch : Matches store J R A P act) (hA : ∀ r, A r r) (h : InStep store J R s n)
    (requests : List Request) (hP : ∀ op, .op op ∈ requests → P op) :
    List.Forall₂ A (Session.run store requests s).1 (Copies.run act requests n).1 ∧
      InStep store J R (Session.run store requests s).2 (Copies.run act requests n).2 := by
  induction requests generalizing s n with
  | nil => exact ⟨.nil, h⟩
  | cons request rest ih =>
    obtain ⟨hreply, h'⟩ := h.step hmatch hA request fun op hop => hP op (by simp [hop])
    obtain ⟨hreplies, h''⟩ := ih h' fun op hop => hP op (List.mem_cons_of_mem _ hop)
    exact ⟨.cons hreply hreplies, h''⟩

/-- New sessions are in step. -/
theorem start (store : Store) {w : σ} (hJ : J ∅) (hR : R (Ledger.report store {}) w) :
    InStep store J R {} { now := w } where
  sound := Ledger.sound_new store
  codes := hJ
  now := hR
  saved := .nil
  sorted := .nil

end InStep

end InStep

end MessageCall
