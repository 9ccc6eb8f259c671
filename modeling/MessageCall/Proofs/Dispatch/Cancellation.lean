import MessageCall.Proofs.Dispatch.AllOrNothing
import MessageCall.Proofs.Dispatch.OuterSnapshot
import MessageCall.Proofs.Dispatch.Frames

/-!
# Cancellation is total

Code may ask for a stop, and so may anyone before an operation starts. The flag is only looked at
now and then: before a frame's code starts, before each of its instructions, and before its end.
This is enough. Nothing that can happen between two looks lets a frame end as if there had been no
stop.

What happens while an operation is carried out is written down as a list of `Event`s, those of the
operations below in between the instructions that have asked for them (`CallTree.events`). The
invariant is `Ceases`: where a stop has been asked for nothing happens, and asking for one is the
last event there is. It is kept by putting lists one after the other (`Ceases.append`), so it goes
from the instructions through the runs up to the operations (`Operation.host_ceases`).

A frame whose run has seen a stop ends with `cancelled`, since the flag is looked at before its next
instruction and before its end (`Script.nested_stopped`). And then it is undone like any other frame
that fails, up to the outermost one (`CallTree.cancellation_is_total`).
-/

namespace MessageCall

/-! ### What happens, in order -/

/-- Something that happens while an operation is carried out. -/
inductive Event
  /-- A frame is handed to the interpreter. -/
  | starts (a : Active)
  /-- Running code executes an instruction. -/
  | executes (i : Instruction) (a : Active)

namespace Script

/-- The instructions that a run has executed, each followed by what has happened in the operation
that it has asked for. -/
def woven (input : Bytes) : List (Instruction × Active) → List (List Event) → List Event
  | [], _ => []
  | (i, a) :: steps, below =>
    match i.request? input a with
    | none => .executes i a :: woven input steps below
    | some _ => .executes i a :: below.headD [] ++ woven input steps below.tail

variable {input : Bytes} {i : Instruction} {a : Active}

theorem woven_of_none (h : i.request? input a = none) (steps : List (Instruction × Active))
    (below : List (List Event)) :
    woven input ((i, a) :: steps) below = .executes i a :: woven input steps below := by
  rw [woven, h]

theorem woven_of_some {op : Operation} (h : i.request? input a = some op)
    (steps : List (Instruction × Active)) (first : List Event) (below : List (List Event)) :
    woven input ((i, a) :: steps) (first :: below) =
      ([.executes i a] ++ first) ++ woven input steps below := by
  rw [woven, h]
  rfl

end Script

mutual

/-- What has happened in an operation and in those below it, **in order**. -/
def CallTree.events (s : Setting) : CallTree → List Event
  | .node call children =>
    match call.run, call.op.entry? s call.before with
    | some run, some a =>
      .starts a :: Script.woven call.op.codeInput run.steps (CallTree.eventsAll s children)
    | _, _ => []

/-- What has happened in each of some operations. -/
def CallTree.eventsAll (s : Setting) : List CallTree → List (List Event)
  | [] => []
  | t :: ts => t.events s :: CallTree.eventsAll s ts

end

theorem CallTree.eventsAll_eq_map (s : Setting) (ts : List CallTree) :
    eventsAll s ts = ts.map (events s) := by
  induction ts with
  | nil => rfl
  | cons t ts ih => rw [eventsAll, ih, List.map_cons]

theorem CallTree.events_eq (s : Setting) (t : CallTree) :
    t.events s = match t.call.run, t.call.op.entry? s t.call.before with
      | some run, some a =>
        .starts a :: Script.woven t.call.op.codeInput run.steps (t.children.map (events s))
      | _, _ => [] := by
  cases t
  rw [events, eventsAll_eq_map]
  rfl

/-- A list of events **ceases**. The flags say whether a stop has been asked for before and
after. -/
structure Ceases (events : List Event) (before after : Bool) : Prop where
  /-- Nothing happens once a stop has been asked for, and it stays asked for. -/
  still : before = true → events = [] ∧ after = true
  /-- Asking for a stop is the last thing that happens. -/
  last : ∀ earlier a later, events = earlier ++ .executes .cancel a :: later →
    later = [] ∧ after = true

namespace Ceases

variable {events events' : List Event} {before between after : Bool}

theorem nil (flag : Bool) : Ceases [] flag flag where
  still h := ⟨rfl, h⟩
  last earlier a later h := by
    have hmem : Event.executes .cancel a ∈ ([] : List Event) := by
      rw [h]
      exact List.mem_append_right _ List.mem_cons_self
    exact absurd hmem List.not_mem_nil

theorem starts (a : Active) : Ceases [.starts a] false false where
  still h := by cases h
  -- Starting is no request to stop.
  last earlier b later h := by
    have hmem : Event.executes .cancel b ∈ [Event.starts a] := by
      rw [h]
      exact List.mem_append_right _ List.mem_cons_self
    cases List.mem_singleton.mp hmem

theorem executes {i : Instruction} (a : Active) (h : i = .cancel → after = true) :
    Ceases [.executes i a] false after where
  still hbefore := by cases hbefore
  last earlier b later heq := by
    cases earlier with
    | nil =>
      obtain ⟨hevent, hlater⟩ := List.cons.inj heq
      cases hevent
      exact ⟨hlater.symm, h rfl⟩
    | cons event earlier =>
      -- A list of one event has no place for another one.
      have hnil := (List.cons.inj heq).2
      exact absurd hnil.symm (List.append_ne_nil_of_right_ne_nil _ (List.cons_ne_nil _ _))

/-- **Ceasing goes on** from one list to the next. -/
theorem append (h : Ceases events before between) (h' : Ceases events' between after) :
    Ceases (events ++ events') before after where
  still hbefore := by
    obtain ⟨rfl, hbetween⟩ := h.still hbefore
    exact h'.still hbetween
  last earlier a later heq := by
    -- The request lies in the first list or in the second.
    rcases List.append_eq_append_iff.mp heq with ⟨rest, -, hrest⟩ | ⟨rest, hevents, hrest⟩
    · exact h'.last rest a later hrest
    · cases rest with
      | nil => exact h'.last [] a later hrest.symm
      | cons event rest =>
        obtain ⟨rfl, rfl⟩ := List.cons.inj hrest
        -- The stop was asked for in the first list, so nothing has happened in the second.
        obtain ⟨rfl, hbetween⟩ := h.last earlier a rest hevents
        exact h'.still hbetween

/-- Where a stop has been asked for, it stays asked for. -/
theorem asked {a : Active} (h : Ceases events before after)
    (ha : .executes .cancel a ∈ events) : after = true := by
  obtain ⟨earlier, later, hsplit⟩ := List.append_of_mem ha
  exact (h.last earlier a later hsplit).2

end Ceases

/-! ### Runs -/

namespace Script

variable {linked : Bool} {s : Setting} {host : Host} {input : Bytes} {i : Instruction}
  {a a' : Active}

/-- **A run ceases**, if the operations do that it asks for. -/
theorem runAll_ceases {events : Operation → Machine → List Event}
    (hhost : ∀ op m, Ceases (events op m) m.cancelled (host op m).2.cancelled)
    (fault : Option ExecutionFault) (is : List Instruction) (a : Active) :
    Ceases
      (woven input (executed true s host input is a)
        ((requests input (executed true s host input is a)).map fun x => events x.1 x.2))
      a.machine.cancelled (runAll true s host input fault is a).2.machine.cancelled := by
  induction is generalizing a with
  | nil =>
    unfold runAll
    -- At the end of the code there is one more look at the flag, and nothing happens.
    by_cases hcancelled : a.machine.cancelled = true
    · rw [Attempt.bind_of_error (checkStop_of_cancelled hcancelled)]
      exact .nil _
    · rw [Attempt.bind_of_ok (checkStop_of_not hcancelled)]
      cases fault with
      | none => exact .nil _
      | some fault => exact .nil _
  | cons i rest ih =>
    unfold executed runAll
    -- A look at the flag comes before each instruction.
    by_cases hcancelled : a.machine.cancelled = true
    · rw [Attempt.bind_of_error (checkStop_of_cancelled hcancelled), if_pos hcancelled]
      exact .nil _
    · rw [Attempt.bind_of_ok (checkStop_of_not hcancelled), if_neg hcancelled, Attempt.bind_apply]
      rw [Bool.not_eq_true] at hcancelled
      rw [hcancelled]
      rw [requests_cons, List.map_append]
      cases hrequest : i.request? input a with
      -- The instruction is all that happens, and it may be the one that asks for the stop.
      | none =>
        have hfirst : Ceases [.executes i a] false
            (step true s host input i a).2.machine.cancelled := by
          refine .executes a fun hi => ?_
          subst hi
          rfl
        rw [requests_of_none hrequest, List.map_nil, List.nil_append, woven_of_none hrequest]
        rcases hstep : step true s host input i a with ⟨e | _ | output, a₁⟩
        · rw [hstep] at hfirst
          exact hfirst
        · rw [hstep] at hfirst
          exact hfirst.append (ih a₁)
        · rw [hstep] at hfirst
          exact hfirst
      | some op =>
        -- The instruction comes first, and then what happens in the operation.
        have hasked : Ceases [.executes i a] false false := by
          refine .executes a fun hi => ?_
          subst hi
          cases hrequest
        have hbelow := hhost op a.machine
        have hhanded : step true s host input i a = _ := step_request hrequest
        rw [hcancelled, ← resumed_cancelled op a, ← hhanded] at hbelow
        have hfirst := hasked.append hbelow
        rw [requests_of_some hrequest, List.map_singleton, List.singleton_append,
          woven_of_some hrequest]
        -- An operation that was stopped hands the flag on, and the rest of the run sees it.
        rcases hstep : step true s host input i a with ⟨e | _ | output, a₁⟩
        · rw [hstep] at hfirst
          exact hfirst.append (.nil _)
        · rw [hstep] at hfirst
          exact hfirst.append (ih a₁)
        · rw [hstep] at hfirst
          exact hfirst.append (.nil _)

/-- An instruction that has seen a stop, or has asked for one, lets the run go on to its next look,
unless it is aborted. -/
theorem step_stopped (hhost : ∀ op m e, (host op m).1 = .error e → Internal e)
    {r : Except CallError (Option Bytes)} (h : step linked s host input i a = (r, a'))
    (hbefore : ¬ a.machine.cancelled = true) (hafter : a'.machine.cancelled = true)
    (hr : ∀ e, r = .error e → ¬ Internal e) : r = .ok none := by
  cases hrequest : i.request? input a with
  -- An operation has been handed its answer, which is not the end of the run.
  | some op =>
    obtain ⟨o, m, -, rfl, -⟩ := step_answered hhost hrequest h hr
    rfl
  | none =>
    cases i with
    | stop | output | outputZeros | revert | invalid =>
      -- These end the run, and do not touch the flag.
      cases h
      exact absurd hafter hbefore
    | observe =>
      cases h
      rfl
    | cancel =>
      cases linked <;> cases h <;> rfl
    -- Paying has no part in the flag, so nothing has seen a stop here.
    | burn gas =>
      rw [step_burn] at h
      cases hpaid : a.frame.charge? gas with
      | none =>
        rw [hpaid] at h
        cases h
        exact absurd hafter hbefore
      | some frame =>
        rw [hpaid] at h
        cases h
        rfl
    | store key value =>
      have hquiet : Quiet Ledger.Unrelated (.store key value) a r a' := step_quiet hrequest h
      rw [step_store] at h
      -- Storing can only fail with an internal error, which is excluded.
      rcases hset : Exec.view (View.setSlot s.store a.frame.account key value) a.machine with
        ⟨e | _, m⟩
      · rw [hset] at h
        cases h
        have hmeets : (Exec.view (View.setSlot s.store a.frame.account key value)).Meets
            (Machine.Touches Ledger.Unrelated) Internal :=
          Exec.meets_op (f := fun _ => .done) (.setSlot a.frame.account key value) trivial rfl
        exact absurd (hmeets.error (congrArg Prod.fst hset)) (hr e rfl)
      · rw [hset] at h
        cases h
        rfl
    | recurse =>
      rw [step_recurse hrequest] at h
      cases h
      rfl
    | call | callCode | delegateCall | create => cases hrequest

theorem runAll_stopped (hhost : ∀ op m e, (host op m).1 = .error e → Internal e)
    {fault : Option ExecutionFault} {is : List Instruction} {r : Except CallError Bytes}
    (h : runAll linked s host input fault is a = (r, a')) (hafter : a'.machine.cancelled = true)
    (hr : ∀ e, r = .error e → ¬ Internal e) : r = .error (.fault .cancelled) := by
  induction is generalizing a with
  | nil =>
    unfold runAll at h
    by_cases hcancelled : a.machine.cancelled = true
    · rw [Attempt.bind_of_error (checkStop_of_cancelled hcancelled)] at h
      cases h
      rfl
    · -- The end of the code has seen no stop.
      rw [Attempt.bind_of_ok (checkStop_of_not hcancelled)] at h
      cases fault with
      | none =>
        cases h
        exact absurd hafter hcancelled
      | some fault =>
        cases h
        exact absurd hafter hcancelled
  | cons i rest ih =>
    unfold runAll at h
    by_cases hcancelled : a.machine.cancelled = true
    · rw [Attempt.bind_of_error (checkStop_of_cancelled hcancelled)] at h
      cases h
      rfl
    · -- Where the flag is down before a step and up after the run, the step or the rest has met it.
      rw [Attempt.bind_of_ok (checkStop_of_not hcancelled), Attempt.bind_apply] at h
      rcases hstep : step linked s host input i a with ⟨e | _ | output, a₁⟩
      · rw [hstep] at h
        cases h
        cases step_stopped hhost hstep hcancelled hafter fun _ he => by cases he; exact hr e rfl
      · rw [hstep] at h
        exact ih h
      · rw [hstep] at h
        cases h
        cases step_stopped hhost hstep hcancelled hafter fun _ he => by cases he

/-- **A nested run that has seen a stop** ends with that, unless it is aborted. -/
theorem nested_stopped (hhost : ∀ op m e, (host op m).1 = .error e → Internal e)
    {r : Except CallError Bytes}
    (h : Running.nested (interpreter linked s host) input a = (r, a'))
    (hafter : a'.machine.cancelled = true) (hr : ∀ e, r = .error e → ¬ Internal e) :
    r = .error (.fault .cancelled) := by
  by_cases hcancelled : a.machine.cancelled = true
  · rw [Running.nested_of_cancelled hcancelled] at h
    cases h
    rfl
  · by_cases hdepth : a.machine.depth + 1 < UInt64.size
    · rw [Running.nested_of_run hcancelled hdepth] at h
      cases h
      exact runAll_stopped hhost (Attempt.apply_eq rfl) hafter hr
    · rw [Running.nested_of_depth hcancelled hdepth] at h
      cases h
      exact absurd rfl (hr _ rfl)

end Script

section

variable {linked : Bool} {s : Setting} {op : Operation} {m m' m₂ : Machine} {levels : Nat}
  {o : Outcome} {a : Active}

/-! ### Operations -/

namespace Operation

theorem events_of_no_entry (linked : Bool) (levels : Nat) (h : op.entry? s m = none) :
    (op.tree linked s (levels + 1) m).events s = [] := by
  have hentry : (op.tree linked s (levels + 1) m).call.op.entry? s
      (op.tree linked s (levels + 1) m).call.before = none := h
  rw [CallTree.events_eq, hentry]
  cases (op.tree linked s (levels + 1) m).call.run <;> rfl

/-- What happens in an operation whose frame is handed to the interpreter: it starts, and then its
code is executed. -/
theorem events_of_entry (linked : Bool) (levels : Nat) (h : op.entry? s m = some a) :
    (op.tree linked s (levels + 1) m).events s = [.starts a] ++
      let steps := Script.executed linked s (Script.host linked s levels) op.codeInput
        (Script.decode a.frame.code).1 a
      Script.woven op.codeInput steps
        ((Script.requests op.codeInput steps).map fun x =>
          (x.1.tree linked s levels x.2).events s) := by
  have hrun := codeRun?_of_entry linked (Script.host linked s levels) h
  have hcall : (op.tree linked s (levels + 1) m).call.run = _ := hrun
  have hentry : (op.tree linked s (levels + 1) m).call.op.entry? s
      (op.tree linked s (levels + 1) m).call.before = some a := h
  rw [CallTree.events_eq, hcall, hentry, children_of_entry linked levels h, List.map_map]
  rfl

/-- The flag after an operation: only its code can have asked for a stop. -/
theorem Course.cancelled {result : Except CallError Outcome}
    (h : op.Course linked s levels m result m₂) :
    m₂.cancelled = (op.entry? s m).elim m.cancelled fun a =>
      (Script.interpreter linked s (Script.host linked s levels) op.codeInput
        a).2.machine.cancelled := by
  cases h with
  -- Without a frame no code has run, and opening leaves the flag.
  | unopened hopen =>
    rw [entry?_of_unstarted hopen fun _ _ heq => by cases heq]
    exact ((opening_opens op).of_eq hopen).cancelled
  | unstarted hopen =>
    rw [entry?_of_unstarted hopen fun _ _ heq => by cases heq]
    exact ((opening_opens op).of_eq hopen).cancelled
  | @ran frame snapshot m₁ _ run a _ hopen hrun htrail hends haborts hnested =>
    have hopened : m₁.cancelled = m.cancelled := ((opening_opens op).of_eq hopen).cancelled
    -- Closing leaves the flag as the code left it.
    have hrest : m₂.cancelled = a.machine.cancelled := by
      rw [rest_eq_of_ran hends haborts]
      rfl
    have hrun : a.machine.cancelled = (Running.nested (Script.interpreter linked s
        (Script.host linked s levels)) op.codeInput ⟨frame, m₁⟩).2.machine.cancelled := by
      rw [hnested]
      rfl
    rw [hrest, hrun, entry?_of_started hopen]
    -- The same two checks decide whether the code starts.
    by_cases hcancelled : m₁.cancelled = true
    · rw [Running.nested_of_cancelled hcancelled, if_pos (.inl hcancelled)]
      exact hopened
    · by_cases hdepth : m₁.depth + 1 < UInt64.size
      · have hstarts : ¬ (m₁.cancelled = true ∨ ¬ m₁.depth + 1 < UInt64.size) :=
          not_or.mpr ⟨hcancelled, not_not.mpr hdepth⟩
        rw [Running.nested_of_run hcancelled hdepth, if_neg hstarts]
        rfl
      · rw [Running.nested_of_depth hcancelled hdepth, if_pos (.inr hdepth)]
        exact hopened

/-- **What happens in an operation ceases** once a stop has been asked for, at any level and
whatever comes of the operation. -/
theorem host_ceases (s : Setting) (levels : Nat) (op : Operation) (m : Machine) :
    Ceases ((op.tree true s levels m).events s) m.cancelled
      (Script.host true s levels op m).2.cancelled := by
  -- By the levels below the operation.
  induction levels generalizing op m with
  | zero => exact .nil _
  | succ levels ih =>
    obtain ⟨m₂, hcourse, hdone⟩ := host_course (Prod.mk.eta.symm : Script.host true s (levels + 1)
      op m = _)
    have hflag := hcourse.cancelled
    rw [hdone]
    show Ceases _ _ m₂.cancelled
    -- By whether code has run at all.
    rw [hflag]
    cases hentry : op.entry? s m with
    | none =>
      rw [events_of_no_entry true levels hentry]
      exact .nil _
    | some a =>
      -- The code starts only where no stop has been asked for.
      obtain ⟨frame, snapshot, m₁, hopen, hcancelled, -, rfl⟩ := entry?_eq_some hentry
      have hopened : m₁.cancelled = m.cancelled := ((opening_opens op).of_eq hopen).cancelled
      rw [hopened, Bool.not_eq_true] at hcancelled
      have hstarts : Ceases [.starts (Active.atDepth (m₁.depth + 1) ⟨frame, m₁⟩)] m.cancelled
          m₁.cancelled := by
        rw [hopened, hcancelled]
        exact .starts _
      rw [events_of_entry true levels hentry]
      exact hstarts.append (Script.runAll_ceases ih _ _ _)

/-! ### How an operation ends -/

/-- An operation whose code has ended with `cancelled` is undone for that. -/
theorem Ends.result_of_cancelled {address : Address} {snapshot : Ledger.Snapshot}
    (h : op.Ends s address snapshot a (.error (.fault .cancelled)) o m') :
    o.result = .failure a.frame.exhaust (.fault .cancelled) := by
  cases h with
  | bare _ hr =>
    rcases hr with ⟨_, hr⟩ | hr
    · cases hr
    · cases hr
  | undone hr =>
    rcases hr with hr | ⟨⟨_, hr⟩, -⟩
    · cases hr
      rfl
    · cases hr

end Operation

/-- An operation **fails for a stop**: its frame was open when the stop was asked for, or its code
would have been started after that. -/
structure CallTree.FailsCancelled (t : CallTree) (o : Outcome) : Prop where
  ended : ∃ run, t.call.run = some run ∧ run.ended = .error (.fault .cancelled)
  verdict : o.result.verdict = .revert (.fault .cancelled)
  gasLimit : o.result.gasLimit = t.call.op.gas
  gasUsed : o.result.gasUsed = o.result.gasLimit
  output : o.result.output = []

/-- **A frame that was open** when a stop was asked for fails for it, and so does a frame that was
still to be run. -/
theorem CallTree.failsCancelled {run : CodeRun}
    (h : Script.host linked s (levels + 1) op m = (.ok o, m'))
    (hrun : op.codeRun? linked s (Script.host linked s levels) m = some run)
    (hafter : m'.cancelled = true) : (op.tree linked s (levels + 1) m).FailsCancelled o := by
  obtain ⟨m₂, hcourse, rfl⟩ := Operation.host_course h
  -- An operation without a frame is not in question, since code has run.
  cases hcourse with
  | unstarted _ hnone =>
    rw [hrun] at hnone
    cases hnone
  | @ran frame snapshot m₁ _ run' a _ hopen hrun' htrail hends haborts hnested =>
    rw [hrun] at hrun'
    cases hrun'
    have hends := hends o rfl
    have hflag : (a.atDepth m₁.depth).machine.cancelled = true := by
      have hrest := congrArg Machine.cancelled hends.rest_eq
      exact hrest.symm.trans hafter
    -- The flag is up in the end, so the run was stopped by it.
    have hended : run.ended = .error (.fault .cancelled) :=
      Script.nested_stopped (Script.host_error linked s levels) hnested hflag hends.not_internal
    -- The frame still has the gas limit that the operation was given.
    obtain ⟨_, -, -, hprepares⟩ :=
      Operation.opening_started s.env.transfers.within_unrelated hopen
    have hgas : a.frame.gasLimit = op.gas := by
      calc
        a.frame.gasLimit = frame.gasLimit := htrail.continues.1.gasLimit
        _ = op.gas := hprepares.gasLimit
    -- What the result of a stopped frame looks like is settled by how it ended.
    rw [hended] at hends
    have hresult := hends.result_of_cancelled
    refine ⟨⟨run, hrun, hended⟩, ?_, ?_, ?_, ?_⟩
    · rw [hresult]
      rfl
    · rw [hresult, Operation.tree_op]
      exact hgas
    · rw [hresult]
      rfl
    · rw [hresult]
      rfl

/-- Only operations whose frame has been handed over leave events. -/
theorem CallTree.run_of_event {event : Event}
    (h : event ∈ (op.tree linked s (levels + 1) m).events s) :
    ∃ run, op.codeRun? linked s (Script.host linked s levels) m = some run := by
  cases hentry : op.entry? s m with
  | some a => exact ⟨_, Operation.codeRun?_of_entry _ _ hentry⟩
  | none =>
    rw [Operation.events_of_no_entry linked levels hentry] at h
    exact absurd h List.not_mem_nil

end

/-! ### What can be read afterwards -/

section

variable {store : Store} {l l' : Ledger} {caller : Address}

/-- Everything reads the same, but that one account exists and its nonce is one higher. -/
structure Ledger.ReadsCounted (store : Store) (caller : Address) (l l' : Ledger) : Prop where
  present : (Ledger.accountExists store caller l').1 = .ok true
  counted : ∃ nonce next, (Ledger.nonce store caller l).1 = .ok nonce ∧
    next.toNat = nonce.toNat + 1 ∧ (Ledger.nonce store caller l').1 = .ok next
  accountExists : ∀ address, address ≠ caller →
    (Ledger.accountExists store address l').1 = (Ledger.accountExists store address l).1
  nonce : ∀ address, address ≠ caller →
    (Ledger.nonce store address l').1 = (Ledger.nonce store address l).1
  balance : ∀ address, (Ledger.balance store address l').1 = (Ledger.balance store address l).1
  codeHash : ∀ address, (Ledger.codeHash store address l').1 = (Ledger.codeHash store address l).1
  slot : ∀ address key,
    (Ledger.slot store address key l').1 = (Ledger.slot store address key l).1

/-- A ledger that reports what it would after counting up a nonce reads so. -/
theorem Ledger.Sound.readsCounted (hstore : store.Blank) (h : l.Sound store) (h' : l'.Sound store)
    {nonce next : UInt64} (hnonce : (Ledger.nonce store caller l).1 = .ok nonce)
    (hnext : succ? nonce = some next)
    (hreport : l'.report store = (Ledger.setNonce store caller next l).2.report store) :
    ReadsCounted store caller l l' := by
  -- From the reports: only that of the caller is another one, and only in its nonce.
  obtain ⟨r, hr, -⟩ := h.report_of_nonce hnonce
  rw [h.report_setNonce hstore hr next] at hreport
  have hat : l'.report store caller =
      .ok { r with present := true, info := { r.info with nonce := next } } := by
    rw [hreport, Function.update_self]
  have hother : ∀ address, address ≠ caller → l'.report store address = l.report store address := by
    intro address hne
    rw [hreport, Function.update_of_ne hne]
  constructor
  · rw [h'.accountExists_eq, hat]
    rfl
  · refine ⟨nonce, next, hnonce, toNat_of_succ? hnext, ?_⟩
    rw [h'.nonce_eq, hat]
    rfl
  · intro address hne
    rw [h'.accountExists_eq, h.accountExists_eq, hother address hne]
  · intro address hne
    rw [h'.nonce_eq, h.nonce_eq, hother address hne]
  -- The balance, the code and the storage of the account itself are in its report as they were.
  · intro address
    rw [h'.balance_eq, h.balance_eq]
    by_cases hne : address = caller
    · rw [hne, hat, hr]
      rfl
    · rw [hother address hne]
  · intro address
    rw [h'.codeHash_eq, h.codeHash_eq]
    by_cases hne : address = caller
    · rw [hne, hat, hr]
      rfl
    · rw [hother address hne]
  · intro address key
    rw [h'.slot_eq, h.slot_eq]
    by_cases hne : address = caller
    · rw [hne, hat, hr]
      rfl
    · rw [hother address hne]

/-- What can be read after an operation that has **left nothing behind** but the nonce of a
creation. -/
structure Operation.Unwinds (store : Store) (op : Operation) (l l' : Ledger) : Prop where
  same : op.callType ≠ .create → Ledger.ReadsSame store l l'
  counted : ∀ caller initCode gas value, op = .create caller initCode gas value →
    Ledger.ReadsCounted store caller l l'

end

section

variable {linked : Bool} {s : Setting} {op : Operation} {m m' : Machine} {levels : Nat}
  {o : Outcome}

/-- **An operation that fails after its frame was prepared** leaves nothing behind. -/
theorem Operation.unwinds (hstore : s.store.Blank) (hp : s.env.transfers.Honest s.store)
    (hm : m.view.ledger.Sound s.store) {run : CodeRun} {e : CallError}
    (h : Script.host linked s (levels + 1) op m = (.ok o, m'))
    (hrun : op.codeRun? linked s (Script.host linked s levels) m = some run)
    (he : o.result.error? = some e) :
    op.Unwinds s.store m.view.ledger m'.view.ledger := by
  -- An operation that failed had a frame, and has gone back from what it did.
  obtain ⟨m₂, rfl, ⟨_, -, -, hnone⟩ | ⟨frame, snapshot, m₁, run', a, hopen, -, htrail, hends⟩⟩ :=
    host_ok h
  · rw [hrun] at hnone
    cases hnone
  · have hran : Ledger.Leads s.store m₁.view.ledger (a.atDepth m₁.depth).machine.view.ledger :=
      (htrail.moves (Script.host_meets hp.leads linked levels)).1.ledger
    obtain ⟨m₃, base, -, hlooks, hstands, hsound, hreport⟩ :=
      back_of_ends (m := op.entered m) hp hm hopen hran hends he
    constructor
    · -- A call stands on the ledger it found, a creation on that with the nonce counted up.
      intro hop
      refine hm.readsSame hsound ?_
      rw [hreport, hstands.eq_of_call hop]
      exact hlooks.report
    · intro caller initCode gas value hop
      subst hop
      obtain ⟨nonce, next, hread, hnext, hbase⟩ := hstands.counted hstore hm hlooks
      exact hm.readsCounted hstore hsound hread hnext (hreport.trans hbase)

/-- **Cancellation is total.** Where code can ask the dispatcher for a stop, take an outermost
operation that has a result, over a store that has zero storage for accounts that it does not know,
and the events in its tree, which recounts what was done. If its code, or any code below it, has
asked for a stop, or if one had been asked for before, then nothing has happened after that: no
instruction was executed and no frame was started. Every frame that was open has failed for the
stop, the outermost one with all of its gas, and everything reads as before, except that a creation
has counted up the nonce of its caller. There are two exceptions, and only if the stop was asked for
before: an operation that may not send its value is refused, and a call that would do nothing is
skipped. Neither changes anything. -/
theorem CallTree.cancellation_is_total (hstore : s.store.Blank)
    (hp : s.env.transfers.Honest s.store) (op : Operation) (hdepth : m.depth = 0)
    (hm : m.view.ledger.Reachable s.store)
    (h : (Script.dispatcher true s).perform op m = (.ok o, m'))
    (hstop : m.cancelled = true ∨
      ∃ a, .executes .cancel a ∈ (Script.callTree true s op m).events s) :
    let tree := Script.callTree true s op m
    tree.Recounts true s op m ∧
      Ceases (tree.events s) m.cancelled m'.cancelled ∧ m'.cancelled = true ∧
      (∀ t : CallTree, t.PartOf tree → ∀ a, .executes .cancel a ∈ t.events s →
        ∃ o, t.call.result = .ok o ∧ t.FailsCancelled o) ∧
      (tree.FailsCancelled o ∧ op.Unwinds s.store m.view.ledger m'.view.ledger ∨
        m.cancelled = true ∧ Ledger.ReadsSame s.store m.view.ledger m'.view.ledger ∧
          ((∃ detail, o = { result := .refused op.gas (.insufficientBalance detail) }) ∨
            o = { result := .noOp op.gas } ∧
              ∃ caller target input gas, op = .call caller target input gas 0)) := by
  intro tree
  have hdone : Script.host true s (s.limits.maxCallDepth.toNat + 2) op m = (.ok o, m') := h
  have hceases : Ceases (tree.events s) m.cancelled m'.cancelled := by
    have hceases := Operation.host_ceases s (s.limits.maxCallDepth.toNat + 2) op m
    rw [hdone] at hceases
    exact hceases
  have hafter : m'.cancelled = true := by
    -- The flag was up before, or it went up inside; in either case it stayed up.
    rcases hstop with hbefore | ⟨a, ha⟩
    · exact (hceases.still hbefore).2
    · exact hceases.asked ha
  refine ⟨callTree_recounts true s op m, hceases, hafter, fun t ht a ha => ?_, ?_⟩
  · obtain ⟨n, op', m₁, rfl, o', m₂, hok⟩ := part_ok hdone ht
    cases n with
    | zero => cases hok
    | succ n =>
      -- The stop was asked for inside of this operation, so its frame was open.
      obtain ⟨run, hrun⟩ := run_of_event ha
      have hafter : m₂.cancelled = true := by
        have hceases := Operation.host_ceases s (n + 1) op' m₁
        rw [hok] at hceases
        exact hceases.asked ha
      have hresult : (op'.tree true s (n + 1) m₁).call.result = .ok o' := by
        rw [Operation.tree_done] at hok
        exact congrArg Prod.fst hok
      exact ⟨o', hresult, failsCancelled hok hrun hafter⟩
  · -- Whether the outermost operation had a frame decides which of the two it was.
    cases hrun : op.codeRun? true s (Script.host true s (s.limits.maxCallDepth.toNat + 1)) m with
    | some run =>
      have hfails : tree.FailsCancelled o := failsCancelled hdone hrun hafter
      have herror : o.result.error? = some (.fault .cancelled) :=
        congrArg Verdict.error? hfails.verdict
      exact .inl ⟨hfails, Operation.unwinds hstore hp hm.sound hdone hrun herror⟩
    | none =>
      -- Without a frame nobody below can have asked, so the stop was asked for before.
      have hbefore : m.cancelled = true := by
        rcases hstop with hbefore | ⟨a, ha⟩
        · exact hbefore
        · have hran : ∃ run, op.codeRun? true s
              (Script.host true s (s.limits.maxCallDepth.toNat + 1)) m = some run :=
            run_of_event ha
          obtain ⟨run, hsome⟩ := hran
          rw [hrun] at hsome
          cases hsome
      obtain ⟨m₂, rfl, ⟨result, hopen, rfl, -⟩ | ⟨_, _, _, run, _, -, hsome, -, -⟩⟩ :=
        Operation.host_ok hdone
      · obtain ⟨htouches, hended⟩ := Operation.opening_finished_looks hp hopen
        have hlooks : Ledger.Looks s.store m.view.ledger m₂.view.ledger :=
          htouches.ledger.looks hm.sound
        refine .inr ⟨hbefore, hm.sound.readsSame hlooks.sound hlooks.report, ?_⟩
        -- What ends at the entry was refused for its value, or had nothing to do.
        rcases hended with hrefusal | ⟨rfl, hcall⟩
        · obtain ⟨detail, rfl⟩ :=
            Operation.refusal?_outermost (m := op.entered m) hdepth hrefusal
          exact .inl ⟨detail, rfl⟩
        · exact .inr ⟨rfl, hcall⟩
      · rw [hrun] at hsome
        cases hsome

end

/-- A world in which all code writes a slot, calls itself, asks for a stop and would go on. -/
def Setting.stopping : Setting where
  store := .uniform (Script.encode [.store 3 9, .recurse, .cancel, .store 4 9])
  chain := default

/-- Whether an event asks for a stop. -/
def Event.asks : Event → Bool
  | .starts _ => false
  | .executes i _ => i = .cancel

theorem Event.exists_of_any_asks {events : List Event} (h : events.any asks = true) :
    ∃ a, .executes .cancel a ∈ events := by
  obtain ⟨event, hmem, hasks⟩ := List.any_eq_true.mp h
  cases event with
  | starts => cases hasks
  | executes i a =>
    obtain rfl : i = .cancel := of_decide_eq_true hasks
    exact ⟨a, hmem⟩

/-- A call that asks for a stop one level down, where another frame is still open. -/
theorem CallTree.cancellation_is_total_sample :
    let op := Operation.call 1 2 (Script.recursionTarget 1) 100 0
    let tree := Script.callTree true .stopping op {}
    let done := (Script.dispatcher true .stopping).perform op {}
    ((tree.events .stopping).length = 7 ∧ (tree.events .stopping).any Event.asks = true) ∧
      ∃ o, done.1 = .ok o ∧ tree.Recounts true .stopping op {} ∧
        Ceases (tree.events .stopping) false done.2.cancelled ∧ done.2.cancelled = true ∧
        (∀ t : CallTree, t.PartOf tree → ∀ a, .executes .cancel a ∈ t.events .stopping →
          ∃ o, t.call.result = .ok o ∧ t.FailsCancelled o) ∧
        (tree.FailsCancelled o ∧
            op.Unwinds Setting.stopping.store {} done.2.view.ledger ∨
          false = true ∧ Ledger.ReadsSame Setting.stopping.store {} done.2.view.ledger ∧
            ((∃ detail, o = { result := .refused op.gas (.insufficientBalance detail) }) ∨
              o = { result := .noOp op.gas } ∧
                ∃ caller target input gas, op = .call caller target input gas 0)) := by
  intro op tree done
  -- Seven events in all, one of which asks for the stop.
  have hasks : (tree.events .stopping).any Event.asks = true := by decide +kernel
  obtain ⟨o, ho⟩ : ∃ o, done.1 = .ok o := Attempt.eq_ok_of_isSome (by decide +kernel)
  exact ⟨⟨by decide +kernel, hasks⟩, o, ho,
    @cancellation_is_total .stopping {} done.2 o (Store.uniform_reliable _).blank
      TransferPolicy.balance_honest op rfl .new (Attempt.apply_eq ho)
      (.inr (Event.exists_of_any_asks hasks))⟩

end MessageCall
