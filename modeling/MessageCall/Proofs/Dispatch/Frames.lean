import MessageCall.Proofs.Dispatch.Recording

/-!
# The frame that an operation runs

An operation that gets through its opening has a frame, and hands it to the interpreter unless a
stop has been asked for or the nesting cannot be counted any further (`Operation.entry?`). The frame
is as deep as the operation was issued, and it acts on the account that the operation's record
names. While its code runs nothing of it changes but the gas that is noted as used
(`CallFrame.Continues`), so what is known of the frame at the start is known at every instruction.

An operation depends on how code is run through this one frame (`Operation.perform_congr`), and the
run of the code depends on the host through the operations that it asks for
(`Script.interpreter_congr`). Two hosts that agree about those are the same to the operation.

What a call tree says of frames and of instructions is about the dispatcher itself:
`CallTree.Recounts` ties it to the operations that were carried out and to the runs of the
interpreter, for every operation in the tree.
-/

namespace MessageCall

/-! ### A frame goes on -/

namespace CallFrame

/-- The frame of a run that has **gone on**: nothing is different but the gas noted as used. -/
def Continues (frame frame' : CallFrame) : Prop :=
  frame' = { frame with gasUsed := frame'.gasUsed }

variable {frame frame' : CallFrame}

instance : IsPreorder CallFrame Continues where
  refl _ := rfl
  trans first second third h h' := by
    calc
      third = { second with gasUsed := third.gasUsed } := h'
      _ = { first with gasUsed := third.gasUsed } := by rw [h]

theorem Continues.depth (h : frame.Continues frame') : frame'.depth = frame.depth := by rw [h]

theorem Continues.account (h : frame.Continues frame') : frame'.account = frame.account := by rw [h]

theorem Continues.gasLimit (h : frame.Continues frame') : frame'.gasLimit = frame.gasLimit := by
  rw [h]

theorem continues_of_charge? {gas : Gas} (h : frame.charge? gas = some frame') :
    frame.Continues frame' := by
  unfold charge? at h
  split at h
  · cases h
    rfl
  · cases h

end CallFrame

namespace Script

variable {linked : Bool} {s : Setting} {host host' : Host} {input : Bytes} {a a' : Active}

/-- The frames of running code at two moments. -/
def SameRun (a a' : Active) : Prop := a.frame.Continues a'.frame

instance : IsPreorder Active SameRun where
  refl a := (Std.Refl.refl a.frame : a.frame.Continues a.frame)
  trans _ _ _ h h' := (IsTrans.trans _ _ _ h h' : CallFrame.Continues _ _)

theorem step_continues (i : Instruction) (a : Active) :
    SameRun a (step linked s host input i a).2 := by
  cases hrequest : i.request? input a with
  | none =>
    rcases hstep : step linked s host input i a with ⟨e | x, a'⟩
    · have hquiet : Quiet Ledger.Unrelated i a _ a' := step_quiet hrequest hstep
      show a.frame.Continues a'.frame
      rw [hquiet.unpaid e rfl]
      exact Std.Refl.refl a.frame
    · have hquiet : Quiet Ledger.Unrelated i a _ a' := step_quiet hrequest hstep
      exact CallFrame.continues_of_charge? (hquiet.paid x rfl)
  | some op =>
    -- The frame pays for the operation, and gets back what the operation has not used.
    rw [step_request hrequest]
    rcases host op a.machine with ⟨_ | _, _⟩ <;> rfl

/-- **A frame goes on as it is** through all that its code does. -/
theorem Trail.continues {steps : List (Instruction × Active)} {r : Except CallError Bytes}
    (h : Trail linked s host input a steps r a') :
    a.frame.Continues a'.frame ∧ ∀ x ∈ steps, a.frame.Continues x.2.frame :=
  h.keeps (P := SameRun) step_continues

/-! ### What a run depends on -/

/-- An instruction depends on the host through the operation that it asks for. -/
theorem step_congr {i : Instruction}
    (h : ∀ op, i.request? input a = some op → host op a.machine = host' op a.machine) :
    step linked s host input i a = step linked s host' input i a := by
  cases hrequest : i.request? input a with
  | some op => rw [step_request hrequest, step_request hrequest, h op hrequest]
  | none =>
    -- What asks for no operation does not know the host.
    cases i with
    | recurse => rw [step_recurse hrequest, step_recurse hrequest]
    | call | callCode | delegateCall | create => cases hrequest
    | _ => rfl

theorem runAll_congr {fault : Option ExecutionFault} {is : List Instruction}
    (h : ∀ x ∈ requests input (executed linked s host input is a),
      host x.1 x.2 = host' x.1 x.2) :
    runAll linked s host input fault is a = runAll linked s host' input fault is a := by
  induction is generalizing a with
  | nil => rfl
  | cons i rest ih =>
    by_cases hcancelled : a.machine.cancelled = true
    · have hstop := checkStop_of_cancelled hcancelled
      unfold runAll
      rw [Attempt.bind_of_error hstop, Attempt.bind_of_error hstop]
    · have hgo := checkStop_of_not hcancelled
      unfold executed at h
      rw [if_neg hcancelled, requests_cons] at h
      -- The request of this instruction is on the list, so both hosts answer it alike.
      have hfirst : ∀ op, i.request? input a = some op →
          host op a.machine = host' op a.machine := by
        intro op hrequest
        refine h (op, a.machine) (List.mem_append_left _ ?_)
        rw [requests_of_some hrequest]
        exact List.mem_cons_self
      -- With the request answered alike, the step is the same and so is what it leaves.
      unfold runAll
      rw [Attempt.bind_of_ok hgo, Attempt.bind_of_ok hgo, Attempt.bind_apply, Attempt.bind_apply,
        ← step_congr hfirst]
      rcases hstep : step linked s host input i a with ⟨e | output, a₁⟩
      · rfl
      · cases output with
        | some output => rfl
        | none =>
          -- The run goes on with the same instructions from the same state.
          refine ih fun x hx => h x (List.mem_append_right _ ?_)
          rw [hstep]
          exact hx

/-- **A run depends on the host** through the operations that its code asks for. -/
theorem interpreter_congr
    (h : ∀ x ∈ requests input (executed linked s host input (decode a.frame.code).1 a),
      host x.1 x.2 = host' x.1 x.2) :
    interpreter linked s host input a = interpreter linked s host' input a :=
  runAll_congr h

end Script

/-! ### The frame of an operation -/

/-- The account on whose storage the code of a recorded operation acts. -/
def TraceRecord.executing (record : TraceRecord) : Address :=
  match record.callType with
  | .call | .create => record.target
  | .callCode | .delegateCall => record.sender

namespace Operation

variable {linked : Bool} {s : Setting} {op : Operation} {run run' : Runner} {m m' : Machine}
  {frame : CallFrame} {snapshot : Ledger.Snapshot} {a : Active}

/-- The frame that is prepared is as deep as the nesting is then. It acts on the account of the
record, which for a creation is the new one. -/
theorem prepare_frame (h : op.prepare s m = (.ok (.started frame snapshot), m')) :
    frame.depth = m'.depth ∧ frame.account = TraceRecord.executing
      { op.record with target := (op.newAddress frame.account).getD op.record.target } := by
  cases prepare_cases h with
  | call _ _ hframe | callCode hframe | delegateCall hframe =>
    obtain ⟨_, _, rfl⟩ := Exec.frameFor_result hframe
    exact ⟨rfl, rfl⟩
  | create => exact ⟨rfl, rfl⟩

/-- **The frame of an operation** is as deep as the operation was issued, and acts on the account
that the operation's record names. -/
theorem opening_frame (h : op.opening s (op.entered m) = (.ok (.started frame snapshot), m')) :
    frame.depth = m.depth ∧ m'.depth = m.depth ∧ frame.account = (op.openRecord s m).executing := by
  have hmoves : (op.entered m).Moves Ledger.Unrelated m' :=
    (opening_meets s.env.transfers.within_unrelated op).of_eq h
  have hdepth : m'.depth = m.depth := hmoves.depth
  unfold openRecord
  rw [derived?_of_started h]
  obtain ⟨_, -, hprepare⟩ := opening_prepared h
  obtain ⟨hframe, haccount⟩ := prepare_frame hprepare
  exact ⟨hframe.trans hdepth, hdepth, haccount⟩

/-- What an operation **hands to the interpreter**: its frame, one level deeper than it was issued.
There is nothing if the operation has ended before, if a stop has been asked for, or if the level
cannot be counted. -/
def entry? (s : Setting) (op : Operation) (m : Machine) : Option Active :=
  match op.opening s (op.entered m) with
  | (.ok (.started frame _), m₁) =>
    if m₁.cancelled ∨ ¬ m₁.depth + 1 < UInt64.size then none
    else some (Active.atDepth (m₁.depth + 1) ⟨frame, m₁⟩)
  | _ => none

theorem entry?_of_started (h : op.opening s (op.entered m) = (.ok (.started frame snapshot), m')) :
    op.entry? s m = if m'.cancelled ∨ ¬ m'.depth + 1 < UInt64.size then none
      else some (Active.atDepth (m'.depth + 1) ⟨frame, m'⟩) := by
  unfold entry?
  rw [h]

/-- Nothing is handed over where no frame was prepared. -/
theorem entry?_of_unstarted {r : Except CallError Opening}
    (h : op.opening s (op.entered m) = (r, m'))
    (hr : ∀ frame snapshot, r ≠ .ok (.started frame snapshot)) : op.entry? s m = none := by
  unfold entry?
  rw [h]
  rcases r with _ | _ | ⟨frame, snapshot⟩
  · rfl
  · rfl
  · exact absurd rfl (hr frame snapshot)

theorem entry?_eq_some (h : op.entry? s m = some a) :
    ∃ frame snapshot m₁, op.opening s (op.entered m) = (.ok (.started frame snapshot), m₁) ∧
      ¬ m₁.cancelled = true ∧ m₁.depth + 1 < UInt64.size ∧
      a = Active.atDepth (m₁.depth + 1) ⟨frame, m₁⟩ := by
  rcases hopen : op.opening s (op.entered m) with ⟨_ | _ | ⟨frame, snapshot⟩, m₁⟩
  · rw [entry?_of_unstarted hopen fun _ _ heq => by cases heq] at h
    cases h
  · rw [entry?_of_unstarted hopen fun _ _ heq => by cases heq] at h
    cases h
  · rw [entry?_of_started hopen] at h
    split at h
    · cases h
    · next hstarts =>
      cases h
      rw [not_or, not_not] at hstarts
      exact ⟨frame, snapshot, m₁, rfl, hstarts.1, hstarts.2, rfl⟩

/-- What the interpreter gets is as deep as the operation was issued, and the host is one level
deeper. -/
theorem entry?_depth (h : op.entry? s m = some a) :
    a.frame.depth = m.depth ∧ a.machine.depth = m.depth + 1 := by
  obtain ⟨frame, snapshot, m₁, hopen, -, -, rfl⟩ := entry?_eq_some h
  obtain ⟨hframe, hdepth, -⟩ := opening_frame hopen
  exact ⟨hframe, congrArg (· + 1) hdepth⟩

/-- **The run of what was handed over.** -/
theorem codeRun?_of_entry (linked : Bool) (host : Host) (h : op.entry? s m = some a) :
    op.codeRun? linked s host m = some {
      steps := Script.executed linked s host op.codeInput (Script.decode a.frame.code).1 a
      ended := (Script.interpreter linked s host op.codeInput a).1 } := by
  obtain ⟨frame, snapshot, m₁, hopen, hcancelled, hdepth, rfl⟩ := entry?_eq_some h
  have hstarts : ¬ (m₁.cancelled = true ∨ ¬ m₁.depth + 1 < UInt64.size) :=
    not_or.mpr ⟨hcancelled, not_not.mpr hdepth⟩
  rw [codeRun?_of_started hopen, Script.steps, if_neg hstarts,
    Running.nested_of_run hcancelled hdepth]
  rfl

/-- What is asked for by what was handed over. -/
theorem children_of_entry (linked : Bool) (levels : Nat) (h : op.entry? s m = some a) :
    (op.tree linked s (levels + 1) m).children =
      (Script.requests op.codeInput (Script.executed linked s (Script.host linked s levels)
        op.codeInput (Script.decode a.frame.code).1 a)).map fun x =>
          x.1.tree linked s levels x.2 :=
  children_of_run (codeRun?_of_entry linked _ h)

/-- A call succeeds where what was handed over runs to its end. -/
theorem host_of_entry {levels : Nat} {a' : Active} {output : Bytes} (hop : op.callType ≠ .create)
    (h : op.entry? s m = some a)
    (hrun : Script.interpreter linked s (Script.host linked s levels) op.codeInput a =
      (.ok output, a')) :
    ∃ tracer, Script.host linked s (levels + 1) op m =
      (.ok { result := .success a'.frame output },
        { a'.machine with depth := m.depth, tracer }) := by
  -- An entry is a started frame that was neither cancelled nor too deep.
  obtain ⟨frame, snapshot, m₁, hopen, hcancelled, hdepth, rfl⟩ := entry?_eq_some h
  obtain ⟨-, hlevel, -⟩ := opening_frame hopen
  have hnested : Running.nested (Script.interpreter linked s (Script.host linked s levels))
      op.codeInput ⟨frame, m₁⟩ = (.ok output, a'.atDepth m.depth) := by
    rw [Running.nested_of_run hcancelled hdepth, hrun, hlevel]
  -- The body of the operation runs the same code and keeps what it leaves.
  have hbody : op.body s (Script.interpreter linked s (Script.host linked s levels))
      (op.entered m) = (.ok { result := .success a'.frame output },
        { a'.machine with depth := m.depth }) := by
    unfold body
    rw [Attempt.bind_of_ok hopen]
    show op.closing s _ frame snapshot m₁ = _
    rw [closing_call hop, Attempt.bind_apply, Exec.execute, hnested]
    rfl
  rw [Script.host_succ, Exec.traced_apply (body_meets_host linked s levels op) hbody]
  exact ⟨_, rfl⟩

/-- Nothing is executed where nothing was handed over. -/
theorem steps_of_no_entry {host : Host} {run : CodeRun} (h : op.entry? s m = none)
    (hrun : op.codeRun? linked s host m = some run) : run.steps = [] := by
  obtain ⟨frame, snapshot, m₁, -, hopen, hsteps, -⟩ := codeRun?_eq_some hrun
  rw [entry?_of_started hopen] at h
  split at h
  · next hstops =>
    rw [hsteps]
    exact if_pos hstops
  · cases h

/-- So whatever code has executed it has executed after its frame was handed over. -/
theorem entry_of_step {host : Host} {run : CodeRun} {x : Instruction × Active}
    (hrun : op.codeRun? linked s host m = some run) (hx : x ∈ run.steps) :
    ∃ a, op.entry? s m = some a := by
  cases hentry : op.entry? s m with
  | some a => exact ⟨a, rfl⟩
  | none =>
    rw [steps_of_no_entry hentry hrun] at hx
    exact absurd hx List.not_mem_nil

/-! ### What an operation depends on -/

/-- The last part of an operation depends on how code is run through its frame. -/
theorem closing_congr
    (h : Running.nested run op.codeInput ⟨frame, m⟩ = Running.nested run' op.codeInput ⟨frame, m⟩) :
    op.closing s run frame snapshot m = op.closing s run' frame snapshot m := by
  -- Only a creation looks at the result of its code before closing.
  by_cases hop : op.callType = .create
  · cases op with
    | create =>
      have hinstall : Running.install s run frame.account ⟨frame, m⟩ =
          Running.install s run' frame.account ⟨frame, m⟩ := by
        unfold Running.install
        rw [Attempt.bind_apply, Attempt.bind_apply, Attempt.outcome_apply, Attempt.outcome_apply]
        rw [show Running.nested run [] ⟨frame, m⟩ = Running.nested run' [] ⟨frame, m⟩ from h]
      rw [closing_create, closing_create, hinstall]
    | _ => cases hop
  · have hexecute : Exec.execute run frame op.codeInput snapshot m =
        Exec.execute run' frame op.codeInput snapshot m := by
      unfold Exec.execute
      rw [h]
    rw [closing_call hop, closing_call hop, Attempt.bind_apply, Attempt.bind_apply, hexecute]

/-- **An operation depends on how code is run** through what it hands to the interpreter. -/
theorem perform_congr
    (h : ∀ a, op.entry? s m = some a → run op.codeInput a = run' op.codeInput a) :
    op.perform s run m = op.perform s run' m := by
  -- Up to the frame nothing depends on the runner, so the bodies differ in the run alone.
  have hbody : op.body s run (op.entered m) = op.body s run' (op.entered m) := by
    unfold body
    rcases hopen : op.opening s (op.entered m) with ⟨_ | _ | ⟨frame, snapshot⟩, m₁⟩
    · rw [Attempt.bind_of_error hopen, Attempt.bind_of_error hopen]
    · rw [Attempt.bind_of_ok hopen, Attempt.bind_of_ok hopen]
    · rw [Attempt.bind_of_ok hopen, Attempt.bind_of_ok hopen]
      refine closing_congr ?_
      -- The two checks before the run are the same on both sides.
      by_cases hcancelled : m₁.cancelled = true
      · rw [Running.nested_of_cancelled hcancelled, Running.nested_of_cancelled hcancelled]
      · by_cases hdepth : m₁.depth + 1 < UInt64.size
        · have hstarts : ¬ (m₁.cancelled = true ∨ ¬ m₁.depth + 1 < UInt64.size) :=
            not_or.mpr ⟨hcancelled, not_not.mpr hdepth⟩
          have hrun := h _ ((entry?_of_started hopen).trans (if_neg hstarts))
          rw [Running.nested_of_run hcancelled hdepth, Running.nested_of_run hcancelled hdepth,
            hrun]
        · rw [Running.nested_of_depth hcancelled hdepth, Running.nested_of_depth hcancelled hdepth]
  unfold perform Exec.traced
  rw [show op.body s run { m with tracer := m.tracer.enter op.record (m.depth = 0) } =
    op.body s run' { m with tracer := m.tracer.enter op.record (m.depth = 0) } from hbody]

end Operation

/-! ### The tree and what was run -/

/-- The operation at the root of a tree **was carried out as the tree says**, with its code running
over the host: what `Operation.entry?` speaks of is what the interpreter was given, and the
instructions in the tree are those that it has executed from there. -/
structure CallTree.CarriedOut (linked : Bool) (s : Setting) (host : Host) (t : CallTree) : Prop
    extends t.Dispatched linked s host where
  /-- The opening has prepared a frame, and its nested run is a run of what was handed over. -/
  handed : ∀ a, t.call.op.entry? s t.call.before = some a → ∃ frame snapshot m,
    t.call.op.opening s (t.call.op.entered t.call.before) = (.ok (.started frame snapshot), m) ∧
      ∀ run : Runner, Running.nested run t.call.op.codeInput ⟨frame, m⟩ =
        ((run t.call.op.codeInput a).1, (run t.call.op.codeInput a).2.atDepth m.depth)
  /-- Nothing else was handed over, so the operation depends on how code is run through this. -/
  entry : ∀ run run' : Runner, (∀ a, t.call.op.entry? s t.call.before = some a →
      run t.call.op.codeInput a = run' t.call.op.codeInput a) →
    t.call.op.perform s run t.call.before = t.call.op.perform s run' t.call.before
  /-- The tree holds the walk of that run through its instructions, and how it has ended. -/
  walk : ∀ a, t.call.op.entry? s t.call.before = some a → ∃ run a', t.call.run = some run ∧
    Script.interpreter linked s host t.call.op.codeInput a = (run.ended, a') ∧
      Script.Trail linked s host t.call.op.codeInput a run.steps run.ended a'
  /-- Where nothing was handed over, nothing was executed. -/
  idle : t.call.op.entry? s t.call.before = none → ∀ run, t.call.run = some run → run.steps = []

namespace CallTree

theorem carriedOut_succ (linked : Bool) (s : Setting) (levels : Nat) (op : Operation)
    (m : Machine) :
    (op.tree linked s (levels + 1) m).CarriedOut linked s (Script.host linked s levels) where
  toDispatched := dispatched_succ linked s levels op m
  handed a ha := by
    obtain ⟨frame, snapshot, m₁, hopen, hcancelled, hdepth, rfl⟩ := Operation.entry?_eq_some ha
    exact ⟨frame, snapshot, m₁, hopen, fun run => Running.nested_of_run hcancelled hdepth⟩
  entry _ _ hsame := Operation.perform_congr hsame
  walk a ha := ⟨_, _, Operation.codeRun?_of_entry linked _ ha, rfl, Script.interpreter_trail a⟩
  idle hnone _ hrun := Operation.steps_of_no_entry hnone hrun

/-- A tree **recounts** what the dispatcher has done for an operation. -/
structure Recounts (linked : Bool) (s : Setting) (op : Operation) (m : Machine) (tree : CallTree) :
    Prop where
  /-- The root has the dispatcher's answer, and the machine that it has left. -/
  done : (Script.dispatcher linked s).perform op m = (tree.call.result, tree.call.after)
  /-- Every operation in it was carried out as it says. -/
  parts : ∀ t : CallTree, t.PartOf tree →
    ∃ levels, t.CarriedOut linked s (Script.host linked s levels)

/-- **The call tree recounts** the operation, wherever the nesting starts. -/
theorem callTree_recounts (linked : Bool) (s : Setting) (op : Operation) (m : Machine) :
    (Script.callTree linked s op m).Recounts linked s op m where
  done := Operation.callTree_done linked s op m
  parts t ht := by
    have hroom : s.HasRoom (s.limits.maxCallDepth.toNat + 2) m.depth := .of_le (Nat.le_refl _) _
    obtain ⟨n, op', m', rfl, -⟩ := part_hasRoom hroom ht
    exact ⟨n, carriedOut_succ linked s n op' m'⟩

end CallTree

end MessageCall
