import MessageCall.Proofs.Dispatch.CallTree

/-!
# What a tracer of all operations records

A tracer of all operations records exactly the call tree. While an operation is open, its node is
the innermost open one and gets the operations below it hung under it one after the other, each with
what has been hung under it; and however the operation ends, its node is closed with what has become
of it (`Script.host_records`). An error that passes through several levels closes the node of each
level on its way.

`CallTree.recorded` is the trace of a call tree, written down without a tracer: every operation has
one node, with what was asked for and what came of it. `Operation.traced_in_full` says that after
any sequence of outermost operations the tracer holds this trace of the last one and nothing else.
-/

namespace MessageCall

/-! ### The trace of a call tree -/

namespace CallNode

/-- The gas that an operation is said to have used, which is none where it was aborted. -/
def gasUsed (call : CallNode) : Gas :=
  match call.result with
  | .ok o => o.result.gasUsed
  | .error _ => 0

/-- The output of an operation, which is empty where it was aborted. -/
def output (call : CallNode) : Bytes :=
  match call.result with
  | .ok o => o.result.output
  | .error _ => []

/-- The message of the error that an operation has ended with or was aborted with. -/
def message? (call : CallNode) : Option String :=
  match call.result with
  | .ok o => o.result.error?.map CallError.message
  | .error e => some e.message

/-- The **record of an operation**: what was asked for and what came of it. The target of a creation
is the address that it has derived, or zero if it ended before that. -/
def traceRecord (s : Setting) (call : CallNode) : TraceRecord :=
  let gasUsed := call.gasUsed
  let output := call.output
  let error := call.message?
  match call.op with
  | .call caller target input gas value =>
    { callType := .call, sender := caller, target, value, gas, gasUsed, input, output, error }
  | .callCode caller target input gas value =>
    { callType := .callCode, sender := caller, target, value, gas, gasUsed, input, output, error }
  | .delegateCall parent target input gas =>
    { callType := .delegateCall, sender := parent.account, target, value := parent.value, gas,
      gasUsed, input, output, error }
  | .create caller initCode gas value =>
    { callType := .create, sender := caller
      target := (call.op.derived? s (call.op.entered call.before)).getD 0
      value, gas, gasUsed, input := initCode, output, error }

end CallNode

mutual

/-- The trace of a call tree: one node for each operation, under the operation that has asked for
it, in the order in which they were asked for. -/
def CallTree.recorded (s : Setting) : CallTree → Trace
  | .node call children => .node (call.traceRecord s) (CallTree.recordedAll s children)

/-- The traces of call trees. -/
def CallTree.recordedAll (s : Setting) : List CallTree → List Trace
  | [] => []
  | t :: ts => t.recorded s :: CallTree.recordedAll s ts

end

theorem CallTree.recordedAll_eq_map (s : Setting) (ts : List CallTree) :
    recordedAll s ts = ts.map (recorded s) := by
  induction ts with
  | nil => rfl
  | cons t ts ih => rw [recordedAll, ih, List.map_cons]

theorem CallTree.recorded_eq (s : Setting) (t : CallTree) :
    t.recorded s = .node (t.call.traceRecord s) (t.children.map (recorded s)) := by
  cases t with
  | node call children => rw [recorded, recordedAll_eq_map, CallTree.call, CallTree.children]

/-! ### Runs -/

/-- An operation that is asked for below the outermost level is recorded as `trace` says. -/
def Host.RecordsAs (host : Host) (trace : Operation → Machine → Trace) (op : Operation)
    (m : Machine) : Prop :=
  m.tracer.Full → m.tracer.Records (host op m).2.tracer false (trace op m)

namespace Script

variable {linked : Bool} {s : Setting} {host : Host} {input : Bytes} {a a' : Active}
  {trace : Operation → Machine → Trace} {record : TraceRecord} {calls rest : List Trace}

/-- An instruction records what it asks for, whether the host carries it out or is aborted. -/
theorem step_records {i : Instruction} {r : Except CallError (Option Bytes)}
    (h : step linked s host input i a = (r, a'))
    (hhost : ∀ x ∈ requests input [(i, a)], host.RecordsAs trace x.1 x.2)
    (hfull : a.machine.tracer.Full)
    (hframes : a.machine.tracer.frames = .node record calls :: rest) :
    a'.machine.tracer = a.machine.tracer.opened record
      (calls ++ (requests input [(i, a)]).map fun x => trace x.1 x.2) rest := by
  cases hrequest : i.request? input a with
  | none =>
    -- Only operations are recorded.
    have hquiet : Quiet Ledger.Unrelated i a r a' := step_quiet hrequest h
    rw [requests_of_none hrequest, List.map_nil, List.append_nil, hquiet.tracer]
    exact (Tracer.opened_self hframes).symm
  | some op =>
    rw [requests_of_some hrequest] at hhost ⊢
    have hrecords : a.machine.tracer.Records _ false _ := hhost _ List.mem_cons_self hfull
    rw [step_request hrequest] at h
    -- The host closes the node of the operation, and so hangs it under the innermost open one.
    have htracer : a'.machine.tracer = (host op a.machine).2.tracer := by
      rw [← resumed_tracer op a, h]
    rw [htracer, hrecords, hframes]
    rfl

/-- **A run is recorded** under the innermost open node, one operation after the other. -/
theorem Trail.records {steps : List (Instruction × Active)} {r : Except CallError Bytes}
    (h : Trail linked s host input a steps r a')
    (hhost : ∀ x ∈ requests input steps, host.RecordsAs trace x.1 x.2)
    (hfull : a.machine.tracer.Full)
    (hframes : a.machine.tracer.frames = .node record calls :: rest) :
    a'.machine.tracer = a.machine.tracer.opened record
      (calls ++ (requests input steps).map fun x => trace x.1 x.2) rest := by
  -- By the steps: each appends the records of what it asked for.
  induction h generalizing calls with
  | halted =>
    show _ = Tracer.opened _ record (calls ++ []) rest
    rw [List.append_nil, Tracer.opened_self hframes]
  | failed h => exact step_records h hhost hfull hframes
  | ended h => exact step_records h hhost hfull hframes
  | @more a a₁ a' i steps r h _ ih =>
    rw [requests_cons] at hhost ⊢
    -- After the first step the node is still open, with more in it.
    have hfirst := step_records h (fun x hx => hhost x (List.mem_append_left _ hx)) hfull hframes
    have hfull₁ : a₁.machine.tracer.Full := by
      rw [hfirst]
      exact hfull
    have hrest := ih (fun x hx => hhost x (List.mem_append_right _ hx)) hfull₁ (by rw [hfirst]; rfl)
    rw [hrest, hfirst, List.map_append, ← List.append_assoc]
    rfl

end Script

/-! ### Operations -/

/-- The levels that are left are enough for all the nesting that the limit allows. -/
structure Setting.HasRoom (s : Setting) (levels depth : Nat) : Prop where
  levels_ne_zero : levels ≠ 0
  levels : s.limits.maxCallDepth.toNat + 2 ≤ levels + depth

namespace Setting.HasRoom

variable {s : Setting} {levels depth : Nat}

/-- As many levels as the limit asks for are enough wherever the nesting starts. -/
theorem of_le (h : s.limits.maxCallDepth.toNat + 2 ≤ levels) (depth : Nat) :
    s.HasRoom levels depth where
  levels_ne_zero := by omega
  levels := h.trans (Nat.le_add_right levels depth)

theorem outermost (s : Setting) : s.HasRoom (s.limits.maxCallDepth.toNat + 2) 0 :=
  of_le (Nat.le_refl _) 0

/-- Code that runs is within the limit, so there is room for what it asks for. -/
theorem deeper (h : s.HasRoom (levels + 1) depth) (hdepth : depth ≤ s.limits.maxCallDepth.toNat) :
    s.HasRoom levels (depth + 1) := by
  have hlevels := h.levels
  exact ⟨by omega, by omega⟩

end Setting.HasRoom

namespace Operation

variable {linked : Bool} {s : Setting} {op : Operation} {m m₁ m₂ m' : Machine} {levels : Nat}
  {result : Except CallError Outcome}

/-- The record of an operation that has not ended yet. -/
def openRecord (s : Setting) (op : Operation) (m : Machine) : TraceRecord :=
  { op.record with target := (op.derived? s (op.entered m)).getD op.record.target }

theorem traceRecord_eq (linked : Bool) (s : Setting) (levels : Nat) (op : Operation) (m : Machine) :
    (op.tree linked s levels m).call.traceRecord s = (op.openRecord s m).ended
      ((op.tree linked s levels m).call.result.map Outcome.result) := by
  unfold CallNode.traceRecord CallNode.gasUsed CallNode.output CallNode.message? openRecord
  rw [tree_op, tree_before]
  cases op <;> cases (Operation.tree linked s levels _ m).call.result <;> rfl

/-- An operation with a result reports the address that it has derived. -/
theorem derived?_eq_address {o : Outcome}
    (h : Script.host linked s (levels + 1) op m = (.ok o, m')) :
    op.derived? s (op.entered m) = o.address := by
  obtain ⟨m₂, -, ⟨result, hopen, rfl, -⟩ | ⟨frame, snapshot, m₁, run, a, hopen, -, -, hends⟩⟩ :=
    host_ok h
  · exact derived?_of_finished hopen
  · rw [hends.address_eq]
    exact derived?_of_started hopen

/-- The tracer of an operation that is recorded and has been opened, however the opening has
ended. -/
theorem opening_records {r : Except CallError Opening}
    (h : op.opening s (op.entered m) = (r, m'))
    (hrecords : m.tracer.records (m.depth = 0) = true) :
    m'.tracer = m.tracer.opened (op.openRecord s m) []
      (if decide (m.depth = 0) then [] else m.tracer.frames) := by
  have hentered : (op.entered m).tracer = _ := Tracer.enter_recorded hrecords op.record
  rw [opening_tracer h, hentered]
  unfold openRecord
  cases op.derived? s (op.entered m) with
  | none => rfl
  | some address => exact Tracer.setTarget_recorded hrecords address

/-- What code asks for is below the outermost level, and there is room for it. -/
theorem request_hasRoom (hroom : s.HasRoom (levels + 1) m.depth) {run : CodeRun} {op' : Operation}
    (hrun : op.codeRun? linked s (Script.host linked s levels) m = some run)
    (hasked : (op', m') ∈ Script.requests op.codeInput run.steps) :
    m'.depth ≠ 0 ∧ s.HasRoom levels m'.depth := by
  have hdepth : m'.depth = m.depth + 1 :=
    (request_moves s.env.transfers.within_unrelated hrun hasked).depth
  rw [hdepth]
  exact ⟨Nat.succ_ne_zero m.depth, hroom.deeper (depth_le_of_run hrun)⟩

/-- What has been recorded of an operation when its node is to be closed. -/
theorem Course.tracer (h : op.Course linked s levels m result m₂) (hfull : m.tracer.Full)
    (hasked : ∀ run, op.codeRun? linked s (Script.host linked s levels) m = some run →
      ∀ x ∈ Script.requests op.codeInput run.steps, (Script.host linked s levels).RecordsAs
        (fun op m => (op.tree linked s levels m).recorded s) x.1 x.2) :
    m₂.tracer = m.tracer.opened (op.openRecord s m)
      ((op.tree linked s (levels + 1) m).children.map (CallTree.recorded s))
      (if decide (m.depth = 0) then [] else m.tracer.frames) := by
  cases h with
  | unopened hopen hrun =>
    rw [children_of_finished hrun]
    exact opening_records hopen (hfull.records _)
  | unstarted hopen hrun =>
    rw [children_of_finished hrun]
    exact opening_records hopen (hfull.records _)
  | @ran frame snapshot m₁ _ run a _ hopen hrun htrail hends haborts =>
    -- What the opening has told the tracer stands in the node.
    have htracer := opening_records hopen (hfull.records _)
    have hfull₁ : m₁.tracer.Full := by
      rw [htracer]
      exact hfull
    -- The node of the operation is the innermost open one while the code runs.
    have hrecorded := htrail.records (hasked run hrun) hfull₁ (congrArg Tracer.frames htracer)
    -- Closing does not touch the tracer.
    have hrest : m₂.tracer = a.machine.tracer := by
      rw [rest_eq_of_ran hends haborts]
      rfl
    rw [hrest, hrecorded, children_of_run hrun, List.map_map]
    show m₁.tracer.opened _ _ _ = _
    rw [htracer]
    rfl

end Operation

/-- **Every host with enough levels records the call tree**, whatever comes of the operation. -/
theorem Script.host_records {linked : Bool} {s : Setting} {levels : Nat} {op : Operation}
    {m m' : Machine} {result : Except CallError Outcome}
    (h : host linked s levels op m = (result, m')) (hroom : s.HasRoom levels m.depth)
    (hfull : m.tracer.Full) :
    m.tracer.Records m'.tracer (m.depth = 0) ((op.tree linked s levels m).recorded s) := by
  -- By the levels, since what the code asks for has one level less.
  induction levels generalizing op m m' result with
  | zero => exact absurd rfl hroom.levels_ne_zero
  | succ levels ih =>
    have hresult : (op.tree linked s (levels + 1) m).call.result = result := by
      rw [Operation.tree_done] at h
      exact congrArg Prod.fst h
    obtain ⟨m₂, hcourse, rfl⟩ := Operation.host_course h
    have htracer := hcourse.tracer hfull fun run hrun x hx hfull' => by
      -- What the code asks for is not outermost.
      obtain ⟨hdepth, hroom'⟩ := Operation.request_hasRoom hroom hrun hx
      have hrecords := @ih x.1 x.2 _ _ rfl hroom' hfull'
      rw [decide_eq_false hdepth] at hrecords
      exact hrecords
    -- The exit closes the node with the result that the tree has too.
    show (m₂.tracer.exit _ _).2 = _
    rw [htracer, Tracer.exit_recorded (hfull.records _), CallTree.recorded_eq,
      Operation.traceRecord_eq, hresult]

/-! ### Sequences of outermost operations -/

/-- What a tree says of the operation at its root is what has been done. -/
structure CallTree.Dispatched (linked : Bool) (s : Setting) (host : Host) (t : CallTree) :
    Prop where
  /-- The operation was carried out, with its code running over the host. -/
  performed : t.call.op.perform s (Script.interpreter linked s host) t.call.before =
    (t.call.result, t.call.after)
  /-- Its code has run as the tree says, if it has. -/
  run : t.call.run = t.call.op.codeRun? linked s host t.call.before
  /-- Below it are the operations that the code has asked for, in order. -/
  children : (t.children.map fun u => (u.call.op, u.call.before)) =
    Script.requests t.call.op.codeInput (t.call.run.elim [] CodeRun.steps)
  /-- Its trace node was there to be closed. -/
  closed :
    let run := Script.interpreter linked s host
    let done := t.call.op.body s run (t.call.op.entered t.call.before)
    (done.2.tracer.exit (done.1.map Outcome.result) (done.2.depth = 0)).1 = .ok ()

namespace CallTree

theorem dispatched_succ (linked : Bool) (s : Setting) (levels : Nat) (op : Operation)
    (m : Machine) :
    (op.tree linked s (levels + 1) m).Dispatched linked s (Script.host linked s levels) where
  performed := Operation.tree_done (levels + 1)
  run := rfl
  children := by
    show List.map _ (List.map _ _) = _
    rw [List.map_map]
    refine (List.map_congr_left fun x _ => ?_).trans (List.map_id _)
    exact Prod.ext (Operation.tree_op levels) (Operation.tree_before levels)
  closed := by
    intro run done
    have hmeets := Operation.body_meets_host linked s levels op
    have hdepth : done.2.depth = m.depth := (hmeets.keeps (op.entered m)).depth
    rw [hdepth]
    exact (Tracer.exit_ok (Exec.node_open hmeets (m := m) rfl) _).1

/-- With enough levels no operation in a tree is without one. -/
theorem part_hasRoom {linked : Bool} {s : Setting} {levels : Nat} {op : Operation} {m : Machine}
    (hroom : s.HasRoom levels m.depth) {t : CallTree} (ht : PartOf t (op.tree linked s levels m)) :
    ∃ (n : Nat) (op' : Operation) (m' : Machine), t = op'.tree linked s (n + 1) m' ∧
      s.HasRoom (n + 1) m'.depth := by
  obtain ⟨n, op', m', rfl, hroom'⟩ := part_induction (P := fun n _ m => s.HasRoom n m.depth)
    (fun hroom hrun hasked => (Operation.request_hasRoom hroom hrun hasked).2) hroom ht
  cases n with
  | zero => exact absurd rfl hroom'.levels_ne_zero
  | succ n => exact ⟨n, op', m', rfl, hroom'⟩

/-- With enough levels every operation in a tree is carried out by the dispatcher. -/
theorem part_dispatched {linked : Bool} {s : Setting} {levels : Nat} {op : Operation} {m : Machine}
    (hroom : s.HasRoom levels m.depth) {t : CallTree} (ht : PartOf t (op.tree linked s levels m)) :
    ∃ levels, t.Dispatched linked s (Script.host linked s levels) := by
  obtain ⟨n, op', m', rfl, -⟩ := part_hasRoom hroom ht
  exact ⟨n, dispatched_succ linked s n op' m'⟩

/-- **The full trace is the call tree.** After any sequence of outermost operations, whatever has
become of them and whichever questions the store does not answer, a tracer of all operations holds
one tree, and it is that of the last operation. It has one node for each operation that was
dispatched, under the operation whose code has asked for it and in the order of asking, with what
was asked for and what has come of it; and no node was missing when it was to be closed. -/
theorem traced_in_full (linked : Bool) (s : Setting) (ops : List Operation) (op : Operation)
    {m₀ m' : Machine} {r : Except CallError Outcome} (hdepth : m₀.depth = 0)
    (hfull : m₀.tracer.Full)
    (h : (Script.dispatcher linked s).perform op (Script.performAll linked s ops m₀) = (r, m')) :
    let tree := Script.callTree linked s op (Script.performAll linked s ops m₀)
    m'.tracer.frames = [tree.recorded s] ∧ m'.tracer.root? = some (tree.recorded s) ∧
      tree.call.op = op ∧ tree.call.result = r ∧
      ∀ t : CallTree, t.PartOf tree →
        ∃ levels, t.Dispatched linked s (Script.host linked s levels) := by
  intro tree
  have hmoves := Script.performAll_moves s.env.transfers.within_unrelated linked ops m₀
  have houtermost : (Script.performAll linked s ops m₀).depth = 0 := hmoves.depth.trans hdepth
  have hroom : s.HasRoom (s.limits.maxCallDepth.toNat + 2)
      (Script.performAll linked s ops m₀).depth := houtermost ▸ .outermost s
  -- An outermost operation discards what the ones before it have left.
  have hrecords := Script.host_records h hroom (hmoves.tracer.full hfull)
  rw [decide_eq_true houtermost] at hrecords
  have hframes : m'.tracer.frames = [tree.recorded s] := by
    rw [hrecords]
    rfl
  -- The node left on the tracer is the whole of it.
  refine ⟨hframes, ?_, Operation.tree_op _, ?_, fun t ht => part_dispatched hroom ht⟩
  · unfold Tracer.root?
    rw [hframes]
  · rw [Operation.callTree_done] at h
    exact congrArg Prod.fst h

end CallTree

/-- A world in which one account cannot be read and all others have code that calls itself as deep
as it is told, and then that account. -/
def Setting.severed : Setting where
  store := (Store.uniform (Script.encode [.recurse, .call 2 0 0])).withOutages
    { account := fun address => address = 2 }
  chain := default

/-- A creation that is refused, and then a call that is aborted two levels down. -/
theorem CallTree.traced_in_full_sample :
    let before := Script.performAll true .severed [.create 1 [] 10 7] { tracer := .full }
    let op := Operation.call 1 1 (Script.recursionTarget 1) 9 0
    let tree := Script.callTree true .severed op before
    let done := (Script.dispatcher true .severed).perform op before
    done.1 = .error (.internal (.store (.custom "account unavailable"))) ∧
      (tree.recorded .severed).calls.map (fun t => t.calls.map (·.record.target)) = [[2]] ∧
      done.2.tracer.frames = [tree.recorded .severed] ∧
      done.2.tracer.root? = some (tree.recorded .severed) ∧
      tree.call.op = op ∧ tree.call.result = done.1 ∧
      ∀ t : CallTree, t.PartOf tree →
        ∃ levels, t.Dispatched true .severed (Script.host true .severed levels) := by
  intro before op tree done
  have hdone : done = (done.1, done.2) := Prod.mk.eta.symm
  exact ⟨by decide +kernel, by decide +kernel, @traced_in_full true .severed [.create 1 [] 10 7] op
    { tracer := .full } done.2 done.1 rfl ⟨rfl, rfl⟩ hdone⟩

end MessageCall
