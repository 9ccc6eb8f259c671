import MessageCall.Proofs.Script.Walk

/-!
# The tree of an operation

The operations that scripted code issues form a tree. `Operation.tree` builds it beside the run:
every node is an operation as the host got it, with the machine before and after it, its result and
the run of its frame, and the children are the operations that the run has asked for, in order.

A statement about every operation at any level is a statement about every part of a tree (`PartOf`).
Since each part is again the tree of its operation at the level where it was issued
(`CallTree.part_is_tree`), it is enough to prove it of the root, for every level and every machine
that the run can get to.
-/

namespace MessageCall

/-- The run of a frame's code. -/
structure CodeRun where
  /-- The instructions that were executed, with the states in which they were. -/
  steps : List (Instruction × Active)
  /-- The code's output, or the error that it ended with. -/
  ended : Except CallError Bytes

/-- An operation that a host has carried out. -/
structure CallNode where
  op : Operation
  before : Machine
  result : Except CallError Outcome
  after : Machine
  /-- The run of the operation's frame, unless the operation was ended before. -/
  run : Option CodeRun

/-- An operation with the operations that its code has asked for. -/
inductive CallTree
  | node (call : CallNode) (children : List CallTree)

namespace CallTree

/-- The operation at the root. -/
def call : CallTree → CallNode
  | node call _ => call

/-- The trees of the operations that the root's code has asked for. -/
def children : CallTree → List CallTree
  | node _ children => children

/-- One tree is the other, or hangs somewhere in it. -/
inductive PartOf : CallTree → CallTree → Prop
  | root (t : CallTree) : PartOf t t
  | child {t u v : CallTree} (hu : u ∈ v.children) (h : PartOf t u) : PartOf t v

end CallTree

namespace Script

/-- The dispatcher that runs scripted code. -/
def dispatcher (linked : Bool) (s : Setting) : Dispatcher := ⟨s, interpreter linked⟩

/-- The host with some levels of nesting left, below which there is nothing. -/
def host (linked : Bool) (s : Setting) (levels : Nat) : Host :=
  (dispatcher linked s).within Dispatcher.closed levels

theorem host_succ (linked : Bool) (s : Setting) (levels : Nat) (op : Operation) :
    host linked s (levels + 1) op =
      Exec.traced op.record (op.body s (interpreter linked s (host linked s levels))) := rfl

end Script

namespace Operation

/-- The machine in which an operation's trace node has been opened. -/
def entered (op : Operation) (m : Machine) : Machine :=
  { m with tracer := m.tracer.enter op.record (m.depth = 0) }

/-- The run of an operation's frame, with the host that the frame's code gets. -/
def codeRun? (linked : Bool) (s : Setting) (host : Host) (op : Operation) (m : Machine) :
    Option CodeRun :=
  match op.opening s (op.entered m) with
  | (.ok (.started frame _), m₁) => some {
    steps := Script.steps linked s host op.codeInput ⟨frame, m₁⟩
    ended := (Running.nested (Script.interpreter linked s host) op.codeInput ⟨frame, m₁⟩).1 }
  | _ => none

/-- The **tree of an operation** with some levels of nesting left. -/
def tree (linked : Bool) (s : Setting) : (levels : Nat) → Operation → Machine → CallTree
  | 0, op, m =>
    let done := Script.host linked s 0 op m
    .node { op, before := m, result := done.1, after := done.2, run := none } []
  | levels + 1, op, m =>
    let run := op.codeRun? linked s (Script.host linked s levels) m
    let done := Script.host linked s (levels + 1) op m
    .node { op, before := m, result := done.1, after := done.2, run } <|
      (Script.requests op.codeInput (run.elim [] CodeRun.steps)).map fun x =>
        tree linked s levels x.1 x.2

end Operation

/-- The tree of an operation that the dispatcher of scripted code carries out. -/
def Script.callTree (linked : Bool) (s : Setting) (op : Operation) (m : Machine) : CallTree :=
  op.tree linked s (s.limits.maxCallDepth.toNat + 2) m

/-- The machine after some operations have been carried out, one after the other. -/
def Script.performAll (linked : Bool) (s : Setting) (ops : List Operation) (m : Machine) :
    Machine :=
  ops.foldl (fun m op => ((dispatcher linked s).perform op m).2) m

section

variable {linked : Bool} {s : Setting} {op : Operation} {run : Runner} {o : Outcome}
  {m m' : Machine} {R : Ledger → Ledger → Prop}

/-! ### What an operation may do -/

section Traced

variable {record : TraceRecord} {body : Exec Outcome} {E : CallError → Prop}
  {result : Except CallError Outcome}

/-- The node that is opened before an operation is still open after it. -/
theorem Exec.node_open (h : body.Meets (Machine.Moves R) E)
    (hbody : body { m with tracer := m.tracer.enter record (m.depth = 0) } = (result, m')) :
    m'.tracer.records (m.depth = 0) = true → m'.tracer.frames ≠ [] := by
  have hcarries : (m.tracer.enter record (m.depth = 0)).Carries m'.tracer := (h.of_eq hbody).tracer
  rw [hcarries.records, (m.tracer.enter_carries record _).records]
  exact fun hrecords => hcarries.frames (Tracer.frames_of_enter hrecords)

/-- **The node of an operation is closed**, whatever came of the operation, and what came of it is
handed on. -/
theorem Exec.traced_apply (h : body.Meets (Machine.Moves R) E)
    (hbody : body { m with tracer := m.tracer.enter record (m.depth = 0) } = (result, m')) :
    Exec.traced record body m = (result, { m' with
      tracer := (m'.tracer.exit (result.map Outcome.result) (m.depth = 0)).2 }) := by
  have hclosed := (Tracer.exit_ok (node_open h hbody) (result.map Outcome.result)).1
  have hdepth : m'.depth = m.depth := (h.of_eq hbody).depth
  unfold traced
  rw [hbody]
  dsimp only
  rw [hdepth]
  rcases hexit : m'.tracer.exit (result.map Outcome.result) (m.depth = 0) with ⟨closed, tracer⟩
  rw [hexit] at hclosed
  cases hclosed
  rfl

theorem Exec.traced_meets (h : body.Meets (Machine.Moves R) Internal) :
    (Exec.traced record body).Meets (Machine.Moves R) Internal where
  keeps m := by
    rcases hbody : body { m with tracer := m.tracer.enter record (m.depth = 0) } with ⟨result, m₁⟩
    have hmoves := h.of_eq hbody
    have hclosed := (Tracer.exit_ok (node_open h hbody) (result.map Outcome.result)).2
    rw [traced_apply h hbody]
    refine ⟨hmoves.ledger, hmoves.depth, ?_⟩
    exact IsTrans.trans _ _ _ (m.tracer.enter_carries record _)
      (IsTrans.trans _ _ _ hmoves.tracer hclosed)
  error {m e} he := by
    rcases hbody : body { m with tracer := m.tracer.enter record (m.depth = 0) } with ⟨result, m₁⟩
    rw [traced_apply h hbody] at he
    exact h.error ((congrArg Prod.fst hbody).trans he)

end Traced

namespace Operation

variable [Ledger.Admits s.store R]

/-- An operation that is ended before its frame runs was refused or skipped, and has touched nothing
but the view. -/
theorem opening_finished (hp : s.env.transfers.Within s.store R R) {result : CallResult}
    (h : op.opening s m = (.ok (.finished result), m')) :
    IsRefusal op.gas result ∧ m.Touches R m' := by
  have hrefusal := op.refusal?_meets hp Ledger.Admits.looks
  rcases opening_cases h with ⟨_, hrefused, heq⟩ | ⟨m₁, hpassed, hprepare⟩
  · cases heq
    exact ⟨refusal?_result hrefused, hrefusal.of_eq hrefused⟩
  · have hgoes : op.Goes R s m₁ (.finished result) m' := prepare_goes hp hprepare
    exact ⟨.inl hgoes.1, IsTrans.trans _ _ _ (hrefusal.of_eq hpassed) hgoes.2⟩

/-- A frame that has been prepared by an operation: it has passed the entry check, and what followed
is known. -/
theorem opening_started (hp : s.env.transfers.Within s.store R R) {frame : CallFrame}
    {snapshot : Ledger.Snapshot} (h : op.opening s m = (.ok (.started frame snapshot), m')) :
    ∃ m₁, op.refusal? s m = (.ok none, m₁) ∧ m.Touches R m₁ ∧
      op.Prepares R s m₁ frame snapshot m' := by
  obtain ⟨m₁, hrefusal, hprepare⟩ := opening_prepared h
  have htouches := (op.refusal?_meets hp Ledger.Admits.looks).of_eq hrefusal
  exact ⟨m₁, hrefusal, htouches, prepare_goes hp hprepare⟩

/-- The machine with the ledger that an operation's snapshot is of. Everything from the snapshot on
stays within the reach of it. -/
theorem Prepares.based {frame : CallFrame} {snapshot : Ledger.Snapshot}
    (h : op.Prepares R s m frame snapshot m') :
    ∃ m₀ : Machine, op.Stands s.store m.view.ledger m₀.view.ledger ∧ m.Moves R m₀ ∧
      snapshot = m₀.view.ledger.snapshot ∧ m₀.Moves R m' := by
  obtain ⟨base, hstands, rfl, hbase⟩ := h.stands
  exact ⟨{ m with view := { m.view with ledger := base } }, hstands,
    ⟨hstands.covered, rfl, Std.Refl.refl m.tracer⟩, rfl, ⟨hbase, h.depth, h.tracer⟩⟩

/-- The machine that the snapshot of an opened operation is of lies on the way. -/
theorem opening_based (hp : s.env.transfers.Within s.store R R) {frame : CallFrame}
    {snapshot : Ledger.Snapshot} (h : op.opening s m = (.ok (.started frame snapshot), m')) :
    ∃ m₀ : Machine, m.Moves R m₀ ∧ snapshot = m₀.view.ledger.snapshot ∧ m₀.Moves R m' := by
  obtain ⟨m₁, -, htouches, hprepares⟩ := opening_started hp h
  obtain ⟨m₀, -, hm₀, hsnapshot, hm'⟩ := hprepares.based
  exact ⟨m₀, IsTrans.trans _ _ _ htouches.moves hm₀, hsnapshot, hm'⟩

theorem body_meets (hp : s.env.transfers.Within s.store R R)
    (hrun : ∀ input, (run input).Meets (Active.Moves R) Halting) (op : Operation) :
    (op.body s run).Meets (Machine.Moves R) Internal where
  keeps m := by
    have hopening := (opening_meets hp op).keeps m
    unfold body
    rw [Attempt.bind_apply]
    -- By how far the operation came: an error, a result at the entry, or a frame.
    rcases hopen : op.opening s m with ⟨e | opened, m₁⟩
    · rw [hopen] at hopening
      exact hopening
    · cases opened with
      | finished result =>
        rw [hopen] at hopening
        exact hopening
      | started frame snapshot =>
        obtain ⟨m₀, hm₀, rfl, hm₁⟩ := opening_based hp hopen
        have hclosing : (op.closing s run frame m₀.view.ledger.snapshot).Meets (m₀.Stays R)
            Internal := closing_meets hrun op frame
        -- The closing may go back, but no further than to `m₀`.
        have hclosed := hclosing.keeps m₁ hm₁
        exact IsTrans.trans _ _ _ hm₀ hclosed
  -- An internal error stops the opening or the closing; no other error gets out.
  error {m e} he := by
    unfold body at he
    rw [Attempt.bind_apply] at he
    rcases hopen : op.opening s m with ⟨e' | opened, m₁⟩
    · rw [hopen] at he
      cases he
      exact (opening_meets hp op).error (congrArg Prod.fst hopen)
    · rw [hopen] at he
      cases opened with
      | finished result => cases he
      | started frame snapshot =>
        obtain ⟨m₀, hm₀, rfl, hm₁⟩ := opening_based hp hopen
        have hclosing : (op.closing s run frame m₀.view.ledger.snapshot).Meets (m₀.Stays R)
            Internal := closing_meets hrun op frame
        exact hclosing.error he

end Operation

/-- **What an operation may do** at any level: the ledger is moved within `R`, the nesting level is
the one before, and an error is an internal one. -/
theorem Script.host_meets [Ledger.Admits s.store R] (hp : s.env.transfers.Within s.store R R)
    (linked : Bool) (levels : Nat) (op : Operation) :
    (host linked s levels op).Meets (Machine.Moves R) Internal := by
  induction levels generalizing op with
  | zero => exact .throw rfl
  | succ levels ih =>
    rw [host_succ]
    exact Exec.traced_meets (op.body_meets hp (interpreter_meets ih))

theorem Script.performAll_moves [Ledger.Admits s.store R] (hp : s.env.transfers.Within s.store R R)
    (linked : Bool) (ops : List Operation) (m : Machine) :
    m.Moves R (performAll linked s ops m) := by
  induction ops generalizing m with
  | nil => exact Std.Refl.refl m
  | cons op ops ih => exact IsTrans.trans _ _ _ ((host_meets hp linked _ op).keeps m) (ih _)

theorem Operation.body_meets_host (linked : Bool) (s : Setting) (levels : Nat) (op : Operation) :
    (op.body s (Script.interpreter linked s (Script.host linked s levels))).Meets
      (Machine.Moves Ledger.Unrelated) Internal :=
  have hp := s.env.transfers.within_unrelated
  op.body_meets hp (Script.interpreter_meets (Script.host_meets hp linked levels))

/-- An operation at any level fails with internal errors only, whatever the policy is. -/
theorem Script.host_error (linked : Bool) (s : Setting) (levels : Nat) (op : Operation)
    (m : Machine) (e : CallError) (he : (host linked s levels op m).1 = .error e) : Internal e :=
  (host_meets (R := Ledger.Unrelated) s.env.transfers.within_unrelated linked levels op).error he

/-! ### The parts of a tree -/

namespace Operation

@[simp] theorem tree_op (levels : Nat) : (op.tree linked s levels m).call.op = op := by
  cases levels <;> rfl

@[simp] theorem tree_before (levels : Nat) : (op.tree linked s levels m).call.before = m := by
  cases levels <;> rfl

theorem tree_done (levels : Nat) : Script.host linked s levels op m =
    ((op.tree linked s levels m).call.result, (op.tree linked s levels m).call.after) := by
  cases levels <;> rfl

/-- The root of the tree is the operation as the dispatcher carries it out. -/
theorem callTree_done (linked : Bool) (s : Setting) (op : Operation) (m : Machine) :
    (Script.dispatcher linked s).perform op m =
      ((Script.callTree linked s op m).call.result, (Script.callTree linked s op m).call.after) :=
  tree_done _

theorem codeRun?_of_started {host : Host} {frame : CallFrame} {snapshot : Ledger.Snapshot}
    (h : op.opening s (op.entered m) = (.ok (.started frame snapshot), m')) :
    op.codeRun? linked s host m = some {
      steps := Script.steps linked s host op.codeInput ⟨frame, m'⟩
      ended :=
        (Running.nested (Script.interpreter linked s host) op.codeInput ⟨frame, m'⟩).1 } := by
  unfold codeRun?
  rw [h]

theorem codeRun?_of_finished (linked : Bool) (host : Host) {result : CallResult}
    (h : op.opening s (op.entered m) = (.ok (.finished result), m')) :
    op.codeRun? linked s host m = none := by
  unfold codeRun?
  rw [h]

/-- A frame's run that is in the tree is the run of a frame that the operation has prepared. -/
theorem codeRun?_eq_some {host : Host} {run : CodeRun}
    (h : op.codeRun? linked s host m = some run) :
    ∃ frame snapshot m₁ a, op.opening s (op.entered m) = (.ok (.started frame snapshot), m₁) ∧
      run.steps = Script.steps linked s host op.codeInput ⟨frame, m₁⟩ ∧
      Running.nested (Script.interpreter linked s host) op.codeInput ⟨frame, m₁⟩ =
        (run.ended, a) := by
  unfold codeRun? at h
  rcases hopen : op.opening s (op.entered m) with ⟨_ | _ | ⟨frame, snapshot⟩, m₁⟩
  · rw [hopen] at h
    cases h
  · rw [hopen] at h
    cases h
  · rw [hopen] at h
    cases h
    exact ⟨frame, snapshot, m₁, _, rfl, rfl, rfl⟩

theorem children_of_run {levels : Nat} {run : CodeRun}
    (h : op.codeRun? linked s (Script.host linked s levels) m = some run) :
    (op.tree linked s (levels + 1) m).children =
      (Script.requests op.codeInput run.steps).map fun x => x.1.tree linked s levels x.2 := by
  show (Script.requests op.codeInput
    ((op.codeRun? linked s (Script.host linked s levels) m).elim [] CodeRun.steps)).map _ = _
  rw [h]
  rfl

/-- What holds of the operations below an operation holds of all that its code has asked for. -/
theorem asked_of_children {levels : Nat} {run : CodeRun} {R : Ledger → Ledger → Prop}
    (hrun : op.codeRun? linked s (Script.host linked s levels) m = some run)
    (hchildren : ∀ u ∈ (op.tree linked s (levels + 1) m).children,
      R u.call.before.view.ledger u.call.after.view.ledger) :
    ∀ x ∈ Script.requests op.codeInput run.steps,
      R x.2.view.ledger (Script.host linked s levels x.1 x.2).2.view.ledger := by
  intro x hx
  have hchild := hchildren (x.1.tree linked s levels x.2) (by
    rw [children_of_run hrun]
    exact List.mem_map_of_mem hx)
  have hdone : (x.1.tree linked s levels x.2).call.after =
      (Script.host linked s levels x.1 x.2).2 := (congrArg Prod.snd (tree_done levels)).symm
  rw [tree_before, hdone] at hchild
  exact hchild

theorem children_of_finished {levels : Nat}
    (h : op.codeRun? linked s (Script.host linked s levels) m = none) :
    (op.tree linked s (levels + 1) m).children = [] := by
  show (Script.requests op.codeInput
    ((op.codeRun? linked s (Script.host linked s levels) m).elim [] CodeRun.steps)).map _ = _
  rw [h]
  rfl

/-- **How an operation goes** inside its trace node: it does not get through its opening, or it is
ended before its frame runs, or its frame's run has a trail and the operation ends from where the
trail leads. -/
inductive Course (linked : Bool) (s : Setting) (levels : Nat) (op : Operation) (m : Machine) :
    Except CallError Outcome → Machine → Prop
  | unopened {e : CallError} {m' : Machine} (hopen : op.opening s (op.entered m) = (.error e, m'))
    (hrun : op.codeRun? linked s (Script.host linked s levels) m = none) :
    Course linked s levels op m (.error e) m'
  | unstarted {result : CallResult} {m' : Machine}
    (hopen : op.opening s (op.entered m) = (.ok (.finished result), m'))
    (hrun : op.codeRun? linked s (Script.host linked s levels) m = none) :
    Course linked s levels op m (.ok { result }) m'
  | ran {frame : CallFrame} {snapshot : Ledger.Snapshot} {m₁ m' : Machine} {run : CodeRun}
    {a : Active} {result : Except CallError Outcome}
    (hopen : op.opening s (op.entered m) = (.ok (.started frame snapshot), m₁))
    (hrun : op.codeRun? linked s (Script.host linked s levels) m = some run)
    (htrail : Script.Trail linked s (Script.host linked s levels) op.codeInput
      (Active.atDepth (m₁.depth + 1) ⟨frame, m₁⟩) run.steps run.ended a)
    (hends : ∀ o, result = .ok o →
      op.Ends s frame.account snapshot (a.atDepth m₁.depth) run.ended o m')
    (haborts : ∀ e, result = .error e →
      Aborts s frame.account snapshot (a.atDepth m₁.depth) run.ended e m')
    (hnested : Running.nested (Script.interpreter linked s (Script.host linked s levels))
      op.codeInput ⟨frame, m₁⟩ = (run.ended, a.atDepth m₁.depth)) :
    Course linked s levels op m result m'

theorem body_course {levels : Nat} {result : Except CallError Outcome}
    (h : op.body s (Script.interpreter linked s (Script.host linked s levels)) (op.entered m) =
      (result, m')) : op.Course linked s levels m result m' := by
  unfold body at h
  rcases hopen : op.opening s (op.entered m) with ⟨e | result | ⟨frame, snapshot⟩, m₁⟩
  · rw [Attempt.bind_of_error hopen] at h
    cases h
    refine .unopened hopen ?_
    unfold codeRun?
    rw [hopen]
  · rw [Attempt.bind_of_ok hopen] at h
    cases h
    exact .unstarted hopen (codeRun?_of_finished linked _ hopen)
  · rw [Attempt.bind_of_ok hopen] at h
    -- The same run of the code is in the tree and in the closing.
    rcases hnested : Running.nested (Script.interpreter linked s (Script.host linked s levels))
      op.codeInput ⟨frame, m₁⟩ with ⟨r, a⟩
    obtain ⟨a₁, htrail, rfl⟩ := Script.nested_trail hnested
    let run : CodeRun := {
      steps := Script.steps linked s (Script.host linked s levels) op.codeInput ⟨frame, m₁⟩
      ended := r }
    have hrun : op.codeRun? linked s (Script.host linked s levels) m = some run := by
      rw [codeRun?_of_started hopen, hnested]
    -- How the closing ended says how the operation did.
    refine .ran hopen hrun htrail (fun o ho => ?_) (fun e he => ?_) hnested
    · exact closing_ok hnested (ho ▸ h)
    · exact closing_error hnested (he ▸ h)

/-- An operation at a level, **taken apart**: it has a course, and then its trace node is closed. -/
theorem host_course {levels : Nat} {result : Except CallError Outcome}
    (h : Script.host linked s (levels + 1) op m = (result, m')) :
    ∃ m₂, op.Course linked s levels m result m₂ ∧
      m' = { m₂ with
        tracer := (m₂.tracer.exit (result.map Outcome.result) (m.depth = 0)).2 } := by
  rw [Script.host_succ] at h
  rcases hbody : op.body s (Script.interpreter linked s (Script.host linked s levels))
    (op.entered m) with ⟨result', m₂⟩
  rw [Exec.traced_apply (body_meets_host linked s levels op) hbody] at h
  cases h
  exact ⟨m₂, body_course hbody, rfl⟩

/-- An operation with a result, taken apart. -/
theorem host_ok {levels : Nat} (h : Script.host linked s (levels + 1) op m = (.ok o, m')) :
    ∃ m₂, m' = { m₂ with tracer := (m₂.tracer.exit (.ok o.result) (m.depth = 0)).2 } ∧
      ((∃ result, op.opening s (op.entered m) = (.ok (.finished result), m₂) ∧ o = { result } ∧
        op.codeRun? linked s (Script.host linked s levels) m = none) ∨
      ∃ frame snapshot m₁ run a,
        op.opening s (op.entered m) = (.ok (.started frame snapshot), m₁) ∧
        op.codeRun? linked s (Script.host linked s levels) m = some run ∧
        Script.Trail linked s (Script.host linked s levels) op.codeInput
          (Active.atDepth (m₁.depth + 1) ⟨frame, m₁⟩) run.steps run.ended a ∧
        op.Ends s frame.account snapshot (a.atDepth m₁.depth) run.ended o m₂) := by
  obtain ⟨m₂, hcourse, rfl⟩ := host_course h
  refine ⟨m₂, rfl, ?_⟩
  cases hcourse with
  | unstarted hopen hrun => exact .inl ⟨_, hopen, rfl, hrun⟩
  | ran hopen hrun htrail hends => exact .inr ⟨_, _, _, _, _, hopen, hrun, htrail, hends o rfl⟩

/-- A child is the tree of an operation that the frame's code has asked for. -/
theorem child_cases {levels : Nat} {u : CallTree} (h : u ∈ (op.tree linked s levels m).children) :
    ∃ n run op' m', levels = n + 1 ∧ op.codeRun? linked s (Script.host linked s n) m = some run ∧
      (op', m') ∈ Script.requests op.codeInput run.steps ∧ u = op'.tree linked s n m' := by
  cases levels with
  | zero => exact absurd h List.not_mem_nil
  | succ n =>
    obtain ⟨⟨op', m'⟩, hrequest, rfl⟩ := List.mem_map.mp h
    cases hrun : op.codeRun? linked s (Script.host linked s n) m with
    | none =>
      rw [hrun] at hrequest
      exact absurd hrequest List.not_mem_nil
    | some run =>
      rw [hrun] at hrequest
      exact ⟨n, run, op', m', rfl, hrun, hrequest, rfl⟩

/-- An operation that was aborted would have aborted the run that asked for it. -/
theorem request_ok {levels : Nat} {run : CodeRun} {op' : Operation} {m₁ : Machine}
    (h : Script.host linked s (levels + 1) op m = (.ok o, m'))
    (hrun : op.codeRun? linked s (Script.host linked s levels) m = some run)
    (hasked : (op', m₁) ∈ Script.requests op.codeInput run.steps) :
    ∃ o' m₂, Script.host linked s levels op' m₁ = (.ok o', m₂) := by
  obtain ⟨m₂, -, ⟨_, -, -, hnone⟩ | ⟨_, _, _, run', _, -, hrun', htrail, hends⟩⟩ := host_ok h
  · rw [hrun] at hnone
    cases hnone
  · rw [hrun] at hrun'
    cases hrun'
    exact htrail.answered (Script.host_error linked s levels) hends.not_internal _ hasked

/-- A run asks for operations one level deeper, in machines that the operation can get to. -/
theorem request_moves [Ledger.Admits s.store R] (hp : s.env.transfers.Within s.store R R)
    {levels : Nat} {run : CodeRun} {op' : Operation}
    (h : op.codeRun? linked s (Script.host linked s levels) m = some run)
    (hrequest : (op', m') ∈ Script.requests op.codeInput run.steps) :
    { op.entered m with depth := m.depth + 1 }.Moves R m' := by
  obtain ⟨frame, snapshot, m₁, a, hopen, hsteps, hnested⟩ := codeRun?_eq_some h
  obtain ⟨m₀, hm₀, -, hm₁⟩ := opening_based hp hopen
  have hopened : (op.entered m).Moves R m₁ := IsTrans.trans _ _ _ hm₀ hm₁
  obtain ⟨a₁, htrail, -⟩ := Script.nested_trail hnested
  rw [hsteps] at hrequest
  obtain ⟨i, b, hstep, -, rfl⟩ := Script.mem_requests.mp hrequest
  have hmoves := (htrail.moves (Script.host_meets hp linked levels)).2 _ hstep
  refine ⟨IsTrans.trans _ _ _ hopened.ledger hmoves.ledger, ?_,
    IsTrans.trans _ _ _ hopened.tracer hmoves.tracer⟩
  rw [hmoves.depth]
  exact congrArg (· + 1) hopened.depth

/-- Code runs only where the nesting has not passed the limit. -/
theorem depth_le_of_run {host : Host} {run : CodeRun} (h : op.codeRun? linked s host m = some run) :
    m.depth ≤ s.limits.maxCallDepth.toNat := by
  obtain ⟨frame, snapshot, m₁, -, hopen, -, -⟩ := codeRun?_eq_some h
  obtain ⟨m₀, hpassed, -⟩ := opening_started s.env.transfers.within_unrelated hopen
  exact Nat.le_of_not_lt ((refusal?_eq_none_iff hpassed).mp rfl).2.1

end Operation

/-- **What holds of the root holds of every part**, if what holds of an operation holds of those
that its code asks for. -/
theorem CallTree.part_induction {P : Nat → Operation → Machine → Prop}
    (hrequest : ∀ {levels op m run op' m'}, P (levels + 1) op m →
      op.codeRun? linked s (Script.host linked s levels) m = some run →
      (op', m') ∈ Script.requests op.codeInput run.steps → P levels op' m')
    {levels : Nat} (h : P levels op m) {t : CallTree} (ht : PartOf t (op.tree linked s levels m)) :
    ∃ (n : Nat) (op' : Operation) (m' : Machine), t = op'.tree linked s n m' ∧ P n op' m' := by
  generalize hv : op.tree linked s levels m = v at ht
  induction ht generalizing levels op m with
  | root => exact ⟨levels, op, m, hv.symm, h⟩
  | child hu _ ih =>
    subst hv
    -- The part is in the tree of a child, which is one level below.
    obtain ⟨n, run, op', m', rfl, hrun, hasked, rfl⟩ := Operation.child_cases hu
    exact ih (hrequest h hrun hasked) rfl

/-- **Every part of a tree is a tree** of an operation with some levels left, in a machine that the
operation at the root can get to. -/
theorem CallTree.part_is_tree [Ledger.Admits s.store R] (hp : s.env.transfers.Within s.store R R)
    {levels : Nat} {t : CallTree} (h : PartOf t (op.tree linked s levels m)) :
    ∃ (n : Nat) (op' : Operation) (m' : Machine), t = op'.tree linked s n m' ∧
      R m.view.ledger m'.view.ledger := by
  refine part_induction (fun hreached hrun hasked => ?_) (Std.Refl.refl m.view.ledger) h
  exact IsTrans.trans _ _ _ hreached (Operation.request_moves hp hrun hasked).ledger

/-- In the tree of an operation with a result all operations have results. -/
theorem CallTree.part_ok {levels : Nat} (h : Script.host linked s levels op m = (.ok o, m'))
    {t : CallTree} (ht : PartOf t (op.tree linked s levels m)) :
    ∃ (n : Nat) (op' : Operation) (m₁ : Machine), t = op'.tree linked s n m₁ ∧
      ∃ (o' : Outcome) (m₂ : Machine), Script.host linked s n op' m₁ = (.ok o', m₂) := by
  refine part_induction (fun hok hrun hasked => ?_) ⟨o, m', h⟩ ht
  obtain ⟨_, _, hok⟩ := hok
  exact Operation.request_ok hok hrun hasked

end

end MessageCall
