import MessageCall.Proofs.Dispatch.GasLaw
import MessageCall.Proofs.Dispatch.Recording

/-!
# The trace of a call tree

In the tree of an operation with a result every operation has a result, and the records of the trace
can be read off from the results alone (`CallNode.record`). After an outermost operation a tracer of
all operations holds this trace of the call tree (`Operation.recorded_eq_trace`), so what is proved
of the nodes of a call tree is true of the records of the trace.
-/

namespace MessageCall

/-- The record of an operation that has ended. -/
def CallNode.record (call : CallNode) : TraceRecord :=
  match call.result with
  | .ok o => { call.op.record with
      target := o.address.getD call.op.record.target
      gasUsed := o.result.gasUsed
      output := o.result.output
      error := o.result.error?.map CallError.message }
  | .error e => { call.op.record with error := some e.message }

mutual

/-- The trace of a call tree. -/
def CallTree.trace : CallTree → Trace
  | .node call children => .node call.record (CallTree.traces children)

/-- The traces of call trees. -/
def CallTree.traces : List CallTree → List Trace
  | [] => []
  | t :: ts => t.trace :: CallTree.traces ts

end

theorem CallTree.traces_eq_map (ts : List CallTree) : traces ts = ts.map trace := by
  induction ts with
  | nil => rfl
  | cons t ts ih => rw [traces, ih, List.map_cons]

theorem CallTree.trace_eq (t : CallTree) :
    t.trace = .node t.call.record (t.children.map trace) := by
  cases t with
  | node call children => rw [trace, traces_eq_map, CallTree.call, CallTree.children]

namespace Operation

variable {linked : Bool} {s : Setting} {op : Operation} {m m' : Machine} {o : Outcome}
  {levels : Nat}

/-- What is recorded of an operation with a result says what is in the result. -/
theorem traceRecord_of_ok (h : Script.host linked s (levels + 1) op m = (.ok o, m')) :
    (op.tree linked s (levels + 1) m).call.traceRecord s =
      (op.tree linked s (levels + 1) m).call.record := by
  have hresult : (op.tree linked s (levels + 1) m).call.result = .ok o := by
    rw [tree_done] at h
    exact congrArg Prod.fst h
  rw [traceRecord_eq]
  unfold CallNode.record openRecord
  rw [hresult, tree_op, derived?_eq_address h]
  rfl

/-- In the tree of an operation with a result all records are those of results. -/
theorem recorded_eq_trace (h : Script.host linked s levels op m = (.ok o, m')) :
    (op.tree linked s levels m).recorded s = (op.tree linked s levels m).trace := by
  induction levels generalizing op m m' o with
  | zero => cases h
  | succ levels ih =>
    rw [CallTree.recorded_eq, CallTree.trace_eq, traceRecord_of_ok h]
    refine congrArg _ (List.map_congr_left fun u hu => ?_)
    obtain ⟨n, run, op', m₁, hn, hrun, hasked, rfl⟩ := child_cases hu
    cases hn
    obtain ⟨o', m₂, hok⟩ := request_ok h hrun hasked
    exact ih hok

end Operation

/-- **Where all gas has gone.** Of every operation that the dispatcher carries out with a result,
the gas of every operation in its call tree is accounted for; and if the operation is an outermost
one, a tracer of all operations holds the trace of this tree. -/
theorem CallTree.gas_is_accounted_for (linked : Bool) (s : Setting) (op : Operation)
    {m m' : Machine} {o : Outcome} (h : (Script.dispatcher linked s).perform op m = (.ok o, m')) :
    (∀ t : CallTree, t.PartOf (Script.callTree linked s op m) →
      ∃ o', t.call.result = .ok o' ∧ t.GasLaw s o') ∧
    (m.depth = 0 → m.tracer.Full →
      m'.tracer.root? = some (Script.callTree linked s op m).trace) := by
  constructor
  · -- Every part of the tree is an operation that ended, with fewer levels left below it.
    intro t ht
    obtain ⟨n, op', m₁, rfl, o', m₂, hok⟩ := part_ok h ht
    cases n with
    | zero => cases hok
    | succ n =>
      refine ⟨o', ?_, Operation.gasLaw_of_accounts (Script.host_accounts linked s n) hok⟩
      rw [Operation.tree_done] at hok
      exact congrArg Prod.fst hok
  · -- At the outermost level the tracer has room for every level, so nothing is lost.
    intro hdepth hfull
    have hroom : s.HasRoom (s.limits.maxCallDepth.toNat + 2) m.depth := hdepth ▸ .outermost s
    have hrecords := Script.host_records h hroom hfull
    rw [decide_eq_true hdepth] at hrecords
    rw [hrecords]
    exact congrArg some (Operation.recorded_eq_trace h)

/-- A world in which all code burns gas and then calls itself. -/
def Setting.burning : Setting where
  store := .uniform (Script.encode [.burn 5, .recurse])
  chain := default

/-- A call that is told to go one level deeper. -/
theorem CallTree.gas_is_accounted_for_sample :
    ∃ o, ((Script.dispatcher true .burning).perform
        (.call 1 1 (Script.recursionTarget 1) 20 0) { tracer := .full }).1 = .ok o ∧
      o.result.gasUsed = 10 ∧
      (∀ t : CallTree, t.PartOf (Script.callTree true .burning
          (.call 1 1 (Script.recursionTarget 1) 20 0) { tracer := .full }) →
        ∃ o', t.call.result = .ok o' ∧ t.GasLaw .burning o') ∧
      ((Script.dispatcher true .burning).perform
          (.call 1 1 (Script.recursionTarget 1) 20 0) { tracer := .full }).2.tracer.root? =
        some (Script.callTree true .burning
          (.call 1 1 (Script.recursionTarget 1) 20 0) { tracer := .full }).trace := by
  have ho : ((Script.dispatcher true .burning).perform
      (.call 1 1 (Script.recursionTarget 1) 20 0) { tracer := .full }).1 =
        .ok { result := { verdict := .success, gasLimit := 20, gasUsed := 10 } } := by
    decide +kernel
  have pair : ∀ {α β : Type} {p : α × β} {a : α}, p.1 = a → p = (a, p.2) := by
    rintro _ _ _ _ rfl
    rfl
  obtain ⟨hlaw, htrace⟩ := gas_is_accounted_for true .burning
    (.call 1 1 (Script.recursionTarget 1) 20 0) (pair ho)
  exact ⟨_, ho, rfl, hlaw, htrace rfl ⟨rfl, rfl⟩⟩

end MessageCall
