import MessageCall.Proofs.Dispatch.Frames

/-!
# The nesting level

One counter says how deep the nesting is, and every frame of a recursion works on it. A frame is as
deep as the operation that it belongs to, and while its code runs the host is one level deeper. What
the code asks for is asked at that level, and the level is the same again when the answer comes,
whatever the answer is: a result, a refusal, or an error that aborts the code as well.

So the counter can be read off the tree of an operation (`CallTree.KeepsDepth`). The limit is
compared with the level at which an operation is asked for and not with that of its frame. A frame
at the limit is allowed, and what its code asks for is refused before anything else is looked at.

* `Operation.host_of_depth` — an operation beyond the limit is refused and does nothing;
* `Operation.depth_exceeded_iff` — no other operation is refused for its depth;
* `CallTree.depth_discipline` — all of it, for every operation in the tree of an outermost one.
-/

namespace MessageCall

/-- The **depth discipline** of an operation in a tree. -/
structure CallTree.KeepsDepth (s : Setting) (t : CallTree) : Prop where
  /-- A frame that is handed to the interpreter is no deeper than the limit, and the host is one
  level deeper than the frame. -/
  entry : ∀ a, t.call.op.entry? s t.call.before = some a →
    a.frame.depth ≤ s.limits.maxCallDepth.toNat ∧ a.machine.depth = a.frame.depth + 1
  /-- So it is at every instruction that the frame's code executes. -/
  steps : ∀ run, t.call.run = some run → ∀ x ∈ run.steps,
    ∃ a, t.call.op.entry? s t.call.before = some a ∧ x.2.frame.depth = a.frame.depth ∧
      x.2.machine.depth = x.2.frame.depth + 1
  /-- So it is before and after each operation that the code asks for. -/
  nested : ∀ u ∈ t.children, ∃ a, t.call.op.entry? s t.call.before = some a ∧
    u.call.before.depth = a.frame.depth + 1 ∧ u.call.after.depth = a.frame.depth + 1
  /-- An operation is refused for its depth exactly if it is asked for beyond the limit. -/
  refused : (∃ o, t.call.result = .ok o ∧ o.result.error? = some .depthExceeded) ↔
    s.limits.maxCallDepth.toNat < t.call.before.depth
  /-- What is refused for its depth gets all of its gas back, and nothing has been run or read for
  it, neither the code nor the balance that would have to pay. -/
  untouched : s.limits.maxCallDepth.toNat < t.call.before.depth →
    t.call.result = .ok { result := .refused t.call.op.gas .depthExceeded } ∧
      t.call.run = none ∧ t.call.after.view = t.call.before.view
  /-- After the operation the level is the one before it, whatever has come of the operation. -/
  restored : t.call.after.depth = t.call.before.depth

section

variable {linked : Bool} {s : Setting} {op : Operation} {levels : Nat} {m m' : Machine}
  {o : Outcome}

namespace Operation

/-! ### Operations beyond the limit -/

section Beyond

variable (hrecursion : s.limits.noRecursion = false)
  (hdepth : s.limits.maxCallDepth.toNat < m.depth)

include hrecursion hdepth

theorem opening_of_depth (op : Operation) :
    op.opening s (op.entered m) =
      (.ok (.finished (.refused op.gas .depthExceeded)), op.entered m) := by
  have hrefusal : op.refusal? s (op.entered m) =
      (.ok (some (.refused op.gas .depthExceeded)), op.entered m) :=
    refusal?_of_depth (m := op.entered m) hrecursion hdepth op
  unfold opening
  rw [Attempt.bind_of_ok hrefusal]
  rfl

/-- **An operation beyond the limit** is refused, and it has not touched anything. -/
theorem host_of_depth (linked : Bool) (levels : Nat) (op : Operation) :
    (Script.host linked s (levels + 1) op m).1 =
        .ok { result := .refused op.gas .depthExceeded } ∧
      (Script.host linked s (levels + 1) op m).2.view = m.view ∧
      op.codeRun? linked s (Script.host linked s levels) m = none := by
  have hopen := opening_of_depth hrecursion hdepth op
  have hbody : op.body s (Script.interpreter linked s (Script.host linked s levels))
      (op.entered m) = (.ok { result := .refused op.gas .depthExceeded }, op.entered m) := by
    unfold body
    rw [Attempt.bind_of_ok hopen]
    rfl
  rw [Script.host_succ, Exec.traced_apply (body_meets_host linked s levels op) hbody]
  exact ⟨rfl, rfl, codeRun?_of_finished linked _ hopen⟩

end Beyond

/-- An operation that is refused for its depth was asked for beyond the limit. -/
theorem depth_of_refused (h : Script.host linked s (levels + 1) op m = (.ok o, m'))
    (ho : o.result.error? = some .depthExceeded) : s.limits.maxCallDepth.toNat < m.depth := by
  obtain ⟨m₂, -, ⟨result, hopen, rfl, -⟩ | ⟨frame, snapshot, m₁, run, a, -, -, htrail, hends⟩⟩ :=
    host_ok h
  · rcases opening_cases hopen with ⟨_, hrefusal, heq⟩ | ⟨m₁, -, hprepare⟩
    · cases heq
      exact depth_of_refusal? (m := op.entered m) hrefusal ho
    · -- What is skipped after the entry check is not refused.
      obtain ⟨-, rfl, -⟩ := prepare_finished hprepare
      cases ho
  · -- Code that has run does not end like a refusal.
    have hhost := Script.host_meets s.env.transfers.within_unrelated linked levels
    have hhalting := htrail.error hhost
    generalize run.ended = r at hends hhalting
    cases hends with
    | returned => cases ho
    | installed => cases ho
    | bare => cases ho
    | undone hkind hinternal =>
      cases ho
      have hrefuses := refuses_of_undone hkind hhalting hinternal
      cases hrefuses

/-- **Refused for its depth** is exactly what is asked for beyond the limit. -/
theorem depth_exceeded_iff (hrecursion : s.limits.noRecursion = false) :
    (∃ o, (Script.host linked s (levels + 1) op m).1 = .ok o ∧
      o.result.error? = some .depthExceeded) ↔ s.limits.maxCallDepth.toNat < m.depth := by
  constructor
  · rintro ⟨o, hdone, ho⟩
    exact depth_of_refused (Attempt.apply_eq hdone) ho
  · intro hdepth
    exact ⟨_, (host_of_depth hrecursion hdepth linked levels op).1, rfl⟩

/-! ### Frames within the limit -/

/-- The level while the code of a frame runs, at each of its instructions. -/
theorem depth_of_step {run : CodeRun} {x : Instruction × Active}
    (hrun : op.codeRun? linked s (Script.host linked s levels) m = some run) (hx : x ∈ run.steps) :
    ∃ a, op.entry? s m = some a ∧ x.2.frame.depth = a.frame.depth ∧
      x.2.machine.depth = x.2.frame.depth + 1 := by
  -- An instruction is only carried out where a frame was entered.
  obtain ⟨a, hentry⟩ := entry_of_step hrun hx
  obtain ⟨hframe, hmachine⟩ := entry?_depth hentry
  rw [codeRun?_of_entry _ _ hentry] at hrun
  cases hrun
  have htrail : Script.Trail linked s (Script.host linked s levels) op.codeInput a _ _ _ :=
    Script.interpreter_trail a
  -- The frame goes on as it is, and every operation below restores the level.
  have hsame : x.2.frame.depth = a.frame.depth := (htrail.continues.2 x hx).depth
  have hhost := Script.host_meets s.env.transfers.within_unrelated linked levels
  have hlevel : x.2.machine.depth = a.machine.depth := ((htrail.moves hhost).2 x hx).depth
  refine ⟨a, hentry, hsame, ?_⟩
  -- At the entry the counter is one above the frame, and neither has moved since.
  calc
    x.2.machine.depth = a.machine.depth := hlevel
    _ = a.frame.depth + 1 := by rw [hmachine, hframe]
    _ = x.2.frame.depth + 1 := by rw [hsame]

theorem entry?_depth_le {a : Active} (h : op.entry? s m = some a) :
    a.frame.depth ≤ s.limits.maxCallDepth.toNat := by
  rw [(entry?_depth h).1]
  exact depth_le_of_run (codeRun?_of_entry true Dispatcher.closed h)

end Operation

/-- The level is the same after an operation, whatever has come of it. -/
theorem Script.host_depth (linked : Bool) (s : Setting) (levels : Nat) (op : Operation)
    (m : Machine) : (host linked s levels op m).2.depth = m.depth :=
  ((host_meets s.env.transfers.within_unrelated linked levels op).keeps m).depth

namespace CallTree

/-- An operation with enough levels left keeps the discipline. -/
theorem keepsDepth (hrecursion : s.limits.noRecursion = false) (linked : Bool) (levels : Nat)
    (op : Operation) (m : Machine) : (op.tree linked s (levels + 1) m).KeepsDepth s where
  -- The frame takes the level of the machine, and the machine goes one level on for its code.
  entry a hentry := by
    obtain ⟨hframe, hmachine⟩ := Operation.entry?_depth hentry
    exact ⟨Operation.entry?_depth_le hentry, by rw [hmachine, hframe]⟩
  steps run hrun x hx := Operation.depth_of_step hrun hx
  nested u hu := by
    -- The operation below was asked for by an instruction of this frame.
    obtain ⟨n, run, op', m', heq, hrun, hasked, rfl⟩ := Operation.child_cases hu
    obtain rfl : levels = n := Nat.succ.inj heq
    obtain ⟨i, b, hstep, -, rfl⟩ := Script.mem_requests.mp hasked
    obtain ⟨a, hentry, hframe, hmachine⟩ := Operation.depth_of_step hrun hstep
    -- The operation is asked for in the state of an instruction.
    have hasked : b.machine.depth = a.frame.depth + 1 := by rw [hmachine, hframe]
    have hafter : (op'.tree linked s levels b.machine).call.after.depth = a.frame.depth + 1 := by
      calc
        _ = (Script.host linked s levels op' b.machine).2.depth := by rw [Operation.tree_done]
        _ = b.machine.depth := Script.host_depth linked s levels op' b.machine
        _ = a.frame.depth + 1 := hasked
    refine ⟨a, hentry, ?_, hafter⟩
    rw [Operation.tree_before]
    exact hasked
  refused := Operation.depth_exceeded_iff hrecursion
  untouched hdepth := by
    obtain ⟨hresult, hview, hrun⟩ := Operation.host_of_depth hrecursion hdepth linked levels op
    exact ⟨hresult, hrun, hview⟩
  restored := Script.host_depth linked s (levels + 1) op m

/-- **Depth discipline.** Where operations may be nested, over any store and with any policy for
transfers, every operation in the tree of an outermost one keeps the discipline, whatever has come
of it; and the tree is that of what was done. The level is zero before and after each outermost
operation, as it was at the start. -/
theorem depth_discipline {m₀ : Machine} (hrecursion : s.limits.noRecursion = false)
    (hdepth : m₀.depth = 0) (linked : Bool) (ops : List Operation) (op : Operation) :
    let before := Script.performAll linked s ops m₀
    let tree := Script.callTree linked s op before
    before.depth = 0 ∧ ((Script.dispatcher linked s).perform op before).2.depth = 0 ∧
      tree.Recounts linked s op before ∧
      ∀ t : CallTree, t.PartOf tree → t.KeepsDepth s := by
  intro before tree
  have hbefore : before.depth = 0 :=
    (Script.performAll_moves s.env.transfers.within_unrelated linked ops m₀).depth.trans hdepth
  refine ⟨hbefore, (Script.host_depth linked s _ op before).trans hbefore,
    callTree_recounts linked s op before, fun t ht => ?_⟩
  have hroom : s.HasRoom (s.limits.maxCallDepth.toNat + 2) before.depth := .of_le (Nat.le_refl _) _
  -- No operation in the tree has used up the levels.
  obtain ⟨n, op', m', rfl, -⟩ := part_hasRoom hroom ht
  exact keepsDepth hrecursion linked n op' m'

end CallTree

end

/-- A world without money in which frames may be nested once, and all code sends what it does not
have as deep as it can. -/
def Setting.shallow : Setting where
  store := .uniform (Script.encode [.callCode 1 9 5, .recurse])
  chain := default
  limits := { maxCallDepth := 1 }

/-- A call that goes down to the limit. Below it nothing is done, although what is asked for there
first could not be paid for either, which is what ends the same operation one level higher. -/
theorem CallTree.depth_discipline_sample :
    let before := Script.performAll true .shallow [.call 1 2 [] 9 0] {}
    let op := Operation.call 1 1 (Script.recursionTarget 5) 100 0
    let tree := Script.callTree true .shallow op before
    (tree.children.map fun t => (t.call.before.depth, t.call.result.map (·.result.error?))) =
        [(1, .ok (some (.insufficientBalance (some { requested := 5, available := 0 })))),
          (1, .ok none)] ∧
      (tree.children.flatMap fun t => t.children.map fun u =>
          (u.call.before.depth, u.call.result.map (·.result.error?))) =
        [(2, .ok (some .depthExceeded)), (2, .ok (some .depthExceeded))] ∧
      before.depth = 0 ∧ ((Script.dispatcher true .shallow).perform op before).2.depth = 0 ∧
      tree.Recounts true .shallow op before ∧
      ∀ t : CallTree, t.PartOf tree → t.KeepsDepth .shallow := by
  refine ⟨by decide +kernel, by decide +kernel, ?_⟩
  exact depth_discipline rfl rfl true [.call 1 2 [] 9 0] _

end MessageCall
