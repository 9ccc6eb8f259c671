import MessageCall.Proofs.Dispatch.Closing
import MessageCall.Script.Run

/-!
# How scripted code runs

A run goes through instructions one after the other. `Script.Trail` is that walk as a relation: it
holds the instructions with the states in which they were executed, up to the one that ended the
run. Facts about runs are proved by induction on the trail, and `Script.nested_trail` says that
every nested run has one.

An instruction either asks for an operation or it does not (`Instruction.request?`). The ones that
do all hand over to the host in the same way (`Script.step_request`), so what is to be said about
operations is said once.
-/

namespace MessageCall

namespace CallFrame

/-- The gas that a nested operation gets when it asks for some. -/
def granted (gas : Gas) (frame : CallFrame) : Gas := min gas frame.gasLeft

/-- The frame after having paid. -/
def paid (gas : Gas) (frame : CallFrame) : CallFrame :=
  { frame with gasUsed := frame.gasUsed + gas }

theorem granted_le (gas : Gas) (frame : CallFrame) : frame.granted gas ≤ frame.gasLeft := by
  show (if gas ≤ frame.gasLeft then gas else frame.gasLeft) ≤ frame.gasLeft
  split
  · assumption
  · exact UInt64.le_refl _

theorem charge_granted (gas : Gas) (frame : CallFrame) :
    frame.charge (frame.granted gas) = .ok (frame.paid (frame.granted gas)) := by
  unfold charge charge?
  rw [if_pos (frame.granted_le gas)]
  rfl

end CallFrame

/-- The operation that an instruction asks for. -/
def Instruction.request? (input : Bytes) (a : Active) : Instruction → Option Operation
  | .call target gas value => some (.call a.frame.account target [] (a.frame.granted gas) value)
  | .callCode target gas value =>
    some (.callCode a.frame.account target [] (a.frame.granted gas) value)
  | .delegateCall target gas =>
    some (.delegateCall (a.frame.paid (a.frame.granted gas)) target input (a.frame.granted gas))
  | .create gas value initCode =>
    some (.create a.frame.account initCode (a.frame.granted gas) value)
  | .recurse =>
    if a.frame.depth < Script.targetDepth input then
      some (.call a.frame.account a.frame.account input (a.frame.granted Script.allGas) 0)
    else none
  | _ => none

/-- Going deeper is a call of the account by itself. -/
theorem Instruction.request?_recurse_eq_some {input : Bytes} {a : Active} {op : Operation}
    (h : Instruction.recurse.request? input a = some op) :
    a.frame.depth < Script.targetDepth input ∧
      op = .call a.frame.account a.frame.account input (a.frame.granted Script.allGas) 0 := by
  unfold request? at h
  by_cases hdepth : a.frame.depth < Script.targetDepth input
  · rw [if_pos hdepth] at h
    exact ⟨hdepth, (Option.some.inj h).symm⟩
  · rw [if_neg hdepth] at h
    cases h

theorem Instruction.request?_recurse_eq_none {input : Bytes} {a : Active}
    (h : Instruction.recurse.request? input a = none) :
    ¬ a.frame.depth < Script.targetDepth input := by
  intro hdepth
  unfold request? at h
  rw [if_pos hdepth] at h
  cases h

/-- The gas that an instruction burns. -/
def Instruction.price : Instruction → Gas
  | .burn gas => gas
  | _ => 0

namespace Script

variable {linked : Bool} {s : Setting} {host : Host} {input : Bytes} {i : Instruction}
  {a a' : Active} {op : Operation} {R : Ledger → Ledger → Prop}

/-- What becomes of running code that hands an operation over to the host. -/
def resumed (op : Operation) (a : Active) : Except CallError Outcome × Machine →
    Except CallError (Option Bytes) × Active
  | (.ok o, m) =>
    (.ok none, (observeCall op.callType o
      ⟨(a.frame.paid op.gas).refund o.result.gasLeft, m⟩).2)
  | (.error e, m) => (.error e, ⟨a.frame.paid op.gas, m⟩)

/-! The host's answer is noted, and nothing else is changed in the machine that it has left. -/

@[simp] theorem resumed_view (op : Operation) (a : Active)
    (done : Except CallError Outcome × Machine) :
    (resumed op a done).2.machine.view = done.2.view := by
  rcases done with ⟨_ | _, _⟩ <;> rfl

@[simp] theorem resumed_tracer (op : Operation) (a : Active)
    (done : Except CallError Outcome × Machine) :
    (resumed op a done).2.machine.tracer = done.2.tracer := by
  rcases done with ⟨_ | _, _⟩ <;> rfl

@[simp] theorem resumed_cancelled (op : Operation) (a : Active)
    (done : Except CallError Outcome × Machine) :
    (resumed op a done).2.machine.cancelled = done.2.cancelled := by
  rcases done with ⟨_ | _, _⟩ <;> rfl

theorem issue_apply (gas : Gas) (operation : CallFrame → Gas → Operation)
    (hop : op = operation (a.frame.paid (a.frame.granted gas)) (a.frame.granted gas))
    (hgas : op.gas = a.frame.granted gas) :
    (issue host gas operation >>= fun _ => pure none) a = resumed op a (host op a.machine) := by
  have hcharge := CallFrame.charge_granted gas a.frame
  unfold CallFrame.granted at hop hgas hcharge
  rw [Attempt.bind_apply]
  simp only [issue, pay, Attempt.bind_apply, Attempt.get_apply, Attempt.ofExcept_apply,
    Attempt.modify_apply, hcharge, ← hop, Running.exec, Attempt.inside_apply]
  rw [← hgas]
  rcases host op a.machine with ⟨e | o, m⟩
  · rfl
  · rfl

/-- **Handing over.** An instruction that asks for an operation pays for it, has the host carry it
out and takes back what it has not used. -/
theorem step_request (h : i.request? input a = some op) :
    step linked s host input i a = resumed op a (host op a.machine) := by
  -- Four instructions hand their operation over as it is.
  cases i with
  | call target gas value =>
    cases h
    exact issue_apply gas _ rfl rfl
  | callCode target gas value =>
    cases h
    exact issue_apply gas _ rfl rfl
  | delegateCall target gas =>
    cases h
    exact issue_apply gas _ rfl rfl
  | create gas value initCode =>
    cases h
    exact issue_apply gas _ rfl rfl
  -- The fifth does so only above the depth that it is to reach.
  | recurse =>
    obtain ⟨hdepth, rfl⟩ := Instruction.request?_recurse_eq_some h
    have hstep : step linked s host input .recurse a =
        (issue host allGas (fun frame gas => .call frame.account frame.account input gas 0) >>=
          fun _ => pure none) a := by
      simp only [step, Attempt.bind_apply, Attempt.get_apply, if_pos hdepth]
    rw [hstep]
    exact issue_apply allGas _ rfl rfl
  | _ => cases h

/-- Code that is deep enough goes on with the next instruction. -/
theorem step_recurse (h : Instruction.recurse.request? input a = none) :
    step linked s host input .recurse a = (.ok none, a) := by
  simp only [step, Attempt.bind_apply, Attempt.get_apply,
    if_neg (Instruction.request?_recurse_eq_none h)]
  rfl

/-- Burning gas takes all of it or faults. -/
theorem step_burn (gas : Gas) : step linked s host input (.burn gas) a =
    match a.frame.charge? gas with
    | some frame => (.ok none, { a with frame })
    | none => (.error (.fault .outOfGas), a) := by
  simp only [step, pay, CallFrame.charge, Attempt.bind_apply, Attempt.get_apply,
    Attempt.ofExcept_apply]
  cases a.frame.charge? gas <;> rfl

/-- Writing a slot writes it for the account on which the frame acts. -/
theorem step_store (key : Hash) (value : Word) : step linked s host input (.store key value) a =
    match Exec.view (View.setSlot s.store a.frame.account key value) a.machine with
    | (.ok _, m) => (.ok none, { a with machine := m })
    | (.error e, m) => (.error e, { a with machine := m }) := by
  simp only [step, Running.exec, Attempt.bind_apply, Attempt.get_apply, Attempt.inside_apply]
  rcases Exec.view (View.setSlot s.store a.frame.account key value) a.machine with ⟨_ | _, _⟩ <;>
    rfl

/-- An instruction that asks for an operation and does not abort has got an answer. -/
theorem step_answered (hhost : ∀ op m e, (host op m).1 = .error e → Internal e)
    (hrequest : i.request? input a = some op) {r : Except CallError (Option Bytes)}
    (h : step linked s host input i a = (r, a')) (hr : ∀ e, r = .error e → ¬ Internal e) :
    ∃ o m, host op a.machine = (.ok o, m) ∧ r = .ok none ∧ a' = (resumed op a (.ok o, m)).2 := by
  rw [step_request hrequest] at h
  rcases hhanded : host op a.machine with ⟨e | o, m⟩
  · rw [hhanded] at h
    cases h
    exact absurd (hhost op a.machine e (congrArg Prod.fst hhanded)) (hr e rfl)
  · rw [hhanded] at h
    cases h
    exact ⟨o, m, rfl, rfl, rfl⟩

/-- What an instruction does that asks for no operation. -/
structure Quiet (R : Ledger → Ledger → Prop) (i : Instruction) (a : Active)
    (r : Except CallError (Option Bytes)) (a' : Active) : Prop where
  moves : a.machine.Moves R a'.machine
  tracer : a'.machine.tracer = a.machine.tracer
  paid : ∀ x, r = .ok x → a.frame.charge? i.price = some a'.frame
  unpaid : ∀ e, r = .error e → a'.frame = a.frame
  error : ∀ e, r = .error e → Halting e

theorem charge?_zero (frame : CallFrame) : frame.charge? 0 = some frame := by
  unfold CallFrame.charge?
  rw [if_pos (UInt64.le_iff_toNat_le.mpr (Nat.zero_le _)), UInt64.add_zero]

/-- An instruction that does nothing but end the run, or observe. -/
theorem Quiet.still [IsPreorder Ledger R] {x : Option Bytes} (hprice : i.price = 0)
    (hframe : a'.frame = a.frame) (hview : a'.machine.view = a.machine.view)
    (hdepth : a'.machine.depth = a.machine.depth) (htracer : a'.machine.tracer = a.machine.tracer) :
    Quiet R i a (.ok x) a' where
  moves := ⟨hview ▸ Std.Refl.refl _, hdepth, htracer ▸ Std.Refl.refl _⟩
  tracer := htracer
  paid _ _ := by rw [hprice, hframe, charge?_zero]
  unpaid _ he := by cases he
  error _ he := by cases he

theorem Quiet.fault [IsPreorder Ledger R] (fault : ExecutionFault) :
    Quiet R i a (.error (.fault fault)) a where
  moves := Std.Refl.refl a.machine
  tracer := rfl
  paid _ hx := by cases hx
  unpaid _ _ := rfl
  error _ he := by
    cases he
    exact .inl ⟨fault, rfl⟩

/-- **An instruction that asks for no operation** writes at most a slot of the account on which its
frame acts. -/
theorem step_quiet_of [IsPreorder Ledger R]
    (hset : ∀ key value, (Exec.view (View.setSlot s.store a.frame.account key value)).Meets
      (Machine.Touches R) Internal)
    (h : i.request? input a = none) {r : Except CallError (Option Bytes)}
    (hstep : step linked s host input i a = (r, a')) : Quiet R i a r a' := by
  suffices hquiet : Quiet R i a (step linked s host input i a).1
      (step linked s host input i a).2 by
    rw [hstep] at hquiet
    exact hquiet
  -- Most instructions leave everything as it is; only the gas and the store take more.
  cases i with
  | stop => exact .still rfl rfl rfl rfl rfl
  | output data => exact .still rfl rfl rfl rfl rfl
  | outputZeros count => exact .still rfl rfl rfl rfl rfl
  | observe => exact .still rfl rfl rfl rfl rfl
  -- Without a link the flag is not reached.
  | cancel =>
    cases linked with
    | false => exact .still rfl rfl rfl rfl rfl
    | true => exact .still rfl rfl rfl rfl rfl
  | revert => exact .fault _
  | invalid => exact .fault _
  | burn gas =>
    rw [step_burn]
    cases hpaid : a.frame.charge? gas with
    | none => exact .fault .outOfGas
    | some frame => exact ⟨Std.Refl.refl a.machine, rfl, fun _ _ => hpaid, nofun, nofun⟩
  | store key value =>
    -- Writing touches the view only. If it fails, the error is an internal one.
    have hmeets := hset key value
    rw [step_store]
    rcases hwritten : Exec.view (View.setSlot s.store a.frame.account key value) a.machine with
      ⟨e | _, m⟩
    · have htouches := hmeets.of_eq hwritten
      have htracer : m.tracer = a.machine.tracer := by rw [htouches.rest]
      refine ⟨htouches.moves, htracer, nofun, fun _ _ => rfl, ?_⟩
      intro _ he
      cases he
      exact .inr (hmeets.error (congrArg Prod.fst hwritten))
    · have htouches := hmeets.of_eq hwritten
      have htracer : m.tracer = a.machine.tracer := by rw [htouches.rest]
      exact ⟨htouches.moves, htracer, fun _ _ => charge?_zero _, nofun, nofun⟩
  -- What has gone deep enough does nothing.
  | recurse =>
    rw [step_recurse h]
    exact .still rfl rfl rfl rfl rfl
  | _ => cases h

theorem step_quiet [Ledger.Admits s.store R] (h : i.request? input a = none)
    {r : Except CallError (Option Bytes)} (hstep : step linked s host input i a = (r, a')) :
    Quiet R i a r a' :=
  step_quiet_of
    (fun key value => Exec.meets_op (f := fun _ => .done) (.setSlot _ key value) trivial rfl)
    h hstep

theorem step_meets [Ledger.Admits s.store R]
    (hhost : ∀ op, (host op).Meets (Machine.Moves R) Internal) (i : Instruction) :
    (step linked s host input i).Meets (Active.Moves R) Halting where
  keeps a := by
    -- By whether the instruction asks for an operation.
    cases hrequest : i.request? input a with
    | none => exact (step_quiet hrequest rfl).moves
    | some op =>
      have hmoves := (hhost op).keeps a.machine
      rw [step_request hrequest]
      rcases hhanded : host op a.machine with ⟨e | o, m⟩
      · rw [hhanded] at hmoves
        exact hmoves
      · rw [hhanded] at hmoves
        exact ⟨hmoves.ledger, hmoves.depth, hmoves.tracer⟩
  error {a e} he := by
    cases hrequest : i.request? input a with
    | none => exact (step_quiet (R := R) hrequest rfl).error e he
    -- What the host fails with is internal; every other end is an answer.
    | some op =>
      rw [step_request hrequest] at he
      rcases hhanded : host op a.machine with ⟨e' | o, m⟩
      · rw [hhanded] at he
        cases he
        exact .inr ((hhost op).error (congrArg Prod.fst hhanded))
      · rw [hhanded] at he
        cases he

/-! ### Runs -/

/-- The errors that a run ends with before it executes another instruction: faults, and an internal
error if its level cannot be counted. -/
def Stops (a : Active) (e : CallError) : Prop :=
  (∃ fault, e = .fault fault) ∨ Internal e ∧ ¬ a.machine.depth < UInt64.size

/-- The walk of a run through its instructions. -/
inductive Trail (linked : Bool) (s : Setting) (host : Host) (input : Bytes) :
    Active → List (Instruction × Active) → Except CallError Bytes → Active → Prop
  /-- The run ends before another instruction is executed. -/
  | halted {a : Active} {r : Except CallError Bytes} (hr : ∀ e, r = .error e → Stops a e) :
    Trail linked s host input a [] r a
  | failed {a a' : Active} {i : Instruction} {e : CallError}
    (hstep : step linked s host input i a = (.error e, a')) :
    Trail linked s host input a [(i, a)] (.error e) a'
  | ended {a a' : Active} {i : Instruction} {output : Bytes}
    (hstep : step linked s host input i a = (.ok (some output), a')) :
    Trail linked s host input a [(i, a)] (.ok output) a'
  | more {a a₁ a' : Active} {i : Instruction} {steps : List (Instruction × Active)}
    {r : Except CallError Bytes} (hstep : step linked s host input i a = (.ok none, a₁))
    (htail : Trail linked s host input a₁ steps r a') :
    Trail linked s host input a ((i, a) :: steps) r a'

theorem Trail.fault (fault : ExecutionFault) :
    Trail linked s host input a [] (.error (.fault fault)) a := by
  refine .halted fun _ he => ?_
  cases he
  exact .inl ⟨fault, rfl⟩

/-- The instructions that a run executes, with the states in which it does. -/
def executed (linked : Bool) (s : Setting) (host : Host) (input : Bytes) :
    List Instruction → Active → List (Instruction × Active)
  | [], _ => []
  | i :: rest, a =>
    if a.machine.cancelled then []
    else (i, a) ::
      match step linked s host input i a with
      | (.ok none, a') => executed linked s host input rest a'
      | _ => []

theorem checkStop_of_cancelled (h : a.machine.cancelled = true) :
    checkStop a = (.error (.fault .cancelled), a) := by
  simp only [checkStop, Attempt.bind_apply, Attempt.get_apply, if_pos h]
  rfl

theorem checkStop_of_not (h : ¬ a.machine.cancelled = true) : checkStop a = (.ok (), a) := by
  simp only [checkStop, Attempt.bind_apply, Attempt.get_apply, if_neg h]
  rfl

theorem runAll_trail (fault : Option ExecutionFault) (is : List Instruction) (a : Active) :
    Trail linked s host input a (executed linked s host input is a)
      (runAll linked s host input fault is a).1 (runAll linked s host input fault is a).2 := by
  induction is generalizing a with
  | nil =>
    -- At the end of the code, its fault ends the run if there is one.
    unfold executed runAll
    by_cases hcancelled : a.machine.cancelled = true
    · rw [Attempt.bind_of_error (checkStop_of_cancelled hcancelled)]
      exact .fault .cancelled
    · rw [Attempt.bind_of_ok (checkStop_of_not hcancelled)]
      cases fault with
      | none => exact .halted nofun
      | some fault => exact .fault fault
  | cons i rest ih =>
    unfold executed runAll
    by_cases hcancelled : a.machine.cancelled = true
    · rw [Attempt.bind_of_error (checkStop_of_cancelled hcancelled), if_pos hcancelled]
      -- A cancelled run ends before its next instruction.
      exact .fault .cancelled
    · rw [Attempt.bind_of_ok (checkStop_of_not hcancelled), if_neg hcancelled, Attempt.bind_apply]
      rcases hstep : step linked s host input i a with ⟨e | output, a₁⟩
      · exact .failed hstep
      · cases output with
        | some output => exact .ended hstep
        | none => exact .more hstep (ih a₁)

theorem interpreter_trail (a : Active) :
    Trail linked s host input a (executed linked s host input (decode a.frame.code).1 a)
      (interpreter linked s host input a).1 (interpreter linked s host input a).2 := by
  have happly : interpreter linked s host input a =
      runAll linked s host input (decode a.frame.code).2 (decode a.frame.code).1 a := rfl
  rw [happly]
  exact runAll_trail _ _ _

/-- The instructions that a frame's code executes when it is run one level deeper. -/
def steps (linked : Bool) (s : Setting) (host : Host) (input : Bytes) (a : Active) :
    List (Instruction × Active) :=
  if a.machine.cancelled ∨ ¬ a.machine.depth + 1 < UInt64.size then []
  else executed linked s host input (decode a.frame.code).1 (a.atDepth (a.machine.depth + 1))

/-- **Every nested run has a trail.** -/
theorem nested_trail {r : Except CallError Bytes}
    (h : Running.nested (interpreter linked s host) input a = (r, a')) :
    ∃ a₁, Trail linked s host input (a.atDepth (a.machine.depth + 1))
      (steps linked s host input a) r a₁ ∧ a' = a₁.atDepth a.machine.depth := by
  -- The two checks before a nested run come first, and if one fails nothing is executed.
  by_cases hcancelled : a.machine.cancelled = true
  · rw [Running.nested_of_cancelled hcancelled] at h
    cases h
    refine ⟨a.atDepth (a.machine.depth + 1), ?_, rfl⟩
    rw [steps, if_pos (.inl hcancelled)]
    exact .fault .cancelled
  · by_cases hdepth : a.machine.depth + 1 < UInt64.size
    · -- The steps and the run are of the same start.
      rw [Running.nested_of_run hcancelled hdepth] at h
      cases h
      refine ⟨_, ?_, rfl⟩
      rw [steps, if_neg (by tauto)]
      exact interpreter_trail (a.atDepth (a.machine.depth + 1))
    · rw [Running.nested_of_depth hcancelled hdepth] at h
      cases h
      refine ⟨a.atDepth (a.machine.depth + 1), ?_, rfl⟩
      rw [steps, if_pos (.inr hdepth)]
      refine .halted fun _ he => ?_
      cases he
      exact .inr ⟨rfl, hdepth⟩

/-! ### What a run asks for -/

/-- The operations that a run has asked for, with the machines in which it did. -/
def requests (input : Bytes) (steps : List (Instruction × Active)) : List (Operation × Machine) :=
  steps.filterMap fun x => (x.1.request? input x.2).map fun op => (op, x.2.machine)

theorem requests_cons (input : Bytes) (x : Instruction × Active)
    (steps : List (Instruction × Active)) :
    requests input (x :: steps) = requests input [x] ++ requests input steps :=
  List.filterMap_append (l := [x])

theorem requests_of_none (h : i.request? input a = none) : requests input [(i, a)] = [] := by
  unfold requests
  rw [List.filterMap_cons_none]
  · rfl
  · rw [h]
    rfl

theorem requests_of_some (h : i.request? input a = some op) :
    requests input [(i, a)] = [(op, a.machine)] := by
  unfold requests
  rw [List.filterMap_cons_some (b := (op, a.machine))]
  · rfl
  · rw [h]
    rfl

theorem mem_requests {steps : List (Instruction × Active)} {m : Machine} :
    (op, m) ∈ requests input steps ↔
      ∃ i a, (i, a) ∈ steps ∧ i.request? input a = some op ∧ m = a.machine := by
  unfold requests
  rw [List.mem_filterMap]
  constructor
  · rintro ⟨⟨i, a⟩, hstep, hmap⟩
    obtain ⟨_, hrequest, heq⟩ := Option.map_eq_some_iff.mp hmap
    cases heq
    exact ⟨i, a, hstep, hrequest, rfl⟩
  · rintro ⟨i, a, hstep, hrequest, rfl⟩
    exact ⟨(i, a), hstep, Option.map_eq_some_iff.mpr ⟨op, hrequest, rfl⟩⟩

/-- A run that is not aborted has got an answer to everything that it has asked for. -/
theorem Trail.answered {steps : List (Instruction × Active)} {r : Except CallError Bytes}
    (hhost : ∀ op m e, (host op m).1 = .error e → Internal e)
    (h : Trail linked s host input a steps r a') (hr : ∀ e, r = .error e → ¬ Internal e) :
    ∀ x ∈ requests input steps, ∃ o m, host x.1 x.2 = (.ok o, m) := by
  rintro ⟨op, m⟩ hx
  obtain ⟨i, b, hstep, hrequest, rfl⟩ := mem_requests.mp hx
  clear hx
  -- All instructions but the last have gone on, and the last has been answered unless it aborted.
  induction h with
  | halted => exact absurd hstep List.not_mem_nil
  -- The instruction was the last one, and it has failed.
  | @failed _ _ _ e h =>
    cases List.mem_singleton.mp hstep
    obtain ⟨o, m, hhanded, -⟩ :=
      step_answered hhost hrequest h fun _ he => by cases he; exact hr e rfl
    exact ⟨o, m, hhanded⟩
  | ended h =>
    cases List.mem_singleton.mp hstep
    obtain ⟨o, m, hhanded, -⟩ := step_answered hhost hrequest h nofun
    exact ⟨o, m, hhanded⟩
  -- It is the first instruction, or a later one.
  | more h _ ih =>
    rcases List.mem_cons.mp hstep with heq | hstep
    · cases heq
      obtain ⟨o, m, hhanded, -⟩ := step_answered hhost hrequest h nofun
      exact ⟨o, m, hhanded⟩
    · exact ih hr hstep

/-! ### What a run may do -/

/-- What every instruction keeps is kept by a run, up to each of its instructions and to its end. -/
theorem Trail.keeps {P : Active → Active → Prop} [IsPreorder Active P]
    {steps : List (Instruction × Active)} {r : Except CallError Bytes}
    (hstep : ∀ i a, P a (step linked s host input i a).2)
    (h : Trail linked s host input a steps r a') : P a a' ∧ ∀ x ∈ steps, P a x.2 := by
  have hstep : ∀ {i a a'} {r : Except CallError (Option Bytes)},
      step linked s host input i a = (r, a') → P a a' := by
    intro i a a' r h
    have hkept := hstep i a
    rw [h] at hkept
    exact hkept
  have hrefl : ∀ a : Active, P a a := Std.Refl.refl
  -- By the steps, since each of them keeps `P`.
  induction h with
  | @halted a => exact ⟨hrefl a, fun _ hx => absurd hx List.not_mem_nil⟩
  | @failed a _ _ _ h =>
    refine ⟨hstep h, fun x hx => ?_⟩
    rw [List.mem_singleton.mp hx]
    exact hrefl a
  | @ended a _ _ _ h =>
    refine ⟨hstep h, fun x hx => ?_⟩
    rw [List.mem_singleton.mp hx]
    exact hrefl a
  | @more a _ _ _ _ _ h _ ih =>
    -- The first state is the start, and the others come after the first step.
    refine ⟨IsTrans.trans _ _ _ (hstep h) ih.1, fun x hx => ?_⟩
    rcases List.mem_cons.mp hx with rfl | hx
    · exact hrefl a
    · exact IsTrans.trans _ _ _ (hstep h) (ih.2 x hx)

section

variable [Ledger.Admits s.store R] {steps : List (Instruction × Active)}
  {r : Except CallError Bytes}

theorem Trail.moves (hhost : ∀ op, (host op).Meets (Machine.Moves R) Internal)
    (h : Trail linked s host input a steps r a') :
    a.Moves R a' ∧ ∀ x ∈ steps, a.Moves R x.2 :=
  h.keeps fun i a => (step_meets hhost i).keeps a

theorem Trail.error (hhost : ∀ op, (host op).Meets (Machine.Moves R) Internal)
    (h : Trail linked s host input a steps r a') : ∀ e, r = .error e → Halting e := by
  induction h with
  | halted h => exact fun e he => (h e he).imp_right And.left
  | failed h =>
    intro e he
    cases he
    exact (step_meets hhost _).error (congrArg Prod.fst h)
  | ended => exact nofun
  | more _ _ ih => exact ih

theorem interpreter_meets (hhost : ∀ op, (host op).Meets (Machine.Moves R) Internal)
    (input : Bytes) : (interpreter linked s host input).Meets (Active.Moves R) Halting where
  keeps a := ((interpreter_trail a).moves hhost).1
  error {a e} he := (interpreter_trail a).error hhost e he

end

end Script

end MessageCall
