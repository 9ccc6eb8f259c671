import MessageCall.Proofs.Dispatch.Depth
import MessageCall.Proofs.Dispatch.Identity
import MessageCall.Proofs.Dispatch.Refusals

/-!
# Recursion down to the limit

An account whose code is the one instruction `Instruction.recurse` calls itself, without value, as
deep as its input says and no deeper than the limit allows. All gas goes down from frame to frame
and all of it comes back. A frame at the limit still runs, and only what it asks for is refused.

On the way down nothing is written. The outermost call reads the caller's balance and the account
with its code (`Ledger.FindsCode`), and from then on everything is at hand, so that the calls below
leave the ledger literally as it is (`Ledger.FindsCode.again`).

One level is `Operation.comesBack_of_step`: what a call comes to is what the instruction of its
frame comes to, with one frame more. `Operation.comesBack_above` goes down to the limit and back up
by induction on the distance to it, and `Script.recursion_to_the_limit` reads off what is left at
the top.
-/

namespace MessageCall

open Attempt

/-! ### What a call without value reads -/

namespace Ledger

variable {store : Store} {caller target : Address} {code : Bytes} {l l' : Ledger}

/-- What a call without value reads, up to the code of its target, which is there. -/
def FindsCode (store : Store) (caller target : Address) (code : Bytes) (l l' : Ledger) : Prop :=
  ∃ balance l₁ l₂, Ledger.balance store caller l = (.ok balance, l₁) ∧
    Ledger.accountExists store target l₁ = (.ok true, l₂) ∧
    Ledger.code store target l₂ = (.ok code, l')

/-- All of it is read if each part of it is answered at the start. Nothing shows that it was. -/
theorem Sound.findsCode {balance : Word} (h : l.Sound store)
    (hbalance : (Ledger.balance store caller l).1 = .ok balance)
    (hexists : (Ledger.accountExists store target l).1 = .ok true)
    (hcode : (Ledger.code store target l).1 = .ok code) :
    ∃ l', FindsCode store caller target code l l' ∧ Untouched store l l' := by
  have hcaller := h.untouched_load caller
  have htarget := hcaller.trans ((h.after_load caller).untouched_load target)
  -- Each read leaves the answers to the ones after it as they were.
  have hread₁ : Ledger.balance store caller l = (.ok balance, (load store caller l).2) :=
    Prod.ext hbalance (snd_account_map _ l)
  have hread₂ : Ledger.accountExists store target (load store caller l).2 =
      (.ok true, (load store target (load store caller l).2).2) :=
    Prod.ext ((hcaller.accountExists target).trans hexists) (snd_load_map _ _)
  have hread₃ := apply_eq ((htarget.code target).trans hcode)
  exact ⟨_, ⟨balance, _, _, hread₁, hread₂, hread₃⟩,
    htarget.trans (((h.after_load caller).after_load target).untouched_code target)⟩

/-- **What has been read is at hand.** A call of the target by itself reads the same and leaves the
ledger as it is. -/
theorem FindsCode.again (h : FindsCode store caller target code l l') :
    FindsCode store target target code l' l' := by
  -- Once found, the account is cached and stays so.
  obtain ⟨_, l₁, l₂, -, hexists, hcode⟩ := h
  obtain ⟨x, l₂', hload, hfound⟩ := bind_eq_ok hexists
  obtain rfl : l₂ = l₂' := (congrArg Prod.snd hfound).symm
  have hpresent : x.present = true := Except.ok.inj (congrArg Prod.fst hfound)
  have hloaded : load store target l₂ = (.ok x, l₂) := load_of_cached (cached_of_load hload)
  -- Reading code does not touch the accounts.
  have hcurrent : l'.current = l₂.current := by
    unfold Ledger.code at hcode
    rw [bind_of_ok (codeHash_of_load hloaded)] at hcode
    exact (codeOf_again hcode).2
  have hcached : load store target l' = (.ok x, l') := by
    apply load_of_cached
    rw [hcurrent]
    exact cached_of_load hload
  refine ⟨x.info.balance, l', l', balance_of_load hcached, ?_, (code_again hcode).1⟩
  rw [accountExists_of_load hcached, hpresent]

end Ledger

/-! ### The operations in a tree -/

mutual

/-- The operations in a tree, each before the ones that its code has asked for. -/
def CallTree.nodes : CallTree → List CallNode
  | .node call children => call :: CallTree.nodesAll children

/-- The operations in some trees. -/
def CallTree.nodesAll : List CallTree → List CallNode
  | [] => []
  | t :: ts => t.nodes ++ CallTree.nodesAll ts

end

theorem CallTree.nodesAll_eq (ts : List CallTree) : nodesAll ts = ts.flatMap nodes := by
  induction ts with
  | nil => rfl
  | cons t ts ih => rw [nodesAll, ih, List.flatMap_cons]

theorem CallTree.nodes_eq (t : CallTree) : t.nodes = t.call :: t.children.flatMap nodes := by
  cases t with
  | node call children => rw [nodes, nodesAll_eq, CallTree.call, CallTree.children]

/-- The depth of the frame of an operation, if its code has been run. -/
def CallNode.depth? (s : Setting) (call : CallNode) : Option Nat :=
  (call.op.entry? s call.before).map fun a => a.frame.depth

/-! ### The recursion, level by level -/

/-- What a call comes to that all gas comes back from. -/
def Outcome.unspent (gas : Gas) (verdict : Verdict) : Outcome where
  result := { verdict, gasLimit := gas }

/-- A call by the code of a frame to its own account, with all of its gas, of which nothing is
used. -/
def ObservedCall.toItself (depth : Nat) (gas : Gas) (verdict : Verdict) : ObservedCall where
  callType := .call
  depth
  verdict
  gasLimit := gas
  gasLeft := gas
  address := none

/-- A part of the recursion, from some level down. -/
structure Descent where
  /-- What the frames have observed, newest first. -/
  calls : List ObservedCall
  /-- The depths of the frames, in the order in which they start. -/
  depths : List Nat
  /-- The verdicts on the operations, in the order in which they are asked for. -/
  verdicts : List Verdict

namespace Descent

/-- A call beyond the limit. -/
def refused : Descent where
  calls := []
  depths := []
  verdicts := [.revert .depthExceeded]

/-- A frame that is as deep as it should be. -/
def last (depth : Nat) : Descent where
  calls := []
  depths := [depth]
  verdicts := [.success]

/-- A frame that calls its account, with what comes of that. -/
def under (depth : Nat) (gas : Gas) (verdict : Verdict) (below : Descent) : Descent where
  calls := .toItself depth gas verdict :: below.calls
  depths := depth :: below.depths
  verdicts := .success :: below.verdicts

/-- **The recursion from some depth on**, down to the target or to the limit, whichever is nearer.
Beyond the limit there is one more call. -/
def downFrom (limit target : Nat) (gas : Gas) (depth : Nat) : Descent :=
  let below := min target limit - depth
  { calls := (List.range' depth below).map (fun d => .toItself d gas .success) ++
      if limit < target then [.toItself limit gas (.revert .depthExceeded)] else []
    depths := List.range' depth (below + 1)
    verdicts := List.replicate (below + 1) .success ++
      if limit < target then [.revert .depthExceeded] else [] }

variable {limit target depth : Nat} {gas : Gas}

theorem downFrom_target (h : ¬ depth < target) (hlimit : depth ≤ limit) :
    downFrom limit target gas depth = last depth := by
  have hnone : min target limit - depth = 0 := by omega
  have hwithin : ¬ limit < target := by omega
  unfold downFrom
  simp only [hnone, if_neg hwithin]
  rfl

theorem downFrom_limit (h : limit < target) :
    downFrom limit target gas limit = refused.under limit gas (.revert .depthExceeded) := by
  have hnone : min target limit - limit = 0 := by omega
  unfold downFrom
  simp only [hnone, if_pos h]
  rfl

theorem downFrom_above (h : depth < target) (hlimit : depth < limit) :
    downFrom limit target gas depth =
      (downFrom limit target gas (depth + 1)).under depth gas .success := by
  have hbelow : min target limit - depth = min target limit - (depth + 1) + 1 := by omega
  unfold downFrom
  simp only [hbelow]
  rfl

end Descent

section

variable {linked : Bool} {s : Setting} {levels : Nat} {m : Machine} {caller a : Address}
  {input : Bytes} {gas : Gas} {code : Bytes} {l : Ledger}

/-! ### Opening a call without value -/

/-- A frame that is about to run the code of the account on which it acts. -/
structure CallFrame.Ready (frame : CallFrame) (a : Address) (code : Bytes) (gas : Gas)
    (depth : Nat) : Prop where
  account : frame.account = a
  code : frame.code = code
  gasLimit : frame.gasLimit = gas
  gasUsed : frame.gasUsed = 0
  depth : frame.depth = depth

namespace Operation

/-- Past the entry check a call without value reads the code of its target. -/
theorem prepare_of_findsCode (hs : s.env.transfers = .balance) (caller : Address) (input : Bytes)
    (gas : Gas) {l₂ : Ledger}
    (hexists : Ledger.accountExists s.store a m.view.ledger = (.ok true, l₂))
    (hcode : Ledger.code s.store a l₂ = (.ok code, l)) :
    ∃ frame v, (Operation.call caller a input gas 0).prepare s m =
        (.ok (.started frame m.view.ledger.snapshot), { m with view := v }) ∧
      v.ledger = l ∧ frame.Ready a code gas m.depth := by
  -- The view after the snapshot and the look at the target.
  let found : View := ⟨l₂, .exists a :: .snapshot :: m.view.accesses⟩
  -- Nothing is moved.
  have htransfer : s.env.transfers.transfer s.store caller a 0 found = (.ok (), found) := by
    rw [hs]
    rfl
  obtain ⟨codeHash, v, hframe, hledger⟩ :=
    Exec.frameFor_of_code (m := { m with view := found }) hcode (callFrame caller a gas 0)
  have hready : (callFrame caller a gas 0 code codeHash m.depth).Ready a code gas m.depth :=
    ⟨rfl, rfl, rfl, rfl, rfl⟩
  refine ⟨_, v, ?_, hledger, hready⟩
  -- Neither the target nor the payment stands in the way of the frame.
  rw [prepare_call_of_found input gas hexists htransfer]
  exact bind_of_ok hframe

/-- **Opening a call without value**, at a level that the limit allows. -/
theorem opening_of_findsCode (hs : s.env.transfers = .balance)
    (hrecursion : s.limits.noRecursion = false)
    (hdepth : m.depth ≤ s.limits.maxCallDepth.toNat) (input : Bytes) (gas : Gas)
    (h : Ledger.FindsCode s.store caller a code m.view.ledger l) :
    ∃ frame snapshot v, (Operation.call caller a input gas 0).opening s m =
        (.ok (.started frame snapshot), { m with view := v }) ∧
      v.ledger = l ∧ frame.Ready a code gas m.depth := by
  obtain ⟨balance, l₁, l₂, hbalance, hexists, hcode⟩ := h
  let asked : View := ⟨l₁, .read caller :: m.view.accesses⟩
  -- Whatever the caller has, it is enough for sending nothing.
  have hallows : s.env.transfers.allows s.store caller 0 m.view = (.ok true, asked) := by
    have hread : View.balance s.store caller m.view = (.ok balance, asked) :=
      View.watched_apply hbalance (.read caller)
    rw [hs]
    show (View.balance s.store caller >>= fun balance => pure (decide (0 ≤ balance))) m.view = _
    rw [bind_of_ok hread, decide_eq_true (show 0 ≤ balance from Nat.zero_le balance.toNat)]
    rfl
  have hbarred : ¬ Barred s m := by
    intro hbarred
    rw [Barred, hrecursion] at hbarred
    cases hbarred.1
  have hasked : (Operation.call caller a input gas 0).Asked s m caller 0 true asked :=
    ⟨hbarred, Nat.not_lt.mpr hdepth, rfl, hallows⟩
  obtain ⟨frame, v, hprepare, hledger, hready⟩ :=
    prepare_of_findsCode (m := { m with view := asked }) hs caller input gas hexists hcode
  refine ⟨frame, l₁.snapshot, v, ?_, hledger, hready⟩
  unfold opening
  rw [bind_of_ok hasked.refusal?_eq]
  exact hprepare

end Operation

/-! ### Running the one instruction -/

/-- The machine after one more call has been observed. -/
def Machine.noting (call : ObservedCall) (m : Machine) : Machine :=
  { m with observed := { m.observed with calls := call :: m.observed.calls } }

namespace CallFrame.Ready

variable {frame : CallFrame} {depth : Nat}

/-- Whoever asks for all gas gets all there is. -/
theorem granted (h : frame.Ready a code gas depth) : frame.granted Script.allGas = gas := by
  have hleft : frame.gasLeft = gas := by
    rw [gasLeft, h.gasLimit, h.gasUsed, Gas.left_zero]
  have hle : gas.toNat ≤ Script.allGas.toNat := Nat.le_of_lt_succ gas.toNat_lt
  unfold CallFrame.granted
  rw [hleft]
  show (if Script.allGas ≤ gas then Script.allGas else gas) = gas
  split
  · next hge => exact UInt64.le_antisymm hge (UInt64.le_iff_toNat_le.mpr hle)
  · rfl

/-- Getting back what was paid leaves the frame as it was. -/
theorem refund_paid (h : frame.Ready a code gas depth) : (frame.paid gas).refund gas = frame := by
  have hused : Gas.left (frame.gasUsed + gas) gas = frame.gasUsed := by
    rw [h.gasUsed, UInt64.zero_add, Gas.left_self]
  unfold refund paid
  rw [hused]

end CallFrame.Ready

namespace Script

variable {host : Host} {b b' : Active} {depth : Nat}

/-- A frame above the target asks for a call to itself, with all of its gas. -/
theorem request?_of_ready (h : b.frame.Ready a code gas depth)
    (hdepth : depth < targetDepth input) :
    Instruction.recurse.request? input b = some (.call a a input gas 0) := by
  unfold Instruction.request?
  rw [h.depth, if_pos hdepth, h.account, h.granted]

/-- A frame at the target asks for nothing. -/
theorem request?_of_deepest (h : b.frame.Ready a code gas depth)
    (hdepth : ¬ depth < targetDepth input) : Instruction.recurse.request? input b = none := by
  unfold Instruction.request?
  rw [h.depth, if_neg hdepth]

/-- **Going one level down**, if all gas comes back from there. -/
theorem step_down (h : b.frame.Ready a code gas depth) (hdepth : depth < targetDepth input)
    {verdict : Verdict} {m' : Machine}
    (hhost : host (.call a a input gas 0) b.machine = (.ok (.unspent gas verdict), m')) :
    step linked s host input .recurse b =
      (.ok none, ⟨b.frame, m'.noting (.toItself depth gas verdict)⟩) := by
  have hleft : (Outcome.unspent gas verdict).result.gasLeft = gas := Gas.left_zero gas
  have hobserved : (observeCall .call (.unspent gas verdict) ⟨b.frame, m'⟩).2 =
      ⟨b.frame, m'.noting (.toItself depth gas verdict)⟩ := by
    show (⟨b.frame, m'.noting
      ⟨.call, b.frame.depth, verdict, gas, (Outcome.unspent gas verdict).result.gasLeft, none⟩⟩ :
        Active) = _
    rw [h.depth, hleft]
    rfl
  rw [step_request (request?_of_ready h hdepth), hhost]
  show (Except.ok none, (observeCall .call (.unspent gas verdict)
    ⟨(b.frame.paid gas).refund (Outcome.unspent gas verdict).result.gasLeft, m'⟩).2) = _
  rw [hleft, h.refund_paid, hobserved]

/-- The run of the one instruction, and what it has executed. -/
theorem interpreter_of_step (hcode : b.frame.code = encode [.recurse])
    (hcancelled : b.machine.cancelled = false)
    (hstep : step linked s host input .recurse b = (.ok none, b'))
    (hcancelled' : b'.machine.cancelled = false) :
    interpreter linked s host input b = (.ok [], b') ∧
      executed linked s host input (decode b.frame.code).1 b = [(.recurse, b)] := by
  have hgo : ∀ {c : Active}, c.machine.cancelled = false → checkStop c = (.ok (), c) := by
    intro c hc
    exact checkStop_of_not (Bool.eq_false_iff.mp hc)
  -- The code is that one instruction, followed by its end.
  have hdecode : decode b.frame.code = ([.recurse], none) := by
    rw [hcode]
    rfl
  -- The run looks at the flag twice, before the instruction and at the end.
  constructor
  · show runAll linked s host input (decode b.frame.code).2 (decode b.frame.code).1 b = _
    rw [hdecode]
    unfold runAll
    rw [bind_of_ok (hgo hcancelled), bind_of_ok hstep]
    show (checkStop >>= fun _ => pure []) b' = _
    rw [bind_of_ok (hgo hcancelled')]
    rfl
  · rw [hdecode]
    unfold executed
    rw [if_neg (Bool.eq_false_iff.mp hcancelled), hstep]
    rfl

end Script

/-! ### Coming back -/

/-- On the way these calls have been observed, the ledger has become this one, and nobody has asked
for a stop. -/
structure Machine.CameBack (l : Ledger) (calls : List ObservedCall) (m m' : Machine) : Prop where
  ledger : m'.view.ledger = l
  cancelled : m'.cancelled = false
  calls : m'.observed.calls = calls ++ m.observed.calls

/-- The operations in some trees are as they should be. -/
structure Descent.Shows (s : Setting) (gas : Gas) (d : Descent) (ts : List CallTree) : Prop where
  depths : (ts.flatMap CallTree.nodes).filterMap (CallNode.depth? s) = d.depths
  results : (ts.flatMap CallTree.nodes).map CallNode.result =
    d.verdicts.map fun verdict => .ok (.unspent gas verdict)

/-- A call of the recursion **comes back** with all gas. -/
structure Operation.ComesBack (linked : Bool) (s : Setting) (levels : Nat) (op : Operation)
    (m : Machine) (gas : Gas) (verdict : Verdict) (l : Ledger) (d : Descent) : Prop where
  outcome : (Script.host linked s levels op m).1 = .ok (.unspent gas verdict)
  machine : m.CameBack l d.calls (Script.host linked s levels op m).2
  tree : d.Shows s gas [op.tree linked s levels m]

/-- The one instruction of a frame **comes back** to it, and the run goes on. -/
structure Script.StepsBack (linked : Bool) (s : Setting) (levels : Nat) (input : Bytes)
    (gas : Gas) (l : Ledger) (d : Descent) (b b' : Active) : Prop where
  step : step linked s (host linked s levels) input .recurse b = (.ok none, b')
  frame : b'.frame = b.frame
  machine : b.machine.CameBack l d.calls b'.machine
  trees : d.Shows s gas ((requests input [(.recurse, b)]).map fun x =>
    x.1.tree linked s levels x.2)

namespace Operation

/-- **One level.** A call of the recursion comes back if the one instruction of its frame does. -/
theorem comesBack_of_step (hs : s.env.transfers = .balance)
    (hrecursion : s.limits.noRecursion = false)
    (hroom : s.limits.maxCallDepth.toNat + 1 < UInt64.size)
    (hdepth : m.depth ≤ s.limits.maxCallDepth.toNat) (hcancelled : m.cancelled = false)
    (hreads : Ledger.FindsCode s.store caller a (Script.encode [.recurse]) m.view.ledger l)
    {d : Descent}
    (hstep : ∀ b : Active, b.frame.Ready a (Script.encode [.recurse]) gas m.depth →
      b.machine.depth = m.depth + 1 → b.machine.cancelled = false → b.machine.view.ledger = l →
        ∃ b', Script.StepsBack linked s levels input gas l d b b') :
    (Operation.call caller a input gas 0).ComesBack linked s (levels + 1) m gas .success l
      { d with depths := m.depth :: d.depths, verdicts := .success :: d.verdicts } := by
  -- The frame opens on the ledger in which the code has been found.
  let op : Operation := .call caller a input gas 0
  obtain ⟨frame, snapshot, v, hopen, rfl, hready⟩ :=
    opening_of_findsCode (m := op.entered m) hs hrecursion hdepth input gas hreads
  let b : Active := Active.atDepth (m.depth + 1) ⟨frame, { op.entered m with view := v }⟩
  -- In it runs the one instruction, which comes back.
  obtain ⟨b', hback⟩ := hstep b hready rfl hcancelled rfl
  obtain ⟨hrun, hexecuted⟩ := Script.interpreter_of_step hready.code hcancelled hback.step
    hback.machine.cancelled
  have hstarts : ¬ (m.cancelled = true ∨ ¬ m.depth + 1 < UInt64.size) :=
    not_or.mpr ⟨Bool.eq_false_iff.mp hcancelled, by omega⟩
  have hentry : op.entry? s m = some b := (entry?_of_started hopen).trans (if_neg hstarts)
  have hop : op.callType ≠ .create := nofun
  obtain ⟨tracer, hhost⟩ := host_of_entry hop hentry hrun
  -- The frame has got back all that it has paid.
  have houtcome : (Script.host linked s (levels + 1) op m).1 = .ok (.unspent gas .success) := by
    have hlimit : b'.frame.gasLimit = gas := hback.frame ▸ hready.gasLimit
    have hused : b'.frame.gasUsed = 0 := hback.frame ▸ hready.gasUsed
    rw [hhost, CallResult.success, hlimit, hused]
    rfl
  -- The nodes are the call itself and those of what it asks for, in this order.
  have hnodes : [op.tree linked s (levels + 1) m].flatMap CallTree.nodes =
      (op.tree linked s (levels + 1) m).call ::
        ((Script.requests input [(.recurse, b)]).map fun x =>
          x.1.tree linked s levels x.2).flatMap CallTree.nodes := by
    rw [List.flatMap_singleton, CallTree.nodes_eq, children_of_entry linked levels hentry,
      ← hexecuted]
    rfl
  have hdepths : (op.tree linked s (levels + 1) m).call.depth? s = some m.depth := by
    rw [CallNode.depth?, tree_op, tree_before, hentry, Option.map_some]
    exact congrArg some hready.depth
  refine ⟨houtcome, ?_, ?_, ?_⟩
  · show m.CameBack _ _ (Script.host linked s (levels + 1) op m).2
    rw [hhost]
    exact ⟨hback.machine.ledger, hback.machine.cancelled, hback.machine.calls⟩
  · rw [hnodes, List.filterMap_cons_some hdepths, hback.trees.depths]
  · rw [hnodes, List.map_cons, hback.trees.results, List.map_cons]
    exact congrArg (· :: _) houtcome

/-- A call beyond the limit comes back from the entry check. -/
theorem comesBack_of_tooDeep (hrecursion : s.limits.noRecursion = false)
    (hdepth : s.limits.maxCallDepth.toNat < m.depth) (hcancelled : m.cancelled = false)
    (linked : Bool) (levels : Nat) (caller a : Address) (input : Bytes) (gas : Gas) :
    (Operation.call caller a input gas 0).ComesBack linked s (levels + 1) m gas
      (.revert .depthExceeded) m.view.ledger .refused := by
  let op : Operation := .call caller a input gas 0
  have hopen := opening_of_depth hrecursion hdepth op
  obtain ⟨houtcome, -, hrun⟩ := host_of_depth hrecursion hdepth linked levels op
  -- No frame was entered, so there is nothing below.
  have hentry : op.entry? s m = none := entry?_of_unstarted hopen fun _ _ heq => by cases heq
  have hnodes : [op.tree linked s (levels + 1) m].flatMap CallTree.nodes =
      [(op.tree linked s (levels + 1) m).call] := by
    rw [List.flatMap_singleton, CallTree.nodes_eq, children_of_finished hrun]
    rfl
  have hdepths : (op.tree linked s (levels + 1) m).call.depth? s = none := by
    rw [CallNode.depth?, tree_op, tree_before, hentry, Option.map_none]
  -- Of the machine only the trace is different.
  obtain ⟨_, -, hperform⟩ : op.Stops s m (.revert .depthExceeded) m.view :=
    stops_of_opening hopen
  have hafter : (Script.host linked s (levels + 1) op m).2 = _ := congrArg Prod.snd (hperform _)
  refine ⟨houtcome, ?_, ?_, ?_⟩
  · rw [hafter]
    exact ⟨rfl, hcancelled, rfl⟩
  · rw [hnodes, List.filterMap_cons_none hdepths]
    rfl
  · rw [hnodes, List.map_cons]
    exact congrArg ([·]) houtcome

end Operation

namespace Script

variable {b : Active} {depth : Nat} {d : Descent} {verdict : Verdict}

/-- At the target nothing is asked for. -/
theorem stepsBack_of_deepest (linked : Bool) (s : Setting) (levels : Nat)
    (h : b.frame.Ready a code gas depth) (hdepth : ¬ depth < targetDepth input)
    (hcancelled : b.machine.cancelled = false) (hledger : b.machine.view.ledger = l) :
    StepsBack linked s levels input gas l ⟨[], [], []⟩ b b := by
  have hrequest := request?_of_deepest h hdepth
  refine ⟨step_recurse hrequest, rfl, ⟨hledger, hcancelled, rfl⟩, ?_⟩
  rw [requests_of_none hrequest]
  exact ⟨rfl, rfl⟩

/-- Above the target the frame gets back what comes back from below. -/
theorem stepsBack_of_below (h : b.frame.Ready a code gas depth) (hdepth : depth < targetDepth input)
    (hbelow : (Operation.call a a input gas 0).ComesBack linked s levels b.machine gas verdict l
      d) :
    ∃ b', StepsBack linked s levels input gas l
      { d with calls := .toItself depth gas verdict :: d.calls } b b' := by
  have hhost := Attempt.apply_eq hbelow.outcome
  refine ⟨_, step_down h hdepth hhost, rfl, ⟨?_, ?_, ?_⟩, ?_⟩
  · exact hbelow.machine.ledger
  · exact hbelow.machine.cancelled
  · exact congrArg (_ :: ·) hbelow.machine.calls
  · rw [requests_of_some (request?_of_ready h hdepth)]
    exact ⟨hbelow.tree.depths, hbelow.tree.results⟩

end Script

section

variable (hs : s.env.transfers = .balance) (hrecursion : s.limits.noRecursion = false)
  (hroom : s.limits.maxCallDepth.toNat + 1 < UInt64.size)

include hs hrecursion hroom

namespace Operation

/-- The level of a frame that is as deep as it should be. -/
theorem comesBack_last (linked : Bool) (levels : Nat) (gas : Gas)
    (hdepth : m.depth ≤ s.limits.maxCallDepth.toNat) (hcancelled : m.cancelled = false)
    (hreads : Ledger.FindsCode s.store caller a (Script.encode [.recurse]) m.view.ledger l)
    (hdeepest : ¬ m.depth < Script.targetDepth input) :
    (Operation.call caller a input gas 0).ComesBack linked s (levels + 1) m gas .success l
      (.last m.depth) := by
  apply comesBack_of_step (d := ⟨[], [], []⟩) hs hrecursion hroom hdepth hcancelled hreads
  intro b hready _ hcancelled hledger
  exact ⟨b, Script.stepsBack_of_deepest linked s levels hready hdeepest hcancelled hledger⟩

/-- The level of a frame that goes further down, over what comes back from there. -/
theorem comesBack_under {verdict : Verdict} {d : Descent}
    (hdepth : m.depth ≤ s.limits.maxCallDepth.toNat) (hcancelled : m.cancelled = false)
    (hreads : Ledger.FindsCode s.store caller a (Script.encode [.recurse]) m.view.ledger l)
    (hdown : m.depth < Script.targetDepth input)
    (hbelow : ∀ m' : Machine, m'.depth = m.depth + 1 → m'.cancelled = false →
      m'.view.ledger = l →
        (Operation.call a a input gas 0).ComesBack linked s levels m' gas verdict l d) :
    (Operation.call caller a input gas 0).ComesBack linked s (levels + 1) m gas .success l
      (d.under m.depth gas verdict) := by
  apply comesBack_of_step (d := { d with calls := .toItself m.depth gas verdict :: d.calls })
    hs hrecursion hroom hdepth hcancelled hreads
  intro b hready hlevel hcancelled hledger
  exact Script.stepsBack_of_below hready hdown (hbelow b.machine hlevel hcancelled hledger)

/-- **Down to the limit and back up.** A call at a level that the limit allows comes back, from
wherever the recursion has got to. -/
theorem comesBack_above (linked : Bool) (input : Bytes) (gas : Gas) (above : Nat) {m : Machine}
    {caller : Address} (hdepth : m.depth + above = s.limits.maxCallDepth.toNat)
    (hcancelled : m.cancelled = false)
    (hreads : Ledger.FindsCode s.store caller a (Script.encode [.recurse]) m.view.ledger l) :
    (Operation.call caller a input gas 0).ComesBack linked s (above + 2) m gas .success l
      (.downFrom s.limits.maxCallDepth.toNat (Script.targetDepth input) gas m.depth) := by
  -- The induction is on how far away the limit is, which is how many frames there can be below.
  induction above generalizing m caller with
  | zero =>
    have hlimit : m.depth = s.limits.maxCallDepth.toNat := hdepth
    by_cases hdown : m.depth < Script.targetDepth input
    · rw [← hlimit, Descent.downFrom_limit hdown]
      refine comesBack_under hs hrecursion hroom hlimit.le hcancelled hreads hdown ?_
      rintro m' hdepth' hcancelled' rfl
      have hbeyond : s.limits.maxCallDepth.toNat < m'.depth := by omega
      exact comesBack_of_tooDeep hrecursion hbeyond hcancelled' linked 0 a a input gas
    · rw [Descent.downFrom_target hdown hlimit.le]
      exact comesBack_last hs hrecursion hroom linked 1 gas hlimit.le hcancelled hreads hdown
  | succ above ih =>
    have hwithin : m.depth < s.limits.maxCallDepth.toNat := by omega
    by_cases hdown : m.depth < Script.targetDepth input
    · rw [Descent.downFrom_above hdown hwithin]
      refine comesBack_under hs hrecursion hroom hwithin.le hcancelled hreads hdown ?_
      rintro m' hdepth' hcancelled' rfl
      rw [← hdepth']
      -- The account calls itself from now on, and all that is read has been read.
      exact ih (by omega) hcancelled' hreads.again
    · rw [Descent.downFrom_target hdown hwithin.le]
      exact comesBack_last hs hrecursion hroom linked _ gas hwithin.le hcancelled hreads hdown

end Operation

end

end

/-- The input says how deep to go. -/
theorem Script.targetDepth_recursionTarget (target : UInt64) :
    targetDepth (recursionTarget target) = target.toNat := by
  have hlength : (recursionTarget target).length = 8 := length_bigEndian _ _
  have hspan : target.toNat < span 8 := target.toNat_lt
  unfold targetDepth
  rw [if_pos hlength.ge, List.take_of_length_le hlength.le, recursionTarget, ofBigEndian_bigEndian,
    Nat.mod_eq_of_lt hspan]

/-- **Recursion down to the limit.** Where operations may be nested and balances decide about
transfers, an account with the code of the one instruction is called from outside with any amount
of gas, and told to go to any depth. The call succeeds without output and has used no gas. One frame
has run at each depth down to the target or to the limit, whichever is nearer, and each of the
operations has succeeded but for one more beyond the limit, if the target is there. That one is
refused, and gives back all of the gas too. The calls have been observed the deepest first. Nothing
shows in the ledger, and the nesting level is zero again. -/
theorem Script.recursion_to_the_limit (linked : Bool) (s : Setting) (caller a : Address)
    (target : UInt64) (gas : Gas) {m : Machine} {balance : Word}
    (hs : s.env.transfers = .balance) (hrecursion : s.limits.noRecursion = false)
    (hroom : s.limits.maxCallDepth.toNat + 1 < UInt64.size) (hdepth : m.depth = 0)
    (hcancelled : m.cancelled = false) (hm : m.view.ledger.Reachable s.store)
    (hbalance : (Ledger.balance s.store caller m.view.ledger).1 = .ok balance)
    (hexists : (Ledger.accountExists s.store a m.view.ledger).1 = .ok true)
    (hcode : (Ledger.code s.store a m.view.ledger).1 = .ok (encode [.recurse])) :
    let op : Operation := .call caller a (recursionTarget target) gas 0
    let done := (dispatcher linked s).perform op m
    let operations := (callTree linked s op m).nodes
    let limit := s.limits.maxCallDepth.toNat
    let nested := min target.toNat limit
    done.1 = .ok { result := {
      verdict := .success, gasLimit := gas, gasUsed := 0, output := [] } } ∧
      operations.filterMap (CallNode.depth? s) = List.range (nested + 1) ∧
      operations.map CallNode.result =
        List.replicate (nested + 1) (.ok (.unspent gas .success)) ++
          (if limit < target.toNat then [.ok { result := .refused gas .depthExceeded }] else []) ∧
      done.2.observed.calls.reverse = m.observed.calls.reverse ++
        (if limit < target.toNat then [.toItself limit gas (.revert .depthExceeded)] else []) ++
          (List.range nested).reverse.map (fun depth => .toItself depth gas .success) ∧
      Ledger.Untouched s.store m.view.ledger done.2.view.ledger ∧ done.2.depth = 0 := by
  intro op done operations limit nested
  obtain ⟨l, hreads, huntouched⟩ := hm.sound.findsCode hbalance hexists hcode
  have hlimit : m.depth + limit = limit := by rw [hdepth, Nat.zero_add]
  -- Going down from the top comes back, one level for each frame.
  have hback := Operation.comesBack_above hs hrecursion hroom linked (recursionTarget target) gas
    limit hlimit hcancelled hreads
  rw [targetDepth_recursionTarget, hdepth] at hback
  refine ⟨hback.outcome, ?_, ?_, ?_, ?_, ?_⟩
  · -- The depths are counted from zero up.
    have hdepths := hback.tree.depths
    rw [List.flatMap_singleton] at hdepths
    rw [List.range_eq_range']
    exact hdepths
  · -- Every call succeeded, but for a last one that was refused.
    have hresults := hback.tree.results
    rw [List.flatMap_singleton] at hresults
    refine hresults.trans ?_
    show List.map _ (List.replicate (nested + 1) Verdict.success ++
      if limit < target.toNat then [Verdict.revert .depthExceeded] else []) = _
    rw [List.map_append, List.map_replicate, apply_ite (List.map _)]
    rfl
  · -- The calls are observed as they return, the innermost first.
    have hcalls : done.2.observed.calls =
        ((List.range' 0 nested).map (fun depth => ObservedCall.toItself depth gas .success) ++
          if limit < target.toNat then [.toItself limit gas (.revert .depthExceeded)] else []) ++
            m.observed.calls := hback.machine.calls
    rw [hcalls, List.reverse_append, List.reverse_append, apply_ite List.reverse,
      ← List.range_eq_range', ← List.map_reverse, ← List.append_assoc]
    rfl
  · -- What is left has only read the code of the account.
    have hledger : done.2.view.ledger = l := hback.machine.ledger
    rw [hledger]
    exact huntouched
  · exact (host_depth linked s _ op m).trans hdepth

/-- A world in which all accounts have the code of the one instruction, and frames may be nested
twice. -/
def Setting.recursive : Setting where
  store := .uniform (Script.encode [.recurse])
  chain := default
  limits := { maxCallDepth := 2 }

/-- A call that is told to go a level further than the limit allows. -/
theorem Script.recursion_to_the_limit_sample :
    let op : Operation := .call 1 2 (recursionTarget 3) 100 0
    let done := (dispatcher true .recursive).perform op {}
    let operations := (callTree true .recursive op {}).nodes
    done.1 = .ok { result := {
      verdict := .success, gasLimit := 100, gasUsed := 0, output := [] } } ∧
      operations.filterMap (CallNode.depth? .recursive) = [0, 1, 2] ∧
      operations.map CallNode.result = List.replicate 3 (.ok (.unspent 100 .success)) ++
        [.ok { result := .refused 100 .depthExceeded }] ∧
      done.2.observed.calls.reverse = [.toItself 2 100 (.revert .depthExceeded),
        .toItself 1 100 .success, .toItself 0 100 .success] ∧
      Ledger.Untouched Setting.recursive.store {} done.2.view.ledger ∧ done.2.depth = 0 :=
  @recursion_to_the_limit true .recursive 1 2 3 100 {} 0 rfl rfl (by decide) rfl rfl .new
    (by decide +kernel) (by decide +kernel) (by decide +kernel)

end MessageCall
