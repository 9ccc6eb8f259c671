import MessageCall.Proofs.Dispatch.CallTree
import MessageCall.Proofs.Lockstep

/-!
# Operations in lockstep

Two machines in which the same operation is carried out may differ: in what is recorded, in the
kind of operation that the running frame stems from, and in the ledger, as far as nothing that an
operation does to a ledger tells the difference. `Machine.Alike g V` says that they differ in no
more. Frames count as the same if `g` takes their kinds for one, and what ledgers have in common is
left to the relation `V` of views.

What is asked of `V` is `Setting.Lockstep`: every access that operations make must end alike on
related views. Going back is the exception, since snapshots are positions in journals and the
journals may differ. So there is a family of relations, and when a snapshot is taken, one of them
must hold from then on under which going back to the one snapshot and to the other are alike.

From this it follows along the text of the dispatcher and of running code that every operation has
the same result in alike machines and leaves alike machines, at every level (`Script.host_uniform`).
The operations that its code asks for are the same too, with the same results, down to the last
level (`Operation.tree_alike`).
-/

namespace MessageCall

open Attempt

/-! ### What machines may differ in -/

/-- The frames are the same, but for kinds that `g` takes for one. -/
def CallFrame.Alike (g : CallType → CallType) (f f' : CallFrame) : Prop :=
  ∃ kind, g kind = g f.callType ∧ f' = { f with callType := kind }

/-- What was observed, with the kinds of frames as far as `g` tells them apart. -/
def Observations.blurred (g : CallType → CallType) (o : Observations) : Observations :=
  { o with frames := o.frames.map fun f => { f with callType := g f.callType } }

/-- Two machines with related views are otherwise the same, except for what their tracers hold and
for kinds of frames that were observed. -/
structure Machine.Alike (g : CallType → CallType) (V : View → View → Prop) (m m' : Machine) :
    Prop where
  view : V m.view m'.view
  depth : m.depth = m'.depth
  cancelled : m.cancelled = m'.cancelled
  observed : m.observed.blurred g = m'.observed.blurred g

/-- The same of running code. -/
structure Active.Alike (g : CallType → CallType) (V : View → View → Prop) (a a' : Active) :
    Prop where
  frame : a.frame.Alike g a'.frame
  machine : a.machine.Alike g V a'.machine

/-- Two operations are the same, or delegate the same on behalf of frames that are. -/
inductive Operation.Alike (g : CallType → CallType) : Operation → Operation → Prop
  | same (op : Operation) : Alike g op op
  | delegateCall {parent parent' : CallFrame} (h : parent.Alike g parent') (target : Address)
    (input : Bytes) (gas : Gas) :
    Alike g (.delegateCall parent target input gas) (.delegateCall parent' target input gas)

/-- Two trees are of the same operations with the same results. -/
inductive CallTree.Alike (g : CallType → CallType) : CallTree → CallTree → Prop
  | node {call call' : CallNode} {children children' : List CallTree}
    (op : call.op.Alike g call'.op) (result : call.result = call'.result)
    (rest : List.Forall₂ (CallTree.Alike g) children children') :
    Alike g (.node call children) (.node call' children')

/-! ### What is asked of views -/

/-- The accesses of which operations are made, but for snapshots and going back. -/
inductive Setting.Uses (s : Setting) : {α : Type} → View.Step α → Prop
  | accountExists (a : Address) : s.Uses (View.accountExists s.store a)
  | createAccount (a : Address) : s.Uses (View.createAccount s.store a)
  | balance (a : Address) : s.Uses (View.balance s.store a)
  | nonce (a : Address) : s.Uses (View.nonce s.store a)
  | codeHash (a : Address) : s.Uses (View.codeHash s.store a)
  | code (a : Address) : s.Uses (View.code s.store a)
  | setNonce (a : Address) (value : UInt64) : s.Uses (View.setNonce s.store a value)
  | setCode (a : Address) (code : Bytes) : s.Uses (View.setCode s.store a code)
  | setSlot (a : Address) (key : Hash) (value : Word) : s.Uses (View.setSlot s.store a key value)
  | allows (a : Address) (value : Word) : s.Uses (s.env.transfers.allows s.store a value)
  | transfer (a b : Address) (value : Word) : s.Uses (s.env.transfers.transfer s.store a b value)

/-- Under the relation `W`, which is within `V`, going back to two snapshots is alike. -/
structure View.Returns (V W : View → View → Prop) (n n' : Ledger.Snapshot) : Prop where
  within : ∀ {v v'}, W v v' → V v v'
  back : (View.revertTo n).Mirrors W Eq (View.revertTo n')

/-- **Related views cannot be told apart** by anything that operations do. -/
structure Setting.Lockstep {ι : Type} (s : Setting) (V : ι → View → View → Prop) : Prop where
  uses : ∀ (i : ι) {α : Type} {x : View.Step α}, s.Uses x → x.Mirrors (V i) Eq x
  snapshot : ∀ {i : ι} {v v' : View}, V i v v' → ∃ j,
    V j (View.snapshot v).2 (View.snapshot v').2 ∧
      View.Returns (V i) (V j) v.ledger.snapshot v'.ledger.snapshot

section

variable {ι : Type} {g : CallType → CallType} {V : ι → View → View → Prop} {i : ι}
  {W : View → View → Prop} {linked : Bool} {s : Setting} {op op' : Operation} {m m' : Machine}
  {a a' : Active} {run : Runner} {α : Type}

namespace CallFrame.Alike

variable {f f' : CallFrame}

theorem refl (f : CallFrame) : f.Alike g f := ⟨f.callType, rfl, rfl⟩

theorem paid (h : f.Alike g f') (gas : Gas) : (f.paid gas).Alike g (f'.paid gas) := by
  obtain ⟨kind, hkind, rfl⟩ := h
  exact ⟨kind, hkind, rfl⟩

theorem refund (h : f.Alike g f') (gas : Gas) : (f.refund gas).Alike g (f'.refund gas) := by
  obtain ⟨kind, hkind, rfl⟩ := h
  exact ⟨kind, hkind, rfl⟩

theorem charge? (h : f.Alike g f') (gas : Gas) :
    Option.Rel (CallFrame.Alike g) (f.charge? gas) (f'.charge? gas) := by
  obtain ⟨kind, hkind, rfl⟩ := h
  unfold CallFrame.charge?
  show Option.Rel _ (if gas ≤ f.gasLeft then _ else none) (if gas ≤ f.gasLeft then _ else none)
  split
  · exact .some ⟨kind, hkind, rfl⟩
  · exact .none

theorem charge (h : f.Alike g f') (gas : Gas) :
    Ends (CallFrame.Alike g) (f.charge gas) (f'.charge gas) := by
  have hcharge := h.charge? gas
  unfold CallFrame.charge
  generalize f.charge? gas = paid at hcharge ⊢
  generalize f'.charge? gas = paid' at hcharge ⊢
  cases hcharge with
  | some h => exact .ok h
  | none => exact .error _

end CallFrame.Alike

/-! ### The dispatcher -/

namespace Exec

/-- A step of the dispatcher that does not tell alike machines apart. -/
abbrev Uniform (g : CallType → CallType) (W : View → View → Prop) (x : Exec α) : Prop :=
  x.Mirrors (Machine.Alike g W) Eq x

theorem view_mirrors {x y : View.Step α} (h : x.Mirrors W Eq y) :
    (Exec.view x).Mirrors (Machine.Alike g W) Eq (Exec.view y) :=
  (h.inside (fun _ _ h => h.view)
    fun _ _ _ _ h hview => ⟨hview, h.depth, h.cancelled, h.observed⟩).mapError _

variable (hV : s.Lockstep V)

include hV

theorem view_uniform {x : View.Step α} (hx : s.Uses x) : (Exec.view x).Uniform g (V i) :=
  view_mirrors (hV.uses i hx)

theorem refusal?_uniform (caller : Address) (value : Option Word) (gas : Gas) (detailed : Bool) :
    (refusal? s caller value gas detailed).Uniform g (V i) := by
  refine .look fun m m' h => ?_
  rw [h.depth]
  refine .ite (.pure rfl) (.ite (.pure rfl) ?_)
  cases value with
  | none => exact .pure rfl
  | some value =>
    refine .bind (view_uniform hV (.allows _ _)) fun allowed => .ite (.pure rfl) ?_
    exact .ite (.bind (view_uniform hV (.balance _)) fun _ => .pure rfl) (.pure rfl)

theorem prepareTarget_uniform (target : Address) (value : Word) :
    (prepareTarget s target value).Uniform g (V i) := by
  refine .bind (view_uniform hV (.accountExists _)) fun found =>
    .ite (.pure rfl) (.ite (.pure rfl) ?_)
  exact .bind (view_uniform hV (.createAccount _)) fun _ => .pure rfl

/-- The frames around the code of an account are related, if what is built around the same code
is. -/
theorem frameFor_mirrors {A : CallFrame → CallFrame → Prop} (codeAddress : Address)
    {frameOf frameOf' : Bytes → Hash → Nat → CallFrame}
    (hframe : ∀ code codeHash depth,
      A (frameOf code codeHash depth) (frameOf' code codeHash depth)) :
    (frameFor s codeAddress frameOf).Mirrors (Machine.Alike g (V i)) A
      (frameFor s codeAddress frameOf') := by
  refine .bind (view_uniform hV (.code _)) fun code =>
    .bind (view_uniform hV (.codeHash _)) fun codeHash => .look fun m m' h => ?_
  rw [h.depth]
  exact .pure (hframe _ _ _)

theorem frameFor_uniform (codeAddress : Address) (frameOf : Bytes → Hash → Nat → CallFrame) :
    (frameFor s codeAddress frameOf).Uniform g (V i) :=
  frameFor_mirrors hV codeAddress fun _ _ _ => rfl

theorem countUp_uniform (caller : Address) : (countUp s caller).Uniform g (V i) := by
  refine .bind (view_uniform hV (.nonce _)) fun nonce => ?_
  cases succ? nonce with
  | none => exact .throw _
  | some next => exact .bind (view_uniform hV (.setNonce _ _)) fun _ => .pure rfl

theorem found_uniform (caller address : Address) (value : Word) :
    (found s caller address value).Uniform g (V i) := by
  refine .bind (view_uniform hV (.createAccount _)) fun _ => ?_
  dsimp only
  split
  · exact .bind (view_uniform hV (.setNonce _ _)) fun _ => view_uniform hV (.transfer _ _ _)
  · exact view_uniform hV (.transfer _ _ _)

end Exec

/-- Two openings prepare the same frame over two snapshots, or end alike. -/
inductive Opening.Alike (n n' : Ledger.Snapshot) : Opening → Opening → Prop
  | finished (result : CallResult) : Alike n n' (.finished result) (.finished result)
  | started (frame : CallFrame) : Alike n n' (.started frame n) (.started frame n')

/-- How an operation is opened in two machines that are alike: it ends alike, or the same frame is
ready in both, over snapshots to which going back is alike from then on. -/
inductive OpenedAlike {ι : Type} (g : CallType → CallType) (V : ι → View → View → Prop) (i : ι) :
    Except CallError Opening × Machine → Except CallError Opening × Machine → Prop
  | failed {m m' : Machine} (e : CallError) (h : m.Alike g (V i) m') :
    OpenedAlike g V i (.error e, m) (.error e, m')
  | finished {m m' : Machine} (result : CallResult) (h : m.Alike g (V i) m') :
    OpenedAlike g V i (.ok (.finished result), m) (.ok (.finished result), m')
  | started {m m' : Machine} (frame : CallFrame) {n n' : Ledger.Snapshot} {j : ι}
    (hreturns : View.Returns (V i) (V j) n n') (h : m.Alike g (V j) m') :
    OpenedAlike g V i (.ok (.started frame n), m) (.ok (.started frame n'), m')

theorem Machine.Alike.mono {W' : View → View → Prop} (h : m.Alike g W m')
    (hW : ∀ {v v'}, W v v' → W' v v') : m.Alike g W' m' :=
  ⟨hW h.view, h.depth, h.cancelled, h.observed⟩

/-- What is recorded of calls does not show the kinds of frames. -/
theorem Machine.Alike.calls_eq (h : m.Alike g W m') : m.observed.calls = m'.observed.calls := by
  have hcalls := congrArg Observations.calls h.observed
  exact hcalls

/-- From a snapshot on, the relation is one under which going back to it is alike. -/
theorem OpenedAlike.of_snapshot (hV : s.Lockstep V) {rest : Ledger.Snapshot → Exec Opening}
    (hrest : ∀ j n n',
      (rest n).Mirrors (Machine.Alike g (V j)) (Opening.Alike n n') (rest n'))
    (h : m.Alike g (V i) m') :
    OpenedAlike g V i ((Exec.view View.snapshot >>= rest) m)
      ((Exec.view View.snapshot >>= rest) m') := by
  -- Each side takes its own snapshot, and going back to either is in lockstep.
  obtain ⟨j, hview, hreturns⟩ := hV.snapshot h.view
  let past (m : Machine) : Machine := { m with view := (View.snapshot m.view).2 }
  have hsnapshot : ∀ m, (Exec.view View.snapshot >>= rest) m =
      rest m.view.ledger.snapshot (past m) := fun _ => rfl
  rw [hsnapshot, hsnapshot]
  have halike : (past m).Alike g (V j) (past m') := ⟨hview, h.depth, h.cancelled, h.observed⟩
  -- The rest of the opening runs in lockstep after the snapshot.
  rcases (hrest j _ _).cases halike with
    ⟨e, m₁, m₁', hx, hy, hafter⟩ | ⟨_, _, m₁, m₁', hx, hy, hopening, hafter⟩
  · rw [hx, hy]
    exact .failed e (hafter.mono hreturns.within)
  · rw [hx, hy]
    cases hopening with
    | finished result => exact .finished result (hafter.mono hreturns.within)
    | started frame => exact .started frame hreturns hafter

theorem OpenedAlike.bind {β : Type} {x : Exec β} {rest : β → Exec Opening} (hx : x.Uniform g (V i))
    (hrest : ∀ b {m m' : Machine}, m.Alike g (V i) m' → OpenedAlike g V i (rest b m) (rest b m'))
    (h : m.Alike g (V i) m') : OpenedAlike g V i ((x >>= rest) m) ((x >>= rest) m') := by
  -- Nothing has been opened yet if the first step fails.
  rcases hx.cases h with ⟨e, m₁, m₁', hm, hm', hafter⟩ | ⟨b, _, m₁, m₁', hm, hm', rfl, hafter⟩
  · rw [bind_of_error hm, bind_of_error hm']
    exact .failed e hafter
  · rw [bind_of_ok hm, bind_of_ok hm']
    exact hrest b hafter

namespace Operation

theorem refusal?_uniform (hV : s.Lockstep V) (op : Operation) :
    (op.refusal? s).Uniform g (V i) := by
  cases op with
  | call | callCode | delegateCall | create => exact Exec.refusal?_uniform hV _ _ _ _

theorem prepare_alike (hV : s.Lockstep V) (op : Operation) (h : m.Alike g (V i) m') :
    OpenedAlike g V i (op.prepare s m) (op.prepare s m') := by
  -- The steps of each operation pair up one by one.
  cases op with
  | call caller target input gas value =>
    refine .of_snapshot hV (fun j n n' => ?_) h
    refine .bind (Exec.prepareTarget_uniform hV _ _) fun skipped => ?_
    refine .ite (.pure (.finished _)) ?_
    exact .bind (Exec.view_uniform hV (.transfer _ _ _)) fun _ =>
      .bind (Exec.frameFor_uniform hV _ _) fun frame => .pure (.started frame)
  | callCode caller target input gas value =>
    refine .of_snapshot hV (fun j n n' => ?_) h
    exact .bind (Exec.frameFor_uniform hV _ _) fun frame => .pure (.started frame)
  | delegateCall parent target input gas =>
    refine .of_snapshot hV (fun j n n' => ?_) h
    exact .bind (Exec.frameFor_uniform hV _ _) fun frame => .pure (.started frame)
  -- A creation counts up before the snapshot is taken.
  | create caller initCode gas value =>
    refine .bind (Exec.countUp_uniform hV _) (fun nonce _ _ h => ?_) h
    refine .of_snapshot hV (fun j n n' => ?_) h
    -- The tracer is told the address, and what it holds does not count.
    refine .bind (.modify fun m m' h => ⟨h.view, h.depth, h.cancelled, h.observed⟩) fun _ => ?_
    refine .bind (Exec.found_uniform hV _ _ _) fun _ => .look fun m m' h => ?_
    rw [h.depth]
    exact .pure (.started _)

theorem opening_alike (hV : s.Lockstep V) (op : Operation) (h : m.Alike g (V i) m') :
    OpenedAlike g V i (op.opening s m) (op.opening s m') := by
  refine .bind (refusal?_uniform hV op) (fun refused _ _ h => ?_) h
  cases refused with
  | some result => exact .finished result h
  | none => exact prepare_alike hV op h

/-- The node of an operation is opened in the tracer, which does not count. -/
theorem entered_alike (op op' : Operation) (h : m.Alike g W m') :
    (op.entered m).Alike g W (op'.entered m') := ⟨h.view, h.depth, h.cancelled, h.observed⟩

/-! On whose behalf a delegating operation acts shows in its frame, but the kind of that one's own
frame does not. -/

namespace Alike

theorem perform_eq (h : op.Alike g op') : op.perform s run = op'.perform s run := by
  cases h with
  | same => rfl
  | delegateCall h =>
    obtain ⟨kind, -, rfl⟩ := h
    rfl

theorem opening_eq (h : op.Alike g op') : op.opening s = op'.opening s := by
  cases h with
  | same => rfl
  | delegateCall h =>
    obtain ⟨kind, -, rfl⟩ := h
    rfl

theorem gas_eq (h : op.Alike g op') : op.gas = op'.gas := by
  cases h <;> rfl

theorem callType_eq (h : op.Alike g op') : op.callType = op'.callType := by
  cases h <;> rfl

theorem codeInput_eq (h : op.Alike g op') : op.codeInput = op'.codeInput := by
  cases h <;> rfl

end Alike

end Operation

/-! ### Running code -/

theorem Active.Alike.atDepth (h : a.Alike g W a') (depth : Nat) :
    (a.atDepth depth).Alike g W (a'.atDepth depth) :=
  ⟨h.frame, h.machine.view, rfl, h.machine.cancelled, h.machine.observed⟩

namespace Running

/-- A step of running code that does not tell alike states apart. -/
abbrev Uniform (g : CallType → CallType) (W : View → View → Prop) (x : Running α) : Prop :=
  x.Mirrors (Active.Alike g W) Eq x

theorem exec_uniform {x : Exec α} (h : x.Uniform g W) : (Running.exec x).Uniform g W :=
  h.inside (fun _ _ h => h.machine) fun _ _ _ _ h hm => ⟨h.frame, hm⟩

theorem nested_uniform (hrun : ∀ input, (run input).Uniform g W) (input : Bytes) :
    (nested run input).Uniform g W := by
  intro a a' h
  have hcancelled := h.machine.cancelled
  have hdepth := h.machine.depth
  -- Whether the code runs at all depends on what is the same on both sides.
  by_cases hstop : a'.machine.cancelled = true
  · rw [nested_of_cancelled (hcancelled.trans hstop), nested_of_cancelled hstop]
    exact ⟨.error _, h⟩
  · by_cases hcount : a'.machine.depth + 1 < UInt64.size
    · obtain ⟨hends, hafter⟩ := hrun input _ _ (h.atDepth (a'.machine.depth + 1))
      rw [nested_of_run (hcancelled ▸ hstop) (hdepth ▸ hcount), nested_of_run hstop hcount, hdepth]
      exact ⟨hends, hafter.atDepth a'.machine.depth⟩
    · rw [nested_of_depth (hcancelled ▸ hstop) (hdepth ▸ hcount), nested_of_depth hstop hcount]
      exact ⟨.error _, h⟩

theorem deposit_uniform (hV : s.Lockstep V) (address : Address) (code : Bytes) :
    (deposit s address code).Uniform g (V i) := by
  refine .look fun a a' h => .ite (.pure rfl) ?_
  cases codeDepositCost code.length s.limits.createDataGas with
  | error e => exact .pure rfl
  | ok cost =>
    -- The frames pay alike, if they can.
    have hpaid := h.frame.charge? cost
    dsimp only
    generalize a.frame.charge? cost = paid at hpaid ⊢
    generalize a'.frame.charge? cost = paid' at hpaid ⊢
    cases hpaid with
    | none => exact .pure rfl
    | some hframe =>
      refine .bind (.modify fun a a' h => ⟨hframe, h.machine⟩) fun _ => ?_
      exact .bind (exec_uniform (Exec.view_uniform hV (.setCode _ _))) fun _ => .pure rfl

theorem install_uniform (hV : s.Lockstep V) (hrun : ∀ input, (run input).Uniform g (V i))
    (address : Address) : (install s run address).Uniform g (V i) := by
  refine .bind (.outcome (nested_uniform hrun [])) fun r => ?_
  cases r with
  | ok code => exact deposit_uniform hV address code
  | error e => exact .pure rfl

end Running

/-! ### The end of an operation -/

namespace Exec

variable {n n' : Ledger.Snapshot} {frame frame' : CallFrame}

theorem settle_mirrors (hback : (View.revertTo n).Mirrors W Eq (View.revertTo n'))
    (hframe : frame.Alike g frame') (e : CallError) :
    (settle frame n e).Mirrors (Machine.Alike g W) Eq (settle frame' n' e) := by
  refine .ite (.throw _) (.bind (view_mirrors hback) fun _ => .pure ?_)
  obtain ⟨kind, -, rfl⟩ := hframe
  rfl

theorem settleCreation_mirrors (hback : (View.revertTo n).Mirrors W Eq (View.revertTo n'))
    (hframe : frame.Alike g frame') (address : Address) (error : Option CallError) :
    (settleCreation s address n frame error).Mirrors (Machine.Alike g W) Eq
      (settleCreation s address n' frame' error) := by
  obtain ⟨kind, hkind, rfl⟩ := hframe
  cases error with
  | none => exact .pure rfl
  | some e =>
    exact .ite (.pure rfl) (.bind (settle_mirrors hback ⟨kind, hkind, rfl⟩ e) fun _ => .pure rfl)

/-- **Code of alike frames ends alike**: with the same result, or with the same error, for which the
two operations go back from alike states. -/
theorem execute_cases (hrun : ∀ input, (run input).Uniform g W) (hframe : frame.Alike g frame')
    (input : Bytes) (n n' : Ledger.Snapshot) (h : m.Alike g W m') :
    (∃ result m₁ m₁', execute run frame input n m = (.ok result, m₁) ∧
      execute run frame' input n' m' = (.ok result, m₁') ∧ m₁.Alike g W m₁') ∨
      ∃ (e : CallError) (a a' : Active),
        execute run frame input n m = settle a.frame n e a.machine ∧
        execute run frame' input n' m' = settle a'.frame n' e a'.machine ∧ a.Alike g W a' ∧
        Running.nested run input ⟨frame', m'⟩ = (.error e, a') := by
  rcases (Running.nested_uniform hrun input).cases (s := ⟨frame, m⟩) (t := ⟨frame', m'⟩)
    ⟨hframe, h⟩ with
    ⟨e, a, a', hx, hx', hafter⟩ | ⟨output, _, a, a', hx, hx', rfl, hafter⟩
  · -- The code failed on both sides, with the same error.
    refine .inr ⟨e, a, a', ?_, ?_, hafter, hx'⟩
    · unfold execute
      rw [hx]
    · unfold execute
      rw [hx']
  · -- A result shows what is left of the gas, but not the kind of the frame.
    obtain ⟨kind, -, hkind⟩ := hafter.frame
    refine .inl ⟨.success a.frame output, a.machine, a'.machine, ?_, ?_, hafter.machine⟩
    · unfold execute
      rw [hx]
    · unfold execute
      rw [hx']
      dsimp only
      rw [hkind]
      rfl

theorem execute_mirrors (hrun : ∀ input, (run input).Uniform g W)
    (hback : (View.revertTo n).Mirrors W Eq (View.revertTo n')) (hframe : frame.Alike g frame')
    (input : Bytes) :
    (execute run frame input n).Mirrors (Machine.Alike g W) Eq (execute run frame' input n') := by
  intro m m' h
  rcases execute_cases hrun hframe input n n' h with
    ⟨result, m₁, m₁', hx, hx', hafter⟩ | ⟨e, a, a', hx, hx', hafter, -⟩
  · rw [hx, hx']
    exact ⟨.ok rfl, hafter⟩
  · rw [hx, hx']
    exact settle_mirrors hback hafter.frame e _ _ hafter.machine

end Exec

namespace Operation

variable {n n' : Ledger.Snapshot} {frame frame' : CallFrame}

theorem closing_mirrors (hV : s.Lockstep V) (hrun : ∀ input, (run input).Uniform g (V i))
    (op : Operation) (hback : (View.revertTo n).Mirrors (V i) Eq (View.revertTo n'))
    (hframe : frame.Alike g frame') :
    (op.closing s run frame n).Mirrors (Machine.Alike g (V i)) Eq
      (op.closing s run frame' n') := by
  by_cases hop : op.callType = .create
  · -- The address is that of the frame's account, which both frames have in common.
    cases op with
    | create caller initCode gas value =>
      -- The address comes from the frame, and the code is run and stored in lockstep.
      intro m m' h
      have haccount : frame'.account = frame.account := by
        obtain ⟨kind, -, rfl⟩ := hframe
        rfl
      rw [closing_create, closing_create, haccount]
      rcases (Running.install_uniform hV hrun frame.account).cases (s := ⟨frame, m⟩)
        (t := ⟨frame', m'⟩) ⟨hframe, h⟩ with
        ⟨e, a, a', hx, hx', hafter⟩ | ⟨error, _, a, a', hx, hx', rfl, hafter⟩
      · rw [hx, hx']
        exact ⟨.error e, hafter.machine⟩
      · rw [hx, hx']
        exact Exec.settleCreation_mirrors hback hafter.frame _ _ _ _ hafter.machine
    | _ => cases hop
  · -- For a call there is only the run and its result.
    rw [closing_call hop, closing_call hop]
    exact .bind (Exec.execute_mirrors hrun hback hframe _) fun _ => .pure rfl

theorem body_uniform (hV : s.Lockstep V) (hrun : ∀ j input, (run input).Uniform g (V j))
    (op : Operation) : (op.body s run).Uniform g (V i) := by
  intro m m' h
  have hopened := opening_alike hV op h
  unfold body
  rw [bind_apply, bind_apply]
  generalize op.opening s m = opened at hopened ⊢
  generalize op.opening s m' = opened' at hopened ⊢
  cases hopened with
  | failed e h => exact ⟨.error e, h⟩
  | finished result h => exact ⟨.ok rfl, h⟩
  | @started m₁ m₁' frame n n' j hreturns h =>
    -- Within the operation going back is alike, and after it the machines are alike as before.
    obtain ⟨hends, hafter⟩ :=
      closing_mirrors hV (hrun j) op hreturns.back (.refl frame) m₁ m₁' h
    exact ⟨hends, hafter.mono hreturns.within⟩

end Operation

/-! ### Scripted code -/

/-- The host carries out alike what is alike. -/
def Host.Uniform (g : CallType → CallType) (W : View → View → Prop) (host : Host) : Prop :=
  ∀ {op op'}, op.Alike g op' → (host op).Mirrors (Machine.Alike g W) Eq (host op')

namespace Script

variable {host : Host}

theorem checkStop_uniform : checkStop.Uniform g W := by
  refine .look fun a a' h => ?_
  rw [h.machine.cancelled]
  exact .ite (.throw _) (.pure rfl)

theorem pay_uniform (gas : Gas) : (pay gas).Uniform g W := by
  refine .look fun a a' h => ?_
  refine .bind_of (.ofExcept (h.frame.charge gas)) fun frame frame' hframe => ?_
  exact .modify fun a a' h => ⟨hframe, h.machine⟩

/-- What is asked for is the same. -/
theorem request?_alike (h : a.Alike g W a') (input : Bytes) (i : Instruction) :
    (i.request? input a = none ∧ i.request? input a' = none) ∨
      ∃ op op', op.Alike g op' ∧ i.request? input a = some op ∧ i.request? input a' = some op' := by
  obtain ⟨frame, m⟩ := a
  obtain ⟨frame', m'⟩ := a'
  obtain ⟨⟨kind, hkind, rfl⟩, -⟩ := h
  -- What is asked for has its fields from the frame, in which the two differ by the kind alone.
  cases i with
  | call | callCode | create => exact .inr ⟨_, _, .same _, rfl, rfl⟩
  -- The delegated call hands its own frame on, so the two operations may differ in the kind too.
  | delegateCall target gas =>
    have hpaid : (frame.paid (frame.granted gas)).Alike g _ := .paid ⟨kind, hkind, rfl⟩ _
    exact .inr ⟨_, _, .delegateCall hpaid target input _, rfl, rfl⟩
  -- A call to itself is asked for only while there is gas.
  | recurse =>
    unfold Instruction.request?
    dsimp only
    split
    · exact .inr ⟨_, _, .same _, rfl, rfl⟩
    · exact .inl ⟨rfl, rfl⟩
  | _ => exact .inl ⟨rfl, rfl⟩

theorem observeCall_uniform (callType : CallType) (o : Outcome) :
    (observeCall callType o).Uniform g W := by
  refine .modify fun a a' h => ?_
  obtain ⟨frame, m⟩ := a
  obtain ⟨frame', m'⟩ := a'
  obtain ⟨⟨kind, hkind, rfl⟩, hm⟩ := h
  refine ⟨⟨kind, hkind, rfl⟩, hm.view, hm.depth, hm.cancelled, ?_⟩
  let noted (observed : Observations) : Observations :=
    { observed with calls := ⟨callType, frame.depth, o.result.verdict, o.result.gasLimit,
      o.result.gasLeft, o.address⟩ :: observed.calls }
  exact congrArg noted hm.observed

/-- The one difference that the kind of a frame makes is that it may be observed. -/
theorem observeFrame_uniform : observeFrame.Uniform g W := by
  refine .modify fun a a' h => ?_
  obtain ⟨frame, m⟩ := a
  obtain ⟨frame', m'⟩ := a'
  obtain ⟨⟨kind, hkind, rfl⟩, hm⟩ := h
  refine ⟨⟨kind, hkind, rfl⟩, hm.view, hm.depth, hm.cancelled, ?_⟩
  let noted (hostDepth : Nat) (callType : CallType) (o : Observations) : Observations :=
    { o with frames := ⟨frame.sender, frame.account, frame.codeAddress, frame.value, frame.depth,
      hostDepth, callType, frame.isDelegate⟩ :: o.frames }
  show noted m.depth (g frame.callType) (m.observed.blurred g) =
    noted m'.depth (g kind) (m'.observed.blurred g)
  rw [hm.depth, hkind, hm.observed]

/-- So is what becomes of code whose operation has been carried out. -/
theorem resumed_alike (hop : op.Alike g op') {done done' : Except CallError Outcome × Machine}
    (h : a.Alike g W a') (hends : Ends Eq done.1 done'.1) (hafter : done.2.Alike g W done'.2) :
    Ends Eq (resumed op a done).1 (resumed op' a' done').1 ∧
      (resumed op a done).2.Alike g W (resumed op' a' done').2 := by
  obtain ⟨r, m⟩ := done
  obtain ⟨r', m'⟩ := done'
  have hpaid : (a.frame.paid op.gas).Alike g (a'.frame.paid op'.gas) :=
    hop.gas_eq ▸ h.frame.paid op.gas
  cases hends with
  | error e => exact ⟨.error e, hpaid, hafter⟩
  | @ok o _ ho =>
    cases ho
    refine ⟨.ok rfl, ?_⟩
    show (observeCall op.callType o _).2.Alike g W (observeCall op'.callType o _).2
    rw [hop.callType_eq]
    exact (observeCall_uniform _ o _ _ ⟨hpaid.refund o.result.gasLeft, hafter⟩).2

/-- **One instruction in lockstep.** -/
theorem step_uniform (hV : s.Lockstep V) (hhost : host.Uniform g (V i)) (input : Bytes)
    (instruction : Instruction) :
    (step linked s host input instruction).Uniform g (V i) := by
  intro a a' h
  rcases request?_alike h input instruction with
    ⟨hnone, hnone'⟩ | ⟨op, op', hop, hrequest, hrequest'⟩
  · -- Nothing is asked for, so only the own frame and the own storage are touched.
    cases instruction with
    | stop | output | outputZeros => exact ⟨.ok rfl, h⟩
    | revert | invalid => exact ⟨.error _, h⟩
    | burn gas => exact (pay_uniform gas).bind (fun _ => .pure rfl) a a' h
    | store key value =>
      refine Mirrors.look (fun a a' h => ?_) a a' h
      obtain ⟨kind, -, hframe⟩ := h.frame
      rw [hframe]
      exact .bind (Running.exec_uniform (Exec.view_uniform hV (.setSlot _ _ _))) fun _ => .pure rfl
    | observe => exact observeFrame_uniform.bind (fun _ => .pure rfl) a a' h
    | cancel =>
      cases linked with
      | false => exact ⟨.ok rfl, h⟩
      | true => exact ⟨.ok rfl, h.frame, h.machine.view, h.machine.depth, rfl, h.machine.observed⟩
    | recurse =>
      rw [step_recurse hnone, step_recurse hnone']
      exact ⟨.ok rfl, h⟩
    | call | callCode | delegateCall | create => cases hnone
  · -- An operation is asked for: the hosts answer alike, and both frames resume.
    obtain ⟨hends, hafter⟩ := hhost hop _ _ h.machine
    rw [step_request hrequest, step_request hrequest']
    exact resumed_alike hop h hends hafter

theorem runAll_uniform (hV : s.Lockstep V) (hhost : host.Uniform g (V i)) (input : Bytes)
    (fault : Option ExecutionFault) (is : List Instruction) :
    (runAll linked s host input fault is).Uniform g (V i) := by
  induction is with
  | nil =>
    refine .bind checkStop_uniform fun _ => ?_
    cases fault with
    | none => exact .pure rfl
    | some fault => exact .throw _
  | cons i rest ih =>
    refine .bind checkStop_uniform fun _ => .bind (step_uniform hV hhost input i) fun output => ?_
    cases output with
    | some output => exact .pure rfl
    | none => exact ih

theorem interpreter_uniform (hV : s.Lockstep V) (hhost : host.Uniform g (V i)) (input : Bytes) :
    (interpreter linked s host input).Uniform g (V i) := by
  refine .look fun a a' h => ?_
  obtain ⟨kind, -, hframe⟩ := h.frame
  rw [hframe]
  exact runAll_uniform hV hhost input _ _

end Script

/-- Closing a trace node does not get in the way. -/
theorem Exec.traced_uniform {record : TraceRecord} {body : Exec Outcome}
    (hbody : body.Uniform g W)
    (hmeets : body.Meets (Machine.Moves Ledger.Unrelated) Internal) :
    (Exec.traced record body).Uniform g W := by
  intro m m' h
  obtain ⟨hends, hafter⟩ := hbody { m with tracer := m.tracer.enter record (m.depth = 0) }
    { m' with tracer := m'.tracer.enter record (m'.depth = 0) }
    ⟨h.view, h.depth, h.cancelled, h.observed⟩
  rw [traced_apply hmeets rfl, traced_apply hmeets rfl]
  exact ⟨hends, hafter.view, hafter.depth, hafter.cancelled, hafter.observed⟩

/-- **Every operation has the same result in alike machines**, at every level, and leaves alike
machines. -/
theorem Script.host_uniform (hV : s.Lockstep V) (linked : Bool) (levels : Nat) (i : ι) :
    (host linked s levels).Uniform g (V i) := by
  -- For all relations at once, as nested code runs under another one.
  induction levels generalizing i with
  | zero => exact fun _ => .throw _
  | succ levels ih =>
    intro op op' hop
    have hsame : host linked s (levels + 1) op' = host linked s (levels + 1) op :=
      hop.perform_eq.symm
    rw [hsame, host_succ]
    exact Exec.traced_uniform (op.body_uniform hV fun j => interpreter_uniform hV (ih j))
      (Operation.body_meets_host linked s levels op)

/-! ### The trees of operations -/

namespace Script

variable {host : Host}

/-- Two steps of runs execute the same instruction in alike states. -/
def StepAlike (g : CallType → CallType) (W : View → View → Prop) (x x' : Instruction × Active) :
    Prop :=
  x.1 = x'.1 ∧ x.2.Alike g W x'.2

theorem executed_alike (hV : s.Lockstep V) (hhost : host.Uniform g (V i)) (input : Bytes)
    (is : List Instruction) (h : a.Alike g (V i) a') :
    List.Forall₂ (StepAlike g (V i)) (executed linked s host input is a)
      (executed linked s host input is a') := by
  induction is generalizing a a' with
  | nil => exact .nil
  | cons instruction rest ih =>
    unfold executed
    rw [h.machine.cancelled]
    split
    · exact .nil
    · -- One step more, after which the run is at an end or goes on.
      refine .cons ⟨rfl, h⟩ ?_
      have huniform : (step linked s host input instruction).Uniform g (V i) :=
        step_uniform hV hhost input instruction
      -- The first step ends alike, so both runs stop here or both go on.
      rcases huniform.cases h with
        ⟨e, b, b', hstep, hstep', -⟩ | ⟨output, _, b, b', hstep, hstep', rfl, hafter⟩
      · rw [hstep, hstep']
        exact .nil
      · rw [hstep, hstep']
        cases output with
        | some output => exact .nil
        | none => exact ih hafter

theorem steps_alike (hV : s.Lockstep V) (hhost : host.Uniform g (V i)) (input : Bytes)
    (h : a.Alike g (V i) a') :
    List.Forall₂ (StepAlike g (V i)) (steps linked s host input a)
      (steps linked s host input a') := by
  have hdecoded : decode a.frame.code = decode a'.frame.code := by
    obtain ⟨kind, -, hframe⟩ := h.frame
    rw [hframe]
  unfold steps
  rw [h.machine.cancelled, h.machine.depth, hdecoded]
  split
  · exact .nil
  · -- The code is the same and so are the levels below which it runs.
    exact executed_alike hV hhost input _ (h.atDepth _)

theorem requests_alike {steps steps' : List (Instruction × Active)} (input : Bytes)
    (h : List.Forall₂ (StepAlike g W) steps steps') :
    List.Forall₂ (fun x x' => x.1.Alike g x'.1 ∧ x.2.Alike g W x'.2) (requests input steps)
      (requests input steps') := by
  induction h with
  | nil => exact .nil
  | @cons x x' steps steps' hx _ ih =>
    obtain ⟨i, a⟩ := x
    obtain ⟨i', a'⟩ := x'
    obtain ⟨rfl, ha⟩ := hx
    rw [requests_cons, requests_cons input (i, a')]
    rcases request?_alike ha input i with ⟨hnone, hnone'⟩ | ⟨op, op', hop, hrequest, hrequest'⟩
    · rw [requests_of_none hnone, requests_of_none hnone']
      exact ih
    · rw [requests_of_some hrequest, requests_of_some hrequest']
      exact .cons ⟨hop, ha.machine⟩ ih

end Script

namespace Operation

/-- The frames of alike operations run alike, under the relation that their snapshots call for. -/
theorem codeRun?_alike {host : Host} (hV : s.Lockstep V) (linked : Bool)
    (hhost : ∀ j, host.Uniform g (V j)) (hop : op.Alike g op') (h : m.Alike g (V i) m') :
    ∃ j, List.Forall₂ (Script.StepAlike g (V j))
      ((op.codeRun? linked s host m).elim [] CodeRun.steps)
      ((op'.codeRun? linked s host m').elim [] CodeRun.steps) := by
  have hopened := opening_alike hV op (entered_alike op op' h)
  unfold codeRun?
  rw [← hop.opening_eq, ← hop.codeInput_eq]
  generalize op.opening s (op.entered m) = opened at hopened ⊢
  generalize op.opening s (op'.entered m') = opened' at hopened ⊢
  cases hopened with
  | failed | finished => exact ⟨i, .nil⟩
  | @started _ _ frame _ _ j _ h =>
    exact ⟨j, Script.steps_alike hV (hhost j) op.codeInput ⟨.refl frame, h⟩⟩

/-- The trees of what two runs have asked for, if they execute the same in alike states. -/
theorem trees_alike {levels : Nat} {steps steps' : List (Instruction × Active)}
    (htree : ∀ {op op' : Operation} {m m' : Machine}, op.Alike g op' → m.Alike g W m' →
      (op.tree linked s levels m).Alike g (op'.tree linked s levels m'))
    (input : Bytes) (h : List.Forall₂ (Script.StepAlike g W) steps steps') :
    List.Forall₂ (CallTree.Alike g)
      ((Script.requests input steps).map fun x => x.1.tree linked s levels x.2)
      ((Script.requests input steps').map fun x => x.1.tree linked s levels x.2) := by
  rw [List.forall₂_map_left_iff, List.forall₂_map_right_iff]
  exact (Script.requests_alike input h).imp fun x x' hx => htree hx.1 hx.2

/-- **The trees of alike operations in alike machines.** -/
theorem tree_alike (hV : s.Lockstep V) (linked : Bool) (levels : Nat) (hop : op.Alike g op')
    (h : m.Alike g (V i) m') :
    (op.tree linked s levels m).Alike g (op'.tree linked s levels m') := by
  induction levels generalizing i op op' m m' with
  | zero => exact .node hop rfl .nil
  | succ levels ih =>
    have hresult := (Script.host_uniform hV linked (levels + 1) i hop m m' h).1.eq
    obtain ⟨j, hsteps⟩ := codeRun?_alike hV linked (Script.host_uniform hV linked levels) hop h
    refine .node hop hresult ?_
    rw [← hop.codeInput_eq]
    exact trees_alike ih op.codeInput hsteps

end Operation

end

end MessageCall
