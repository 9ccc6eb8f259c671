import MessageCall.Proofs.Dispatch.Frames

/-!
# Who a frame is

A frame acts on an account, for a sender and with a value, and its code is taken from some address
(`Identity`). The four kinds of operations wire these differently, and a delegate frame gets its
sender and its value only after it has been built. `Operation.identity` says what comes of it for a
frame that an operation prepares, and `Instruction.identity?` says the same of a running frame and
the instructions by which it issues others.

From frame to frame a delegate call hands on everything but the code (`CallFrame.StandsFor`). So
along a chain of delegate calls (`CallTree.Delegates`), whatever else the frames of the chain issue,
the last frame stands for the one at which the chain starts. Going up the chain as far as it goes
ends at a frame that is not a delegate's, or at an outermost delegate call, whose frame stands for
the parent that it was given.
-/

namespace MessageCall

/-- Who a frame is to the code that runs in it. -/
structure Identity where
  sender : Address
  account : Address
  codeAddress : Address
  value : Word
  deriving DecidableEq

namespace CallFrame

/-- Who a frame is. -/
def identity (frame : CallFrame) : Identity where
  sender := frame.sender
  account := frame.account
  codeAddress := frame.codeAddress
  value := frame.value

/-- A frame that **stands for** another one: it acts on the same account, for the same sender and
with the same value, with code of its own. -/
def StandsFor (frame origin : CallFrame) : Prop :=
  frame.identity = { origin.identity with codeAddress := frame.codeAddress }

variable {frame frame' origin : CallFrame}

theorem StandsFor.account (h : frame.StandsFor origin) : frame.account = origin.account :=
  congrArg Identity.account h

instance : IsPreorder CallFrame StandsFor where
  refl _ := rfl
  trans third second first h h' := by
    calc
      third.identity = { second.identity with codeAddress := third.codeAddress } := h
      _ = { first.identity with codeAddress := third.codeAddress } := by rw [h']

theorem Continues.identity (h : frame.Continues frame') : frame'.identity = frame.identity := by
  rw [h]
  rfl

end CallFrame

/-- **Who the frame of an operation is**, with the address of the new account for a creation. -/
def Operation.identity (created : Address) : Operation → Identity
  | .call caller target _ _ value =>
    { sender := caller, account := target, codeAddress := target, value }
  | .callCode caller target _ _ value =>
    { sender := caller, account := caller, codeAddress := target, value }
  | .delegateCall parent target _ _ => { parent.identity with codeAddress := target }
  | .create caller _ _ value =>
    { sender := caller, account := created, codeAddress := created, value }

/-- **Who a frame is that a running frame issues**, by the instruction. -/
def Instruction.identity? (issuer : Identity) (created : Address) : Instruction → Option Identity
  | .call target _ value =>
    some { sender := issuer.account, account := target, codeAddress := target, value }
  | .callCode target _ value =>
    some { sender := issuer.account, account := issuer.account, codeAddress := target, value }
  | .delegateCall target _ => some { issuer with codeAddress := target }
  | .create _ value _ =>
    some { sender := issuer.account, account := created, codeAddress := created, value }
  | .recurse => some {
      sender := issuer.account
      account := issuer.account
      codeAddress := issuer.account
      value := 0 }
  | _ => none

/-- The code that an operation's frame has when it starts: what was given for a creation, and else
what is answered to whoever asks then for the code under the frame's code address. -/
def Operation.HasCode (store : Store) (a : Active) : Operation → Prop
  | .create _ initCode _ _ => a.frame.code = initCode
  | _ => (View.code store a.frame.codeAddress a.machine.view).1 = .ok a.frame.code

/-! ### Code that has been read -/

namespace Ledger

variable {store : Store} {address codeHash : Hash} {l l' : Ledger}

/-- Code that has been read is there, and the accounts are as they were. -/
theorem codeOf_again {code : Bytes} (h : codeOf store codeHash l = (.ok code, l')) :
    codeOf store codeHash l' = (.ok code, l') ∧ l'.current = l.current := by
  unfold codeOf at h ⊢
  by_cases hempty : codeHash = emptyCodeHash
  · -- The empty code is never looked up.
    rw [if_pos hempty] at h ⊢
    cases h
    exact ⟨rfl, rfl⟩
  · rw [if_neg hempty] at h ⊢
    cases hcached : l.codes.get? codeHash with
    -- Code at hand stays at hand.
    | some cached =>
      simp only [hcached] at h
      cases h
      simp only [hcached, and_self]
    | none =>
      simp only [hcached] at h
      -- Code that the store answers with is at hand from then on.
      cases hanswer : store.code codeHash with
      | error e =>
        simp only [hanswer] at h
        cases h
      | ok answer =>
        simp only [hanswer] at h
        cases h
        simp only [putCode, WordMap.get?_insert_self, and_self]

/-- **An account's code that has been read** is answered again, and so is its digest, and nothing is
loaded for that any more. -/
theorem code_again {address : Address} {code : Bytes}
    (h : Ledger.code store address l = (.ok code, l')) :
    Ledger.code store address l' = (.ok code, l') ∧
      ∃ codeHash, Ledger.codeHash store address l' = (.ok codeHash, l') := by
  -- Code is read by the digest of the account, which is loaded first.
  obtain ⟨codeHash, l₁, hhash, hcode⟩ := Attempt.bind_eq_ok h
  obtain ⟨_, _, hinfo, hpure⟩ := Attempt.bind_eq_ok hhash
  cases hpure
  obtain ⟨x, _, hload, hpure⟩ := Attempt.bind_eq_ok hinfo
  cases hpure
  obtain ⟨hagain, hcurrent⟩ := codeOf_again hcode
  -- The account is in the cache now, so reading again loads nothing.
  have hcached : l'.current.get? address = some x := hcurrent ▸ cached_of_load hload
  have hhash' : Ledger.codeHash store address l' = _ :=
    codeHash_of_load (load_of_cached hcached)
  refine ⟨?_, _, hhash'⟩
  unfold Ledger.code
  rw [Attempt.bind_of_ok hhash']
  exact hagain

end Ledger

section

variable {linked : Bool} {s : Setting} {op : Operation} {m m' : Machine} {frame : CallFrame}
  {snapshot : Ledger.Snapshot} {a b : Active}

/-! ### The frame of an operation -/

/-- The frame that is built around an account's code has the code that is still answered then. -/
theorem Exec.frameFor_code {codeAddress : Address} {frameOf : Bytes → Hash → Nat → CallFrame}
    (h : Exec.frameFor s codeAddress frameOf m = (.ok frame, m')) :
    ∃ code codeHash, frame = frameOf code codeHash m'.depth ∧
      (View.code s.store codeAddress m'.view).1 = .ok code := by
  obtain ⟨code, m₁, hcode, h⟩ := Attempt.bind_eq_ok h
  obtain ⟨codeHash, m₂, hhash, h⟩ := Attempt.bind_eq_ok h
  obtain ⟨_, _, hget, h⟩ := Attempt.bind_eq_ok h
  -- Three reads: the code, its digest and the depth.
  cases hget
  cases h
  obtain ⟨hcode, hm₁⟩ := Exec.watched_eq hcode
  obtain ⟨hhash, hm₂⟩ := Exec.watched_eq hhash
  obtain ⟨hagain, answer, hdigest⟩ := Ledger.code_again hcode
  -- The digest is that of the account just read, so reading it has loaded nothing.
  have hledger : m'.view.ledger = m₁.view.ledger := by
    rw [hdigest] at hhash
    exact (congrArg Prod.snd hhash).symm
  refine ⟨code, codeHash, rfl, ?_⟩
  show (Ledger.code s.store codeAddress m'.view.ledger).1 = .ok code
  rw [hledger, hagain]

/-- The frame is built if the code is answered. Only reading the code can change the ledger. -/
theorem Exec.frameFor_of_code {codeAddress : Address} {code : Bytes} {l : Ledger}
    (h : Ledger.code s.store codeAddress m.view.ledger = (.ok code, l))
    (frameOf : Bytes → Hash → Nat → CallFrame) :
    ∃ codeHash v, Exec.frameFor s codeAddress frameOf m =
      (.ok (frameOf code codeHash m.depth), { m with view := v }) ∧ v.ledger = l := by
  let read : View := ⟨l, .read codeAddress :: m.view.accesses⟩
  let digested : View := ⟨l, .read codeAddress :: read.accesses⟩
  obtain ⟨-, codeHash, hdigest⟩ := Ledger.code_again h
  have hread : View.code s.store codeAddress m.view = (.ok code, read) :=
    View.watched_apply h (.read codeAddress)
  have hdigested : View.codeHash s.store codeAddress read = (.ok codeHash, digested) :=
    View.watched_apply (v := read) hdigest (.read codeAddress)
  refine ⟨codeHash, digested, ?_, rfl⟩
  refine (Attempt.bind_of_ok (Exec.view_of_ok hread)).trans ?_
  exact Attempt.bind_of_ok (Exec.view_of_ok (m := { m with view := read }) hdigested)

namespace Operation

/-- **What an operation makes of its frame.** -/
structure Forms (store : Store) (op : Operation) (a : Active) : Prop where
  identity : a.frame.identity = op.identity a.frame.account
  callType : a.frame.callType = op.callType
  isDelegate : a.frame.isDelegate = true ↔ op.callType = .delegateCall
  code : op.HasCode store a

theorem prepare_forms (h : op.prepare s m = (.ok (.started frame snapshot), m')) :
    op.Forms s.store ⟨frame, m'⟩ := by
  cases prepare_cases h with
  | call _ _ hframe | callCode hframe =>
    obtain ⟨_, _, rfl, hcode⟩ := Exec.frameFor_code hframe
    exact ⟨rfl, rfl, ⟨nofun, nofun⟩, hcode⟩
  | delegateCall hframe =>
    obtain ⟨_, _, rfl, hcode⟩ := Exec.frameFor_code hframe
    exact ⟨rfl, rfl, ⟨fun _ => rfl, fun _ => rfl⟩, hcode⟩
  | create => exact ⟨rfl, rfl, ⟨nofun, nofun⟩, rfl⟩

/-- **The frame that the interpreter gets** is what its operation makes of it. For a creation it
acts on the address that the creation derives. -/
theorem entry?_forms (h : op.entry? s m = some a) :
    op.Forms s.store a ∧ op.derived? s (op.entered m) = op.newAddress a.frame.account := by
  obtain ⟨frame, snapshot, m₁, hopen, -, -, rfl⟩ := entry?_eq_some h
  refine ⟨?_, derived?_of_started hopen⟩
  obtain ⟨_, -, hprepare⟩ := opening_prepared hopen
  -- The level does not matter to what is read.
  obtain ⟨hidentity, hcallType, hisDelegate, hcode⟩ := prepare_forms hprepare
  exact ⟨hidentity, hcallType, hisDelegate, by cases op <;> exact hcode⟩

/-- The frame of a delegate call stands for the parent, and no other frame is a delegate's. -/
theorem Forms.delegate (h : op.Forms s.store a) :
    a.frame.isDelegate = false ∨ ∃ parent target input gas,
      op = .delegateCall parent target input gas ∧ a.frame.StandsFor parent := by
  cases op with
  | delegateCall parent target input gas =>
    refine .inr ⟨parent, target, input, gas, rfl, ?_⟩
    unfold CallFrame.StandsFor
    rw [show a.frame.codeAddress = target from congrArg Identity.codeAddress h.identity]
    exact h.identity
  | _ =>
    refine .inl (Bool.eq_false_iff.mpr fun hdelegate => ?_)
    cases h.isDelegate.mp hdelegate

end Operation

/-! ### From frame to frame -/

/-- An instruction asks for the operation that forms the frame that it is to issue. -/
theorem Instruction.identity?_of_request {input : Bytes} {i : Instruction}
    (h : i.request? input a = some op) (created : Address) :
    i.identity? a.frame.identity created = some (op.identity created) := by
  cases i with
  | call | callCode | delegateCall | create =>
    cases h
    rfl
  | recurse =>
    obtain ⟨-, rfl⟩ := request?_recurse_eq_some h
    rfl
  | _ => cases h

/-- What a frame delegates stands for it. -/
theorem Instruction.standsFor_of_delegate {input : Bytes} {i : Instruction} {issuer : CallFrame}
    {created : Address} (h : i.request? input a = some op) (hop : op.callType = .delegateCall)
    (hidentity : i.identity? issuer.identity created = some frame.identity) :
    frame.StandsFor issuer := by
  -- Only the instruction for delegated calls asks for one.
  cases i with
  | delegateCall target gas =>
    have hframe : _ = frame.identity := Option.some.inj hidentity
    unfold CallFrame.StandsFor
    rw [show frame.codeAddress = target from (congrArg Identity.codeAddress hframe).symm]
    exact hframe.symm
  -- A call to oneself is an ordinary call.
  | recurse =>
    obtain ⟨-, rfl⟩ := request?_recurse_eq_some h
    cases hop
  | call | callCode | create =>
    cases h
    cases hop
  | _ => cases h

/-- **What running code issues.** The frame that an instruction issues is decided by the frame with
which the run has started. -/
theorem Script.executed_issues {host : Host} {input : Bytes} {is : List Instruction}
    {x : Instruction × Active} (hx : x ∈ executed linked s host input is a)
    (hrequest : x.1.request? input x.2 = some op) (hentry : op.entry? s x.2.machine = some b) :
    x.1.identity? a.frame.identity b.frame.account = some b.frame.identity := by
  have htrail : Trail linked s host input a _ _ _ := runAll_trail none is a
  have hcontinues : a.frame.Continues x.2.frame := htrail.continues.2 x hx
  rw [← hcontinues.identity, Instruction.identity?_of_request hrequest,
    (Operation.entry?_forms hentry).1.identity]

/-- Writing a slot writes it for the account on which the running frame acts. -/
theorem Script.step_store_view (linked : Bool) (s : Setting) (host : Host) (input : Bytes)
    (key : Hash) (value : Word) (a : Active) :
    (step linked s host input (.store key value) a).2.machine.view =
      (View.setSlot s.store a.frame.account key value a.machine.view).2 := by
  rw [step_store]
  rcases hwritten : Exec.view (View.setSlot s.store a.frame.account key value) a.machine with
    ⟨_ | _, m⟩
  · exact congrArg (·.2.view) hwritten.symm
  · exact congrArg (·.2.view) hwritten.symm

namespace CallTree

variable {levels : Nat} {t u : CallTree}

/-- What the operation at the root hands to the interpreter. -/
def active? (s : Setting) (t : CallTree) : Option Active := t.call.op.entry? s t.call.before

@[simp] theorem tree_active? (linked : Bool) (s : Setting) (levels : Nat) (op : Operation)
    (m : Machine) : (op.tree linked s levels m).active? s = op.entry? s m := by
  rw [active?, Operation.tree_op, Operation.tree_before]

/-- A **chain of delegate calls** from one operation down to another one that its code has asked
for, directly or through the code of others in the chain. -/
inductive Delegates : CallTree → CallTree → Prop
  | refl (t : CallTree) : Delegates t t
  | step {t u v : CallTree} (hu : u ∈ t.children) (hop : u.call.op.callType = .delegateCall)
    (h : Delegates u v) : Delegates t v

/-- The frames of a tree's root and around it **are who they should be**. -/
structure Identified (linked : Bool) (s : Setting) (t : CallTree) : Prop where
  /-- The root's frame is what its operation makes of it. -/
  forms a : t.active? s = some a → t.call.op.Forms s.store a ∧
    t.call.op.derived? s (t.call.op.entered t.call.before) = t.call.op.newAddress a.frame.account
  /-- What is executed is its code, and it stays as it is meanwhile. -/
  runs run : t.call.run = some run → run.steps = [] ∨ ∃ a host, t.active? s = some a ∧
    run.steps = Script.executed linked s host t.call.op.codeInput (Script.decode a.frame.code).1 a ∧
    ∀ x ∈ run.steps, a.frame.Continues x.2.frame
  /-- What its code asks for is formed from it. -/
  issues : ∀ u ∈ t.children, ∀ b, u.active? s = some b → ∃ a run i c, t.active? s = some a ∧
    t.call.run = some run ∧ (i, c) ∈ run.steps ∧
    i.request? t.call.op.codeInput c = some u.call.op ∧ c.machine = u.call.before ∧
    i.identity? a.frame.identity b.frame.account = some b.frame.identity
  /-- All frames of a chain of delegate calls stand for it. -/
  chain u : t.Delegates u → ∀ b, u.active? s = some b →
    ∃ a, t.active? s = some a ∧ b.frame.StandsFor a.frame
  /-- So what their code writes is its account's storage. -/
  writes u : t.Delegates u → ∀ run key value c, u.call.run = some run →
    (.store key value, c) ∈ run.steps → ∃ a, t.active? s = some a ∧ ∀ host input,
      (Script.step linked s host input (.store key value) c).2.machine.view =
        (View.setSlot s.store a.frame.account key value c.machine.view).2

/-- What the frames are that an operation's code issues, and that there is a running frame then. -/
theorem issued_identity (hu : u ∈ (op.tree linked s levels m).children)
    (hentry : u.active? s = some b) :
    ∃ a run i c, op.entry? s m = some a ∧ (op.tree linked s levels m).call.run = some run ∧
      (i, c) ∈ run.steps ∧ i.request? op.codeInput c = some u.call.op ∧
      c.machine = u.call.before ∧
      i.identity? a.frame.identity b.frame.account = some b.frame.identity := by
  obtain ⟨n, run, op', m', rfl, hrun, hasked, rfl⟩ := Operation.child_cases hu
  obtain ⟨i, c, hstep, hrequest, rfl⟩ := Script.mem_requests.mp hasked
  obtain ⟨a, ha⟩ := Operation.entry_of_step hrun hstep
  rw [tree_active?] at hentry
  refine ⟨a, run, i, c, ha, hrun, hstep, ?_, (Operation.tree_before n).symm, ?_⟩
  · rw [Operation.tree_op]
    exact hrequest
  · rw [Operation.codeRun?_of_entry _ _ ha] at hrun
    cases hrun
    exact Script.executed_issues hstep hrequest hentry

/-- What is executed is the code of the frame, which is the same at each instruction. -/
theorem runs_code {run : CodeRun} (hrun : (op.tree linked s levels m).call.run = some run) :
    run.steps = [] ∨ ∃ a host, op.entry? s m = some a ∧
      run.steps = Script.executed linked s host op.codeInput (Script.decode a.frame.code).1 a ∧
      ∀ x ∈ run.steps, a.frame.Continues x.2.frame := by
  cases levels with
  | zero => cases hrun
  | succ n =>
    replace hrun : op.codeRun? linked s (Script.host linked s n) m = some run := hrun
    cases hentry : op.entry? s m with
    | none => exact .inl (Operation.steps_of_no_entry hentry hrun)
    | some a =>
      rw [Operation.codeRun?_of_entry _ _ hentry] at hrun
      cases hrun
      exact .inr ⟨a, _, rfl, rfl, (Script.interpreter_trail a).continues.2⟩

/-- Where something is executed there is a frame, and it is the same at each instruction. -/
theorem step_continues {run : CodeRun} (hrun : (op.tree linked s levels m).call.run = some run)
    {x : Instruction × Active} (hx : x ∈ run.steps) :
    ∃ a, op.entry? s m = some a ∧ a.frame.Continues x.2.frame := by
  rcases runs_code hrun with hnil | ⟨a, _, ha, -, hcontinues⟩
  · rw [hnil] at hx
    exact absurd hx List.not_mem_nil
  · exact ⟨a, ha, hcontinues x hx⟩

/-- One link of a chain. -/
theorem child_standsFor (hu : u ∈ (op.tree linked s levels m).children)
    (hop : u.call.op.callType = .delegateCall) (hentry : u.active? s = some b) :
    ∃ a, op.entry? s m = some a ∧ b.frame.StandsFor a.frame := by
  obtain ⟨a, _, _, _, ha, -, -, hrequest, -, hidentity⟩ := issued_identity hu hentry
  exact ⟨a, ha, Instruction.standsFor_of_delegate hrequest hop hidentity⟩

/-- A chain of delegate calls leads to a tree. -/
theorem Delegates.is_tree (h : t.Delegates u) (ht : t = op.tree linked s levels m) :
    ∃ n op' m', u = Operation.tree linked s n op' m' := by
  induction h generalizing levels op m with
  | refl => exact ⟨levels, op, m, ht⟩
  | step hu _ _ ih =>
    subst ht
    obtain ⟨n, _, op', m', -, -, -, rfl⟩ := Operation.child_cases hu
    exact ih rfl

/-- **Along a chain of delegate calls** every frame stands for the first one. -/
theorem Delegates.standsFor (h : t.Delegates u) (ht : t = op.tree linked s levels m)
    (hentry : u.active? s = some b) :
    ∃ a, t.active? s = some a ∧ b.frame.StandsFor a.frame := by
  induction h generalizing levels op m with
  | refl => exact ⟨b, hentry, Std.Refl.refl b.frame⟩
  | step hu hop _ ih =>
    subst ht
    obtain ⟨n, _, op', m', -, -, -, rfl⟩ := Operation.child_cases hu
    obtain ⟨c, hc, hlast⟩ := ih rfl hentry
    obtain ⟨a, ha, hfirst⟩ := child_standsFor hu hop hc
    refine ⟨a, ?_, IsTrans.trans _ _ _ hlast hfirst⟩
    rw [tree_active?]
    exact ha

theorem identified (linked : Bool) (s : Setting) (levels : Nat) (op : Operation) (m : Machine) :
    (op.tree linked s levels m).Identified linked s where
  forms a ha := by
    rw [active?] at ha
    exact Operation.entry?_forms ha
  runs run hrun := by
    rw [tree_active?, Operation.tree_op]
    exact runs_code hrun
  issues u hu b hb := by
    rw [tree_active?, Operation.tree_op]
    exact issued_identity hu hb
  chain u hchain b hb := hchain.standsFor rfl hb
  writes u hchain run key value c hrun hstep := by
    -- The chain ends at a tree of its own, whose frame is that of the delegate.
    obtain ⟨n, op', m', rfl⟩ := hchain.is_tree rfl
    obtain ⟨b, hb, hcontinues⟩ := step_continues hrun hstep
    obtain ⟨a, ha, hstands⟩ := hchain.standsFor rfl ((tree_active? linked s n op' m').trans hb)
    have haccount : c.frame.account = a.frame.account :=
      hcontinues.account.trans hstands.account
    -- The account written to is the account of the frame that the chain started with.
    refine ⟨a, ha, fun host input => ?_⟩
    rw [← haccount]
    exact Script.step_store_view linked s host input key value c

/-- A frame of a tree **acts for** another one: a chain of delegate calls leads down to it from
there. The chain starts at a frame that is not a delegate's, or at the root of the whole tree, whose
frame stands for the parent that was given. -/
structure ActsFor (s : Setting) (root t origin : CallTree) : Prop where
  part : origin.PartOf root
  chain : origin.Delegates t
  starts a : origin.active? s = some a → a.frame.isDelegate = false ∨
    origin = root ∧ ∃ parent target input gas,
      root.call.op = .delegateCall parent target input gas ∧ a.frame.StandsFor parent

/-- Every frame of a tree acts for one that it stands for. -/
theorem exists_actsFor {root : CallTree} (ht : t.PartOf root)
    (hroot : root = op.tree linked s levels m) (hentry : t.active? s = some b) :
    ∃ origin a, ActsFor s root t origin ∧ origin.active? s = some a ∧
      b.frame.StandsFor a.frame := by
  have hstarts : ∀ {n op' m' a}, Operation.entry? s op' m' = some a →
      a.frame.isDelegate = false ∨ ∃ parent target input gas,
        (op'.tree linked s n m').call.op = .delegateCall parent target input gas ∧
          a.frame.StandsFor parent := by
    intro n op' m' a ha
    rw [Operation.tree_op]
    exact (Operation.entry?_forms ha).1.delegate
  -- Down to the part, keeping the frame on whose behalf it acts.
  induction ht generalizing levels op m with
  | root =>
    subst hroot
    refine ⟨_, b, ⟨.root _, .refl _, fun a ha => ?_⟩, hentry, Std.Refl.refl b.frame⟩
    rw [tree_active?] at ha
    exact (hstarts ha).imp_right fun hparent => ⟨rfl, hparent⟩
  | child hu hpart ih =>
    subst hroot
    obtain ⟨n, run, op', m', rfl, hrun, hasked, rfl⟩ := Operation.child_cases hu
    obtain ⟨origin, c, hacts, hc, hlast⟩ := ih rfl
    -- The child acts for itself, or it is a delegate and acts for its parent.
    rcases hacts.starts c hc with hfirst | ⟨rfl, parent, target, input, gas, hop, -⟩
    · exact ⟨origin, c, ⟨.child hu hacts.part, hacts.chain, fun a ha => .inl <| by
        rw [hc] at ha
        cases ha
        exact hfirst⟩, hc, hlast⟩
    · -- The chain starts at the child, and the child is a delegate's: it goes on upwards.
      have hdelegate : (op'.tree linked s n m').call.op.callType = .delegateCall := by
        rw [hop]
        rfl
      obtain ⟨a, ha, hlink⟩ := child_standsFor hu hdelegate hc
      refine ⟨_, a, ⟨.root _, .step hu hdelegate hacts.chain, fun a' ha' => ?_⟩, ?_,
        IsTrans.trans _ _ _ hlast hlink⟩
      · rw [tree_active?] at ha'
        exact (hstarts ha').imp_right fun hparent => ⟨rfl, hparent⟩
      · rw [tree_active?]
        exact ha

/-- **Who the frames are along the calls.** Whatever an operation comes to, every frame in its tree
is what its operation makes of it, is formed from the frame that issued it, and stays so. It acts
for the nearest frame above it that is not a delegate's, or for the parent that an outermost
delegate call was given. The same goes for what is issued by code that is run directly. The tree is
that of what was done. -/
theorem identity_along_calls (linked : Bool) (s : Setting) (op : Operation) (m : Machine) :
    let tree := Script.callTree linked s op m
    tree.Recounts linked s op m ∧
      (∀ t : CallTree, t.PartOf tree → t.Identified linked s ∧
        ∀ b, t.active? s = some b → ∃ origin a, ActsFor s tree t origin ∧
          origin.active? s = some a ∧ b.frame.StandsFor a.frame) ∧
      ∀ (host : Host) (input : Bytes) (a : Active),
        let steps := Script.executed linked s host input (Script.decode a.frame.code).1 a
        let ended := Script.interpreter linked s host input a
        Script.Trail linked s host input a steps ended.1 ended.2 ∧
          ∀ x ∈ steps, ∀ op' b, x.1.request? input x.2 = some op' →
            op'.entry? s x.2.machine = some b →
            x.1.identity? a.frame.identity b.frame.account = some b.frame.identity := by
  intro tree
  refine ⟨callTree_recounts linked s op m, fun t ht => ⟨?_, fun b hb => ?_⟩, ?_⟩
  · -- Each part is the tree of an operation.
    obtain ⟨n, op', m', rfl, -⟩ := part_is_tree s.env.transfers.within_unrelated ht
    exact identified linked s n op' m'
  · exact exists_actsFor ht rfl hb
  · -- The same holds of code that is run directly.
    intro host input a steps ended
    refine ⟨Script.interpreter_trail a, fun x hx op' b hrequest hentry => ?_⟩
    exact Script.executed_issues hx hrequest hentry

end CallTree

end

/-- A world in which the second account delegates to the third one, and that one calls itself with
its own code before it delegates to the fourth, which writes a slot. -/
def Setting.relaying : Setting where
  store := {
    account address := .ok (some {
      nonce := 0, balance := 9, storageRoot := emptyTrieHash
      codeHash := address.setWidth 256 })
    slot _ _ := .ok 0
    code codeHash := .ok <|
      if codeHash = 2 then Script.encode [.delegateCall 3 0]
      else if codeHash = 3 then Script.encode [.callCode 4 0 1, .delegateCall 4 0]
      else if codeHash = 4 then Script.encode [.store 5 7]
      else [] }
  chain := default

/-- At the end of a chain of two delegate calls the fourth account's code runs for the first
account, on the second one and with the value that was sent there. In between the same code was run
for the second account, with what that one sent to itself. -/
theorem CallTree.identity_along_calls_sample :
    let op := Operation.call 1 2 [] 0 6
    let tree := Script.callTree true .relaying op {}
    let done := (Script.dispatcher true .relaying).perform op {}
    (Ledger.slot Setting.relaying.store 2 5 done.2.view.ledger).1 = .ok 7 ∧
      (tree.children.flatMap fun t => t.children.map fun u =>
        (u.active? .relaying).map (·.frame.identity)) =
          [some { sender := 2, account := 2, codeAddress := 4, value := 1 },
            some { sender := 1, account := 2, codeAddress := 4, value := 6 }] ∧
      ∃ t ∈ tree.children, ∃ u ∈ t.children, ∃ b, u.active? .relaying = some b ∧
        b.frame.identity = { sender := 1, account := 2, codeAddress := 4, value := 6 } ∧
        u.Identified true .relaying ∧ ∃ origin a, ActsFor .relaying tree u origin ∧
          origin.active? .relaying = some a ∧ b.frame.StandsFor a.frame := by
  intro op tree done
  -- The second operation below the first acts for the outermost caller.
  have hlast : (tree.children[0]?.bind fun t => t.children[1]?.bind fun u =>
      (u.active? .relaying).map (·.frame.identity)) =
        some { sender := 1, account := 2, codeAddress := 4, value := 6 } := by decide +kernel
  obtain ⟨t, ht, hlast⟩ := Option.bind_eq_some_iff.mp hlast
  obtain ⟨u, hu, hlast⟩ := Option.bind_eq_some_iff.mp hlast
  obtain ⟨b, hb, hidentity⟩ := Option.map_eq_some_iff.mp hlast
  have hpart : u.PartOf tree :=
    .child (List.mem_of_getElem? ht) (.child (List.mem_of_getElem? hu) (.root u))
  obtain ⟨hidentified, hacts⟩ := (identity_along_calls true .relaying op {}).2.1 u hpart
  exact ⟨by decide +kernel, by decide +kernel, t, List.mem_of_getElem? ht, u,
    List.mem_of_getElem? hu, b, hb, hidentity, hidentified, hacts b hb⟩

end MessageCall
