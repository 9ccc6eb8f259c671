import MessageCall.Proofs.Dispatch.Steps
import MessageCall.Dispatch.Dispatcher

/-!
# The opening of an operation

What comes of the opening is stated once for all kinds of operations. It starts with the entry
check, which only looks. What follows is `Operation.prepare`. The steps that it has gone through are
told apart once and for all by `Operation.prepare_cases`, and what is to be known of them is read
off there. Above all, `Operation.Prepares` says what is known when a frame is ready: the snapshot is
of the ledger that the operation found, except that a creation has counted up the nonce of its
caller by then.
-/

namespace MessageCall

namespace Operation

/-- Preparing a call whose target is there and whose value goes through. -/
theorem prepare_call_of_found {s : Setting} {m : Machine} {caller target : Address} {value : Word}
    {l : Ledger} {paid : View} (input : Bytes) (gas : Gas)
    (hexists : Ledger.accountExists s.store target m.view.ledger = (.ok true, l))
    (htransfer : s.env.transfers.transfer s.store caller target value
      ⟨l, .exists target :: .snapshot :: m.view.accesses⟩ = (.ok (), paid)) :
    (Operation.call caller target input gas value).prepare s m =
      (do
        let frame ← Exec.frameFor s target (callFrame caller target gas value)
        return .started frame m.view.ledger.snapshot : Exec Opening) { m with view := paid } := by
  -- The machine after each of the three steps before the frame is read.
  let past : View := ⟨m.view.ledger, .snapshot :: m.view.accesses⟩
  let found : View := ⟨l, .exists target :: past.accesses⟩
  have hsnapshot : Exec.view View.snapshot m =
      (.ok m.view.ledger.snapshot, { m with view := past }) := rfl
  have hfound : View.accountExists s.store target past = (.ok true, found) :=
    View.watched_apply (v := past) hexists (.exists target)
  have hprepared : Exec.prepareTarget s target value { m with view := past } =
      (.ok false, { m with view := found }) :=
    Attempt.bind_of_ok (Exec.view_of_ok (m := { m with view := past }) hfound)
  -- The steps are put together in their order.
  refine (Attempt.bind_of_ok hsnapshot).trans ?_
  refine (Attempt.bind_of_ok hprepared).trans ?_
  exact Attempt.bind_of_ok (Exec.view_of_ok (m := { m with view := found }) htransfer)

/-- The **address that a creation derives**, unless it ends before that. -/
def derived? (s : Setting) (op : Operation) (m : Machine) : Option Address :=
  match op, op.refusal? s m with
  | .create caller _ _ _, (.ok none, m₁) =>
    match (Exec.countUp s caller m₁).1 with
    | .ok nonce => some (contractAddress caller nonce)
    | .error _ => none
  | _, _ => none

end Operation

/-! ### The entry check -/

/-- The errors of a refused operation. -/
def CallError.refuses : CallError → Bool
  | .depthExceeded | .insufficientBalance _ => true
  | _ => false

/-- The results of a refusal. -/
def IsRefusal (gas : Gas) (result : CallResult) : Prop :=
  result = .noOp gas ∨ result = .refused gas .depthExceeded ∨
    ∃ detail, result = .refused gas (.insufficientBalance detail)

section

variable {s : Setting} {op : Operation} {m m' : Machine} {Q R : Ledger → Ledger → Prop}

namespace Exec

/-- The entry check does what the policy does to answer, and looks at a balance. -/
theorem refusal?_meets [IsPreorder Ledger Q] (hp : s.env.transfers.Within s.store Q R)
    (hQ : ∀ {l l'}, Ledger.LooksIf s.store l l' → Q l l') (caller : Address) (value : Option Word)
    (gas : Gas) (detailed : Bool) :
    (refusal? s caller value gas detailed).Meets (Machine.Touches Q) Internal := by
  refine .bind .get fun m => .ite (.pure _) (.ite (.pure _) ?_)
  cases value with
  | none => exact .pure _
  | some value =>
    refine .bind (meets_view (hp.allows caller value)) fun allowed => ?_
    refine .ite (.pure _) (.ite (.bind ?_ fun _ => .pure _) (.pure _))
    exact (meets_read (.balance caller) trivial rfl).mono (fun h => h.mono hQ) id

/-- How the entry check refuses an operation: it is skipped where nothing may be nested, and else it
is reverted, because it is nested too deeply or because it may not send its value. -/
theorem refusal?_some {caller : Address} {value : Option Word} {gas : Gas} {detailed : Bool}
    {result : CallResult}
    (h : refusal? s caller value gas detailed m = (.ok (some result), m')) :
    (s.limits.noRecursion = true ∧ 0 < m.depth ∧ result = .noOp gas) ∨
      (s.limits.maxCallDepth.toNat < m.depth ∧ result = .refused gas .depthExceeded) ∨
      ∃ detail, result = .refused gas (.insufficientBalance detail) := by
  -- The case splits are the checks in their order, and each ends the refusal with its own result.
  obtain ⟨a, m₁, hget, h⟩ := Attempt.bind_eq_ok h
  cases hget
  by_cases hrecursion : s.limits.noRecursion = true ∧ 0 < m.depth
  · simp only [if_pos hrecursion] at h
    cases h
    exact .inl ⟨hrecursion.1, hrecursion.2, rfl⟩
  · simp only [if_neg hrecursion] at h
    by_cases hdepth : s.limits.maxCallDepth.toNat < m.depth
    · simp only [if_pos hdepth] at h
      cases h
      exact .inr (.inl ⟨hdepth, rfl⟩)
    · simp only [if_neg hdepth] at h
      cases value with
      | none => cases h
      | some value =>
        obtain ⟨allowed, m₂, -, h⟩ := Attempt.bind_eq_ok h
        cases allowed with
        | true => cases h
        | false =>
          cases detailed with
          | true =>
            obtain ⟨available, m₃, -, h⟩ := Attempt.bind_eq_ok h
            cases h
            exact .inr (.inr ⟨_, rfl⟩)
          | false =>
            cases h
            exact .inr (.inr ⟨_, rfl⟩)

/-- An operation that is nested too deeply is refused for that, before anything is asked or read. -/
theorem refusal?_of_depth (hrecursion : s.limits.noRecursion = false)
    (hdepth : s.limits.maxCallDepth.toNat < m.depth) (caller : Address) (value : Option Word)
    (gas : Gas) (detailed : Bool) :
    refusal? s caller value gas detailed m = (.ok (some (.refused gas .depthExceeded)), m) := by
  have hnested : ¬ (s.limits.noRecursion = true ∧ 0 < m.depth) := by
    rw [hrecursion]
    exact fun h => nomatch h.1
  unfold refusal?
  rw [Attempt.bind_of_ok (Attempt.get_apply m)]
  simp only [if_neg hnested, if_pos hdepth]
  rfl

/-- The entry check lets an operation pass if it is not nested where nothing may be, not nested too
deeply, and allowed to send its value. -/
theorem refusal?_eq_none_iff {caller : Address} {value : Option Word} {gas : Gas} {detailed : Bool}
    {refused : Option CallResult}
    (h : refusal? s caller value gas detailed m = (.ok refused, m')) :
    refused = none ↔ ¬ (s.limits.noRecursion = true ∧ 0 < m.depth) ∧
      ¬ s.limits.maxCallDepth.toNat < m.depth ∧
      ∀ v, value = some v → (s.env.transfers.allows s.store caller v m.view).1 = .ok true := by
  obtain ⟨a, m₁, hget, h⟩ := Attempt.bind_eq_ok h
  cases hget
  -- First whether calls are allowed to nest, then the depth, then the policy.
  by_cases hrecursion : s.limits.noRecursion = true ∧ 0 < m.depth
  · simp only [if_pos hrecursion] at h
    cases h
    exact ⟨nofun, fun hpass => absurd hrecursion hpass.1⟩
  · simp only [if_neg hrecursion] at h
    by_cases hdepth : s.limits.maxCallDepth.toNat < m.depth
    · simp only [if_pos hdepth] at h
      cases h
      exact ⟨nofun, fun hpass => absurd hdepth hpass.2.1⟩
    · simp only [if_neg hdepth] at h
      cases value with
      | none =>
        cases h
        exact ⟨fun _ => ⟨hrecursion, hdepth, nofun⟩, fun _ => rfl⟩
      | some value =>
        -- Only now is the policy asked, and its answer decides.
        obtain ⟨allowed, m₂, hallows, h⟩ := Attempt.bind_eq_ok h
        have hanswer := congrArg Prod.fst (view_eq hallows).1
        cases allowed with
        | true =>
          cases h
          refine ⟨fun _ => ⟨hrecursion, hdepth, fun v hv => ?_⟩, fun _ => rfl⟩
          cases hv
          exact hanswer
        | false =>
          have hnot : ¬ (s.env.transfers.allows s.store caller value m.view).1 = .ok true := by
            rw [hanswer]
            exact nofun
          refine ⟨fun hnone => ?_, fun hpass => absurd (hpass.2.2 value rfl) hnot⟩
          -- A refusal with or without the detail is a refusal.
          cases detailed with
          | true =>
            obtain ⟨available, m₃, -, h⟩ := Attempt.bind_eq_ok h
            cases h
            cases hnone
          | false =>
            cases h
            cases hnone

end Exec

namespace Operation

/-- The value that an operation sends, and from whom. -/
def sends : Operation → Option (Address × Word)
  | .call caller _ _ _ value | .callCode caller _ _ _ value | .create caller _ _ value =>
    some (caller, value)
  | .delegateCall .. => none

/-- An operation passes its entry checks. -/
def Passes (s : Setting) (op : Operation) (m : Machine) : Prop :=
  ¬ (s.limits.noRecursion = true ∧ 0 < m.depth) ∧ ¬ s.limits.maxCallDepth.toNat < m.depth ∧
    ∀ caller value, op.sends = some (caller, value) →
      (s.env.transfers.allows s.store caller value m.view).1 = .ok true

/-- All operations have the same entry check, for what they send. -/
theorem refusal?_eq (s : Setting) (op : Operation) :
    ∃ caller value detailed, op.refusal? s = Exec.refusal? s caller value op.gas detailed ∧
      ∀ c v, op.sends = some (c, v) ↔ c = caller ∧ value = some v := by
  have hsends : ∀ (caller c : Address) (value v : Word),
      some (caller, value) = some (c, v) ↔ c = caller ∧ some value = some v := by
    intro caller c value v
    constructor
    · intro h
      cases h
      exact ⟨rfl, rfl⟩
    · rintro ⟨rfl, h⟩
      cases h
      rfl
  -- A delegated call sends nothing, and only the call to code asks for the detail.
  cases op with
  | call caller _ _ _ value => exact ⟨caller, some value, false, rfl, fun c v => hsends _ c _ v⟩
  | callCode caller _ _ _ value =>
    exact ⟨caller, some value, true, rfl, fun c v => hsends _ c _ v⟩
  | delegateCall parent _ _ _ =>
    refine ⟨parent.account, none, false, rfl, fun _ _ => ⟨nofun, fun h => ?_⟩⟩
    cases h.2
  | create caller _ _ value => exact ⟨caller, some value, false, rfl, fun c v => hsends _ c _ v⟩

theorem refusal?_eq_none_iff {refused : Option CallResult}
    (h : op.refusal? s m = (.ok refused, m')) : refused = none ↔ op.Passes s m := by
  obtain ⟨caller, value, detailed, heq, hsends⟩ := op.refusal?_eq s
  rw [heq] at h
  rw [Exec.refusal?_eq_none_iff h]
  unfold Passes
  refine and_congr Iff.rfl (and_congr Iff.rfl ⟨fun hallows c v hcv => ?_, fun hallows v hv => ?_⟩)
  · obtain ⟨rfl, hv⟩ := (hsends c v).mp hcv
    exact hallows v hv
  · exact hallows caller v ((hsends caller v).mpr ⟨rfl, hv⟩)

theorem refusal?_meets [IsPreorder Ledger Q] (hp : s.env.transfers.Within s.store Q R)
    (hQ : ∀ {l l'}, Ledger.LooksIf s.store l l' → Q l l') (op : Operation) :
    (op.refusal? s).Meets (Machine.Touches Q) Internal := by
  obtain ⟨caller, value, detailed, heq, -⟩ := op.refusal?_eq s
  rw [heq]
  exact Exec.refusal?_meets hp hQ caller value op.gas detailed

theorem refusal?_result {result : CallResult} (h : op.refusal? s m = (.ok (some result), m')) :
    IsRefusal op.gas result := by
  obtain ⟨caller, value, detailed, heq, -⟩ := op.refusal?_eq s
  rw [heq] at h
  exact (Exec.refusal?_some h).imp (fun h => h.2.2) (Or.imp_left And.right)

/-- An outermost operation is refused only for what it would send. -/
theorem refusal?_outermost {result : CallResult} (hdepth : m.depth = 0)
    (h : op.refusal? s m = (.ok (some result), m')) :
    ∃ detail, result = .refused op.gas (.insufficientBalance detail) := by
  obtain ⟨caller, value, detailed, heq, -⟩ := op.refusal?_eq s
  rw [heq] at h
  rcases Exec.refusal?_some h with ⟨-, hnested, -⟩ | ⟨hdeep, -⟩ | hinsufficient
  · exact absurd hdepth (Nat.ne_of_gt hnested)
  · rw [hdepth] at hdeep
    exact absurd hdeep (Nat.not_lt_zero _)
  · exact hinsufficient

/-- An operation is refused for being nested too deeply only if it is. -/
theorem depth_of_refusal? {result : CallResult}
    (h : op.refusal? s m = (.ok (some result), m'))
    (hresult : result.error? = some .depthExceeded) : s.limits.maxCallDepth.toNat < m.depth := by
  obtain ⟨caller, value, detailed, heq, -⟩ := op.refusal?_eq s
  rw [heq] at h
  rcases Exec.refusal?_some h with ⟨-, -, rfl⟩ | ⟨hdepth, -⟩ | ⟨detail, rfl⟩
  · cases hresult
  · exact hdepth
  · cases hresult

theorem refusal?_of_depth (hrecursion : s.limits.noRecursion = false)
    (hdepth : s.limits.maxCallDepth.toNat < m.depth) (op : Operation) :
    op.refusal? s m = (.ok (some (.refused op.gas .depthExceeded)), m) := by
  obtain ⟨caller, value, detailed, heq, -⟩ := op.refusal?_eq s
  rw [heq]
  exact Exec.refusal?_of_depth hrecursion hdepth caller value op.gas detailed

/-- Where operations may be nested, a refusal has an error. -/
theorem refusal?_reverts {result : CallResult} (hrecursion : s.limits.noRecursion = false)
    (h : op.refusal? s m = (.ok (some result), m')) : ∃ e, result.error? = some e := by
  obtain ⟨caller, value, detailed, heq, -⟩ := op.refusal?_eq s
  rw [heq] at h
  rcases Exec.refusal?_some h with ⟨hskips, -⟩ | ⟨-, rfl⟩ | ⟨detail, rfl⟩
  · rw [hrecursion] at hskips
    cases hskips
  · exact ⟨_, rfl⟩
  · exact ⟨_, rfl⟩

end Operation

/-! ### Preparing a frame -/

namespace Exec

variable [Ledger.Admits s.store R]

/-- Making sure that the target of a call exists is done by operations. -/
theorem prepareTarget_meets (target : Address) (value : Word) :
    (prepareTarget s target value).Meets (Machine.Touches R) Internal := by
  refine .bind (meets_op (.accountExists target) trivial rfl) fun found => ?_
  refine .ite (.pure _) (.ite (.pure _) (.bind ?_ fun _ => .pure _))
  exact meets_op (f := fun _ => .done) (.createAccount target) trivial rfl

omit [Ledger.Admits s.store R] in
/-- Only a call without value is skipped, and it has only looked. -/
theorem prepareTarget_skips {target : Address} {value : Word}
    (h : prepareTarget s target value m = (.ok true, m')) :
    value = 0 ∧ m.Touches (Ledger.LooksIf s.store) m' := by
  obtain ⟨found, m₁, hfound, h⟩ := Attempt.bind_eq_ok h
  have hlooks := (meets_read (.accountExists target) trivial rfl).of_eq hfound
  cases found with
  | true => cases h
  | false =>
    simp only [Bool.false_eq_true, if_false] at h
    split at h
    · next hskips =>
      cases h
      exact ⟨hskips.2.2, hlooks⟩
    · obtain ⟨_, m₂, -, h⟩ := Attempt.bind_eq_ok h
      cases h

omit [Ledger.Admits s.store R] in
/-- Reading the code that a frame is to run is only looking. -/
theorem frameFor_looks (codeAddress : Address) (frameOf : Bytes → Hash → Nat → CallFrame) :
    (frameFor s codeAddress frameOf).Meets (Machine.Touches (Ledger.LooksIf s.store)) Internal := by
  refine .bind (meets_read (.code codeAddress) trivial rfl) fun code => ?_
  refine .bind (meets_read (.codeHash codeAddress) trivial rfl) fun codeHash => ?_
  exact .bind .get fun _ => .pure _

theorem frameFor_meets (codeAddress : Address) (frameOf : Bytes → Hash → Nat → CallFrame) :
    (frameFor s codeAddress frameOf).Meets (Machine.Touches R) Internal :=
  (frameFor_looks codeAddress frameOf).mono (fun h => h.mono Ledger.Admits.looks) id

theorem frameFor_result {codeAddress : Address} {frameOf : Bytes → Hash → Nat → CallFrame}
    {frame : CallFrame} (h : frameFor s codeAddress frameOf m = (.ok frame, m')) :
    ∃ code codeHash, frame = frameOf code codeHash m'.depth := by
  obtain ⟨code, _, -, h⟩ := Attempt.bind_eq_ok h
  obtain ⟨codeHash, _, -, h⟩ := Attempt.bind_eq_ok h
  obtain ⟨m₁, _, hget, h⟩ := Attempt.bind_eq_ok h
  cases hget
  cases h
  exact ⟨code, codeHash, rfl⟩

omit [Ledger.Admits s.store R] in
/-- Counting up a nonce is reading it and setting it. -/
theorem countUp_meets_of [IsPreorder Ledger R]
    (hlooks : ∀ {l l'}, Ledger.LooksIf s.store l l' → R l l') {caller : Address}
    (hset : ∀ next, (Exec.view (View.setNonce s.store caller next)).Meets (Machine.Touches R)
      Internal) : (countUp s caller).Meets (Machine.Touches R) Internal := by
  have hread : (Exec.view (View.nonce s.store caller)).Meets
      (Machine.Touches (Ledger.LooksIf s.store)) Internal :=
    meets_read (.nonce caller) trivial rfl
  refine .bind (hread.mono (fun h => h.mono hlooks) id) fun nonce => ?_
  cases succ? nonce with
  | none => exact .throw rfl
  | some next => exact .bind (hset next) fun _ => .pure _

theorem countUp_meets (caller : Address) :
    (countUp s caller).Meets (Machine.Touches R) Internal :=
  countUp_meets_of Ledger.Admits.looks fun next =>
    meets_op (f := fun _ => .done) (.setNonce caller next) trivial rfl

omit [Ledger.Admits s.store R] in
/-- Putting an account in place is creating it, setting its nonce and moving the value. -/
theorem found_meets_of [IsPreorder Ledger R] {caller address : Address} {value : Word}
    (hcreate : (Exec.view (View.createAccount s.store address)).Meets (Machine.Touches R) Internal)
    (hset : ∀ nonce, (Exec.view (View.setNonce s.store address nonce)).Meets (Machine.Touches R)
      Internal)
    (htransfer : (s.env.transfers.transfer s.store caller address value).Meets (View.Touches R)
      fun _ => True) : (found s caller address value).Meets (Machine.Touches R) Internal := by
  have hmoved := meets_view htransfer
  exact .bind hcreate fun _ => .ite (.bind (hset _) fun _ => hmoved) hmoved

theorem found_meets (hp : s.env.transfers.Within s.store Q R) (caller address : Address)
    (value : Word) : (found s caller address value).Meets (Machine.Touches R) Internal :=
  found_meets_of (meets_op (f := fun _ => .done) (.createAccount address) trivial rfl)
    (fun nonce => meets_op (f := fun _ => .done) (.setNonce address nonce) trivial rfl)
    (hp.transfer caller address value)

theorem snapshot_meets [IsPreorder Ledger R] :
    (Exec.view View.snapshot).Meets (Machine.Touches R) Internal where
  keeps m := ⟨(Std.Refl.refl m.view.ledger : R _ _), rfl⟩
  error he := by cases he

/-- A nonce that has been counted up was read and was not the last one. -/
theorem countUp_eq_ok {caller : Address} {nonce : UInt64}
    (h : countUp s caller m = (.ok nonce, m')) :
    ∃ next l, Ledger.nonce s.store caller m.view.ledger = (.ok nonce, l) ∧
      succ? nonce = some next ∧
      Ledger.setNonce s.store caller next l = (.ok (), m'.view.ledger) := by
  obtain ⟨current, m₁, hread, h⟩ := Attempt.bind_eq_ok h
  cases hnext : succ? current with
  | none =>
    simp only [hnext] at h
    cases h
  | some next =>
    simp only [hnext] at h
    obtain ⟨_, m₂, hset, h⟩ := Attempt.bind_eq_ok h
    cases h
    exact ⟨next, _, (watched_eq hread).1, hnext, (watched_eq hset).1⟩

end Exec

namespace Machine

/-- The machine once a snapshot has been taken, which shows in the list of accesses only. -/
def marked (m : Machine) : Machine :=
  { m with view := { m.view with accesses := .snapshot :: m.view.accesses } }

/-- The machine once the tracer has been told the address of a creation. -/
def told (address : Address) (m : Machine) : Machine :=
  { m with tracer := m.tracer.setTarget address (m.depth = 0) }

theorem touches_marked [IsPreorder Ledger R] (m : Machine) : m.Touches R m.marked where
  ledger := (Std.Refl.refl m.view.ledger : R _ _)
  rest := rfl

end Machine

namespace Operation

/-- **How an operation is prepared** that has passed its entry check, step by step. -/
inductive Prepared (s : Setting) (m : Machine) : Operation → Opening → Machine → Prop
  /-- A call is skipped that would only bring an empty account into existence. -/
  | skipped {caller target : Address} {input : Bytes} {gas : Gas} {value : Word} {m' : Machine}
    (htarget : Exec.prepareTarget s target value m.marked = (.ok true, m')) :
    Prepared s m (.call caller target input gas value) (.finished (.noOp gas)) m'
  /-- The value of a call is moved after the snapshot, so going back returns it. -/
  | call {caller target : Address} {input : Bytes} {gas : Gas} {value : Word} {m₁ m₂ m' : Machine}
    {frame : CallFrame}
    (htarget : Exec.prepareTarget s target value m.marked = (.ok false, m₁))
    (htransfer : Exec.view (s.env.transfers.transfer s.store caller target value) m₁ =
      (.ok (), m₂))
    (hframe : Exec.frameFor s target (callFrame caller target gas value) m₂ = (.ok frame, m')) :
    Prepared s m (.call caller target input gas value) (.started frame m.view.ledger.snapshot) m'
  | callCode {caller target : Address} {input : Bytes} {gas : Gas} {value : Word} {m' : Machine}
    {frame : CallFrame}
    (hframe : Exec.frameFor s target (callCodeFrame caller target gas value) m.marked =
      (.ok frame, m')) :
    Prepared s m (.callCode caller target input gas value)
      (.started frame m.view.ledger.snapshot) m'
  | delegateCall {parent frame : CallFrame} {target : Address} {input : Bytes} {gas : Gas}
    {m' : Machine}
    (hframe : Exec.frameFor s target (delegateFrame parent target gas) m.marked =
      (.ok frame, m')) :
    Prepared s m (.delegateCall parent target input gas)
      (.started frame m.view.ledger.snapshot) m'
  /-- The nonce of a creation's caller is counted up before the snapshot, and the new account is put
  in place after it. -/
  | create {caller : Address} {initCode : Bytes} {gas : Gas} {value : Word} {nonce : UInt64}
    {m₁ m' : Machine} (hcount : Exec.countUp s caller m = (.ok nonce, m₁))
    (hfound : Exec.found s caller (contractAddress caller nonce) value
      (m₁.marked.told (contractAddress caller nonce)) = (.ok (), m')) :
    Prepared s m (.create caller initCode gas value)
      (.started (creationFrame caller (contractAddress caller nonce) initCode gas value m'.depth)
        m₁.view.ledger.snapshot) m'

/-- **An operation that has been prepared** went through these steps. -/
theorem prepare_cases {o : Opening} (h : op.prepare s m = (.ok o, m')) : Prepared s m op o m' := by
  -- Each case peels off the steps of one operation in their order.
  cases op with
  | call caller target input gas value =>
    obtain ⟨_, _, hsnapshot, h⟩ := Attempt.bind_eq_ok h
    cases hsnapshot
    -- A call to an absent account that needs nothing is skipped at this place.
    obtain ⟨skipped, m₁, htarget, h⟩ := Attempt.bind_eq_ok h
    cases skipped with
    | true =>
      cases h
      exact .skipped htarget
    | false =>
      obtain ⟨_, m₂, htransfer, h⟩ := Attempt.bind_eq_ok h
      obtain ⟨frame, _, hframe, h⟩ := Attempt.bind_eq_ok h
      cases h
      exact .call htarget htransfer hframe
  | callCode caller target input gas value =>
    obtain ⟨_, _, hsnapshot, h⟩ := Attempt.bind_eq_ok h
    cases hsnapshot
    obtain ⟨frame, _, hframe, h⟩ := Attempt.bind_eq_ok h
    cases h
    exact .callCode hframe
  | delegateCall parent target input gas =>
    obtain ⟨_, _, hsnapshot, h⟩ := Attempt.bind_eq_ok h
    cases hsnapshot
    obtain ⟨frame, _, hframe, h⟩ := Attempt.bind_eq_ok h
    cases h
    exact .delegateCall hframe
  | create caller initCode gas value =>
    -- A creation names its account before the account is there.
    obtain ⟨nonce, m₁, hcount, h⟩ := Attempt.bind_eq_ok h
    obtain ⟨_, _, hsnapshot, h⟩ := Attempt.bind_eq_ok h
    obtain ⟨_, _, htold, h⟩ := Attempt.bind_eq_ok h
    obtain ⟨_, _, hfound, h⟩ := Attempt.bind_eq_ok h
    cases h
    cases hsnapshot
    cases htold
    exact .create hcount hfound

/-- The ledger that the snapshot of an operation's frame is of: a creation has counted up the nonce
of its caller by then. -/
def Stands (store : Store) (op : Operation) (l base : Ledger) : Prop :=
  match op with
  | .create caller _ _ _ => ∃ nonce next l₁, Ledger.nonce store caller l = (.ok nonce, l₁) ∧
      succ? nonce = some next ∧ Ledger.setNonce store caller next l₁ = (.ok (), base)
  | _ => base = l

/-- A relation that admits setting a nonce holds of what comes before the snapshot. -/
theorem Stands.covered {l base : Ledger} [Ledger.Admits s.store R]
    (h : op.Stands s.store l base) : R l base := by
  cases op with
  | create caller initCode gas value =>
    obtain ⟨nonce, next, l₁, hnonce, -, hset⟩ := h
    have h₁ : R l (Ledger.nonce s.store caller l).2 :=
      Ledger.admits_of_perform (.nonce caller) trivial rfl l
    have h₂ : R l₁ (Ledger.setNonce s.store caller next l₁).2 :=
      Ledger.admits_of_perform (f := fun _ => .done) (.setNonce caller next) trivial rfl l₁
    rw [hnonce] at h₁
    rw [hset] at h₂
    exact IsTrans.trans _ _ _ h₁ h₂
  | call | callCode | delegateCall =>
    obtain rfl : base = l := h
    exact Std.Refl.refl base

/-- A frame that an operation has prepared, and the state in which it is to run. -/
structure Prepares (R : Ledger → Ledger → Prop) (s : Setting) (op : Operation) (m : Machine)
    (frame : CallFrame) (snapshot : Ledger.Snapshot) (m' : Machine) : Prop where
  stands : ∃ base, op.Stands s.store m.view.ledger base ∧ snapshot = base.snapshot ∧
    R base m'.view.ledger
  depth : m'.depth = m.depth
  tracer : m.tracer.Carries m'.tracer
  gasLimit : frame.gasLimit = op.gas
  gasUsed : frame.gasUsed = 0

/-- What an operation does after its entry check: a call may be skipped, and else a frame is
prepared. -/
def Goes (R : Ledger → Ledger → Prop) (s : Setting) (op : Operation) (m : Machine) :
    Opening → Machine → Prop
  | .finished result, m' => result = .noOp op.gas ∧ m.Touches R m'
  | .started frame snapshot, m' => op.Prepares R s m frame snapshot m'

variable [Ledger.Admits s.store R]

/-- The part of a call's preparation that comes after the snapshot. -/
theorem goes_of_frameFor {m₁ : Machine} {codeAddress : Address}
    {frameOf : Bytes → Hash → Nat → CallFrame} {frame : CallFrame}
    (hstands : op.Stands s.store m.view.ledger m.view.ledger)
    (hm : m.Touches R m₁) (h : Exec.frameFor s codeAddress frameOf m₁ = (.ok frame, m'))
    (hgas : ∀ code codeHash depth, (frameOf code codeHash depth).gasLimit = op.gas ∧
      (frameOf code codeHash depth).gasUsed = 0) :
    op.Goes R s m (.started frame m.view.ledger.snapshot) m' := by
  have hm' : m.Touches R m' :=
    IsTrans.trans _ _ _ hm ((Exec.frameFor_meets codeAddress frameOf).of_eq h)
  obtain ⟨code, codeHash, rfl⟩ := Exec.frameFor_result h
  obtain ⟨hlimit, hused⟩ := hgas code codeHash m'.depth
  exact ⟨⟨_, hstands, rfl, hm'.ledger⟩, hm'.depth, hm'.moves.tracer, hlimit, hused⟩

/-- **Preparing an operation** that has passed its entry check. -/
theorem prepare_goes (hp : s.env.transfers.Within s.store Q R) {o : Opening}
    (h : op.prepare s m = (.ok o, m')) : op.Goes R s m o m' := by
  have hmarked : m.Touches R m.marked := m.touches_marked
  -- What was passed on the way touches the ledger as far as the steps allow.
  cases prepare_cases h with
  | skipped htarget =>
    exact ⟨rfl, IsTrans.trans _ _ _ hmarked ((Exec.prepareTarget_meets _ _).of_eq htarget)⟩
  | call htarget htransfer hframe =>
    have h₁ := IsTrans.trans _ _ _ hmarked ((Exec.prepareTarget_meets _ _).of_eq htarget)
    have h₂ := IsTrans.trans _ _ _ h₁ ((Exec.meets_view (hp.transfer _ _ _)).of_eq htransfer)
    exact goes_of_frameFor rfl h₂ hframe fun _ _ _ => ⟨rfl, rfl⟩
  | callCode hframe | delegateCall hframe =>
    exact goes_of_frameFor rfl hmarked hframe fun _ _ _ => ⟨rfl, rfl⟩
  -- Only a creation writes before its snapshot: it counts up the nonce of its creator.
  | @create _ _ _ _ nonce m₁ _ hcount hfound =>
    obtain ⟨next, l, hnonce, hnext, hset⟩ := Exec.countUp_eq_ok hcount
    have hcounted := (Exec.countUp_meets (R := R) _).of_eq hcount
    have hfounded := (Exec.found_meets (R := R) hp _ _ _).of_eq hfound
    refine ⟨⟨m₁.view.ledger, ⟨nonce, next, l, hnonce, hnext, hset⟩, rfl, hfounded.ledger⟩,
      hfounded.depth.trans hcounted.depth, ?_, rfl, rfl⟩
    rw [hfounded.tracer, ← hcounted.tracer]
    exact m₁.tracer.setTarget_carries _ _

omit [Ledger.Admits s.store R] in
/-- Only a call without value is ended at this point, and it has only looked. -/
theorem prepare_finished {result : CallResult} (h : op.prepare s m = (.ok (.finished result), m')) :
    m.Touches (Ledger.LooksIf s.store) m' ∧ result = .noOp op.gas ∧
      ∃ caller target input gas, op = .call caller target input gas 0 := by
  cases prepare_cases h with
  | skipped htarget =>
    obtain ⟨rfl, hlooks⟩ := Exec.prepareTarget_skips htarget
    exact ⟨IsTrans.trans _ _ _ m.touches_marked hlooks, rfl, _, _, _, _, rfl⟩

omit [Ledger.Admits s.store R] in
/-- Preparing a call is making sure that the target exists, moving the value and reading the code,
or no more than reading the code. -/
theorem prepare_touches_of [IsPreorder Ledger R]
    (hlooks : ∀ {l l'}, Ledger.LooksIf s.store l l' → R l l')
    (htarget : ∀ target value, (Exec.prepareTarget s target value).Meets (Machine.Touches R)
      Internal)
    (htransfer : ∀ caller target value, (s.env.transfers.transfer s.store caller target value).Meets
      (View.Touches R) fun _ => True)
    (hop : op.callType ≠ .create) : (op.prepare s).Meets (Machine.Touches R) Internal := by
  have hframe : ∀ {codeAddress : Address} {frameOf : Bytes → Hash → Nat → CallFrame},
      (Exec.frameFor s codeAddress frameOf).Meets (Machine.Touches R) Internal :=
    (Exec.frameFor_looks _ _).mono (fun h => h.mono hlooks) id
  -- A creation is left out, for it counts up a nonce before the snapshot.
  cases op with
  | create => exact absurd rfl hop
  | call caller target input gas value =>
    refine .bind Exec.snapshot_meets fun _ => .bind (htarget target value) fun skipped => ?_
    refine .ite (.pure _) (.bind (Exec.meets_view (htransfer caller target value)) fun _ => ?_)
    exact .bind hframe fun _ => .pure _
  | callCode caller target input gas value =>
    exact .bind Exec.snapshot_meets fun _ => .bind hframe fun _ => .pure _
  | delegateCall parent target input gas =>
    exact .bind Exec.snapshot_meets fun _ => .bind hframe fun _ => .pure _

/-- Only a creation does more than touch the view. -/
theorem prepare_touches (hp : s.env.transfers.Within s.store Q R) (hop : op.callType ≠ .create) :
    (op.prepare s).Meets (Machine.Touches R) Internal :=
  prepare_touches_of Ledger.Admits.looks Exec.prepareTarget_meets hp.transfer hop

/-- What preparing may do: it touches the view, and a creation tells the tracer an address. -/
theorem prepare_within {P : Machine → Machine → Prop} [IsPreorder Machine P]
    (hp : s.env.transfers.Within s.store Q R)
    (touches : ∀ {m m' : Machine}, m.Touches R m' → P m m')
    (told : ∀ (m : Machine) (address : Address) (outermost : Bool),
      P m { m with tracer := m.tracer.setTarget address outermost })
    (op : Operation) : (op.prepare s).Meets P Internal := by
  -- For a creation, what the tracer is told is a step of its own.
  by_cases hop : op.callType = .create
  · have within : ∀ {α : Type} {x : Exec α},
        x.Meets (Machine.Touches R) Internal → x.Meets P Internal :=
      fun h => h.mono touches id
    cases op with
    | create caller initCode gas value =>
      show (Exec.prepareCreation s caller initCode gas value).Meets P Internal
      refine .bind (within (Exec.countUp_meets caller)) fun nonce => ?_
      refine .bind (within Exec.snapshot_meets) fun _ => .bind ?_ fun _ => ?_
      · exact ⟨fun m => told m _ _, fun he => by cases he⟩
      · exact .bind (within (Exec.found_meets hp _ _ _)) fun _ => .bind .get fun _ => .pure _
    | _ => cases hop
  · exact (prepare_touches hp hop).mono touches id

theorem prepare_meets (hp : s.env.transfers.Within s.store Q R) (op : Operation) :
    (op.prepare s).Meets (Machine.Moves R) Internal := by
  refine prepare_within hp Machine.Touches.moves (fun m address outermost => ?_) op
  -- Telling the tracer the address does not touch the ledger.
  exact ⟨(Std.Refl.refl m.view.ledger : R _ _), rfl, m.tracer.setTarget_carries _ _⟩

/-! ### The whole opening -/

theorem opening_meets (hp : s.env.transfers.Within s.store R R) (op : Operation) :
    (op.opening s).Meets (Machine.Moves R) Internal := by
  have hrefusal := op.refusal?_meets hp Ledger.Admits.looks
  refine .bind (hrefusal.mono Machine.Touches.moves id) fun refused => ?_
  cases refused with
  | some result => exact .pure _
  | none => exact prepare_meets hp op

/-- Opening an operation changes the view and the trace, and nothing else. -/
theorem opening_opens (op : Operation) : (op.opening s).Meets Machine.Opens Internal := by
  have hp : s.env.transfers.Within s.store Ledger.Unrelated Ledger.Unrelated :=
    s.env.transfers.within_unrelated
  have hrefusal := op.refusal?_meets hp fun _ => trivial
  refine .bind (hrefusal.mono Machine.Touches.opens id) fun refused => ?_
  cases refused with
  | some result => exact .pure _
  | none => exact prepare_within hp Machine.Touches.opens (fun _ _ _ => rfl) op

/-- **Opening an operation** that succeeds: it is refused, or it goes on. -/
theorem opening_cases {o : Opening} (h : op.opening s m = (.ok o, m')) :
    (∃ result, op.refusal? s m = (.ok (some result), m') ∧ o = .finished result) ∨
      ∃ m₁, op.refusal? s m = (.ok none, m₁) ∧ op.prepare s m₁ = (.ok o, m') := by
  obtain ⟨refused, m₁, hrefused, h⟩ := Attempt.bind_eq_ok h
  cases refused with
  | some result =>
    cases h
    exact .inl ⟨result, hrefused, rfl⟩
  | none => exact .inr ⟨m₁, hrefused, h⟩

/-- Where a frame is started, the operation has passed its entry check and was prepared. -/
theorem opening_prepared {frame : CallFrame} {snapshot : Ledger.Snapshot}
    (h : op.opening s m = (.ok (.started frame snapshot), m')) :
    ∃ m₁, op.refusal? s m = (.ok none, m₁) ∧
      op.prepare s m₁ = (.ok (.started frame snapshot), m') := by
  rcases opening_cases h with ⟨_, -, hfinished⟩ | hprepared
  · cases hfinished
  · exact hprepared

/-- **What a frame can go back to.** Its snapshot is of the ledger that its operation stands on, as
the entry check has left it but for a nonce that may have been counted up. -/
theorem opening_stands (hp : s.env.transfers.Honest s.store) {frame : CallFrame}
    {snapshot : Ledger.Snapshot} (h : op.opening s m = (.ok (.started frame snapshot), m')) :
    ∃ (m₁ : Machine) (base : Ledger), op.Passes s m ∧ m.Touches (Ledger.LooksIf s.store) m₁ ∧
      op.Stands s.store m₁.view.ledger base ∧ snapshot = base.snapshot ∧
      Ledger.Leads s.store base m'.view.ledger := by
  obtain ⟨m₁, hrefusal, hprepare⟩ := opening_prepared h
  have hprepares : op.Prepares (Ledger.Leads s.store) s m₁ frame snapshot m' :=
    prepare_goes hp hprepare
  obtain ⟨base, hstands, hsnapshot, hleads⟩ := hprepares.stands
  exact ⟨m₁, base, (refusal?_eq_none_iff hrefusal).mp rfl, (op.refusal?_meets hp id).of_eq hrefusal,
    hstands, hsnapshot, hleads⟩

omit [Ledger.Admits s.store R] in
/-- **An operation that is ended before its frame runs** has only looked: it was refused, or it is a
call without value that is skipped. -/
theorem opening_finished_looks (hp : s.env.transfers.Within s.store (Ledger.LooksIf s.store) R)
    {result : CallResult} (h : op.opening s m = (.ok (.finished result), m')) :
    m.Touches (Ledger.LooksIf s.store) m' ∧
      (op.refusal? s m = (.ok (some result), m') ∨ result = .noOp op.gas ∧
        ∃ caller target input gas, op = .call caller target input gas 0) := by
  have hrefusal := op.refusal?_meets hp id
  rcases opening_cases h with ⟨_, hrefused, heq⟩ | ⟨m₁, hpassed, hprepare⟩
  · cases heq
    exact ⟨hrefusal.of_eq hrefused, .inl hrefused⟩
  · obtain ⟨hlooks, hskipped⟩ := prepare_finished hprepare
    exact ⟨IsTrans.trans _ _ _ (hrefusal.of_eq hpassed) hlooks, .inr hskipped⟩

/-! ### The address of a creation -/

theorem derived?_of_call (hop : op.callType ≠ .create) (s : Setting) (m : Machine) :
    op.derived? s m = none := by
  cases op with
  | create => exact absurd rfl hop
  | _ => rfl

/-- An operation that does not pass its entry check derives no address. -/
theorem derived?_of_stopped {r : Except CallError (Option CallResult)}
    (h : op.refusal? s m = (r, m')) (hr : r ≠ .ok none) : op.derived? s m = none := by
  cases op with
  | create =>
    unfold derived?
    rw [h]
    rcases r with e | _ | result
    · rfl
    · exact absurd rfl hr
    · rfl
  | _ => rfl

section Create

variable {caller : Address} {initCode : Bytes} {gas : Gas} {value : Word} {nonce : UInt64}
  {m₁ m₂ : Machine}

theorem derived?_of_counted
    (h : (Operation.create caller initCode gas value).refusal? s m = (.ok none, m₁))
    (hcount : Exec.countUp s caller m₁ = (.ok nonce, m₂)) :
    (Operation.create caller initCode gas value).derived? s m =
      some (contractAddress caller nonce) := by
  simp only [derived?, h, hcount]

theorem derived?_of_uncounted {e : CallError}
    (h : (Operation.create caller initCode gas value).refusal? s m = (.ok none, m₁))
    (hcount : Exec.countUp s caller m₁ = (.error e, m₂)) :
    (Operation.create caller initCode gas value).derived? s m = none := by
  simp only [derived?, h, hcount]

/-- A creation that is prepared has derived the address of its frame. -/
theorem derived?_of_prepared {o : Opening}
    (h : (Operation.create caller initCode gas value).refusal? s m = (.ok none, m₁))
    (hprepare : (Operation.create caller initCode gas value).prepare s m₁ = (.ok o, m')) :
    ∃ frame snapshot, o = .started frame snapshot ∧
      (Operation.create caller initCode gas value).derived? s m = some frame.account := by
  cases prepare_cases hprepare with
  | create hcount => exact ⟨_, _, rfl, derived?_of_counted h hcount⟩

/-- Once the nonce has been counted up, the tracer is told the address and nothing else. -/
theorem prepare_tracer {r : Except CallError Opening}
    (hcount : Exec.countUp s caller m = (.ok nonce, m₁))
    (h : (Operation.create caller initCode gas value).prepare s m = (r, m')) :
    m'.tracer = m₁.tracer.setTarget (contractAddress caller nonce) (m₁.depth = 0) := by
  replace h : Exec.prepareCreation s caller initCode gas value m = (r, m') := h
  rw [Exec.prepareCreation, Attempt.bind_of_ok hcount,
    Attempt.bind_of_ok (rfl : Exec.view View.snapshot m₁ = _),
    Attempt.bind_of_ok (Attempt.modify_apply _ _)] at h
  refine ((Attempt.Meets.of_eq (R := Machine.Touches Ledger.Unrelated) (E := Internal) ?_
    h).tracer).trans rfl
  refine .bind (Exec.found_meets s.env.transfers.within_unrelated _ _ _) fun _ => ?_
  exact .bind .get fun _ => .pure _

end Create

theorem derived?_of_finished {result : CallResult}
    (h : op.opening s m = (.ok (.finished result), m')) : op.derived? s m = none := by
  rcases opening_cases h with ⟨_, hrefusal, -⟩ | ⟨m₁, hrefusal, hprepare⟩
  · exact derived?_of_stopped hrefusal nofun
  · cases op with
    | create =>
      obtain ⟨_, _, heq, -⟩ := derived?_of_prepared hrefusal hprepare
      cases heq
    | _ => rfl

/-- **What the tracer has been told by the end of the opening**, however it has ended: nothing but
the address that has been derived. -/
theorem opening_tracer {r : Except CallError Opening} (h : op.opening s m = (r, m')) :
    m'.tracer = (op.derived? s m).elim m.tracer fun address =>
      m.tracer.setTarget address (m.depth = 0) := by
  have hp : s.env.transfers.Within s.store Ledger.Unrelated Ledger.Unrelated :=
    s.env.transfers.within_unrelated
  have htouches := op.refusal?_meets hp fun _ => trivial
  unfold opening at h
  -- By how the refusal ended: only where none was given can an account be named.
  rcases hrefusal : op.refusal? s m with ⟨e | _ | result, m₁⟩
  · rw [Attempt.bind_of_error hrefusal] at h
    cases h
    rw [derived?_of_stopped hrefusal nofun]
    exact (htouches.of_eq hrefusal).tracer
  · rw [Attempt.bind_of_ok hrefusal] at h
    have hrefused := htouches.of_eq hrefusal
    -- Of the operations only a creation names one.
    by_cases hop : op.callType = .create
    · cases op with
      | create caller initCode gas value =>
        have hcount := (Exec.countUp_meets (s := s) (R := Ledger.Unrelated) caller).keeps m₁
        rcases hcounted : Exec.countUp s caller m₁ with ⟨e | nonce, m₂⟩
        · -- The nonce cannot be counted up, and the creation ends there.
          rw [hcounted] at hcount
          simp only [prepare, Exec.prepareCreation, Attempt.bind_of_error hcounted] at h
          cases h
          rw [derived?_of_uncounted hrefusal hcounted]
          exact hcount.tracer.trans hrefused.tracer
        · rw [hcounted] at hcount
          rw [derived?_of_counted hrefusal hcounted, prepare_tracer hcounted h, hcount.tracer,
            hcount.depth, hrefused.tracer, hrefused.depth]
          rfl
      | _ => cases hop
    · rw [derived?_of_call hop]
      exact ((prepare_touches hp hop).of_eq h).tracer.trans hrefused.tracer
  · rw [Attempt.bind_of_ok hrefusal] at h
    cases h
    rw [derived?_of_stopped hrefusal nofun]
    exact (htouches.of_eq hrefusal).tracer

end Operation

end

end MessageCall
