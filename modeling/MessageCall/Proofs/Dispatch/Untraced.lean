import MessageCall.Proofs.Dispatch.Lockstep
import MessageCall.Proofs.Dispatch.Recording

/-!
# Execution without the tracer

Whether and how operations are traced makes no difference to anything else. Two machines that have
everything in common but their tracers (`Machine.untraced`) are alike in the sense of
`Machine.Alike`, with equal views and all kinds of frames told apart, so an operation has the same
result in both and leaves machines that again differ in their tracers only
(`Script.host_untraced`). The one place where the tracer could step in is the end of an operation,
where it reports an error if it has no node to close; but a node that has been opened is there to be
closed, whatever the mode of the tracer.

What the tracer itself holds is decided by its mode. A tracer to which an operation is not recorded
is the same after it, with all that the operation's code has asked for (`Script.host_silent`). So a
tracer of outermost operations holds the node of the last one with nothing under it
(`Script.host_alone`).
-/

namespace MessageCall

/-- The machine with another tracer. -/
def Machine.under (m : Machine) (t : Tracer) : Machine := { m with tracer := t }

/-- All of a machine but its tracer. -/
def Machine.untraced (m : Machine) : Machine := m.under .disabled

section

variable {linked : Bool} {s : Setting} {op : Operation} {m m' : Machine} {a a' : Active}

/-! ### Machines that differ in their tracers -/

/-- Nothing tells equal views apart. -/
theorem Setting.lockstep_eq (s : Setting) : s.Lockstep fun _ : Unit => Eq where
  uses _ _ x _ := .self x
  snapshot := by
    rintro _ v _ rfl
    exact ⟨(), rfl, id, .self _⟩

theorem Machine.alike_of_untraced (h : m.untraced = m'.untraced) : m.Alike id Eq m' where
  view := show m.untraced.view = m'.untraced.view from h ▸ rfl
  depth := show m.untraced.depth = m'.untraced.depth from h ▸ rfl
  cancelled := show m.untraced.cancelled = m'.untraced.cancelled from h ▸ rfl
  observed := show m.untraced.observed.blurred id = m'.untraced.observed.blurred id from h ▸ rfl

/-- With all kinds told apart there is nothing blurred. -/
theorem Observations.blurred_id (o : Observations) : o.blurred id = o := by
  unfold blurred
  rw [show (fun f : ObservedFrame => { f with callType := id f.callType }) = id from rfl,
    List.map_id]

theorem Machine.untraced_eq (h : m.Alike id Eq m') : m.untraced = m'.untraced := by
  have hobserved : m.observed = m'.observed := by
    rw [← m.observed.blurred_id, h.observed, Observations.blurred_id]
  obtain ⟨_, _, _, _, _⟩ := m
  obtain ⟨_, _, _, _, _⟩ := m'
  obtain ⟨rfl, rfl, rfl, -⟩ := h
  cases hobserved
  rfl

/-- **No operation depends on the tracer**, at any level. -/
theorem Script.host_untraced (linked : Bool) (s : Setting) (levels : Nat) (op : Operation)
    (h : m.untraced = m'.untraced) :
    (host linked s levels op m).1 = (host linked s levels op m').1 ∧
      (host linked s levels op m).2.untraced = (host linked s levels op m').2.untraced := by
  obtain ⟨hends, hafter⟩ := host_uniform s.lockstep_eq linked levels () (.same op) m m'
    (Machine.alike_of_untraced h)
  exact ⟨hends.eq, Machine.untraced_eq hafter⟩

theorem Script.performAll_untraced (linked : Bool) (ops : List Operation)
    (h : m.untraced = m'.untraced) :
    (performAll linked s ops m).untraced = (performAll linked s ops m').untraced := by
  induction ops generalizing m m' with
  | nil => exact h
  | cons op ops ih => exact ih (host_untraced linked s _ op h).2

/-- The address that a creation derives does not depend on the tracer. -/
theorem Operation.derived?_untraced (h : m.untraced = m'.untraced) :
    op.derived? s m = op.derived? s m' := by
  -- Only a creation derives an address.
  cases op with
  | create caller initCode gas value =>
    have hrefusal := refusal?_uniform (g := id) (i := ()) s.lockstep_eq
      (.create caller initCode gas value)
    unfold derived?
    rcases hrefusal.cases (Machine.alike_of_untraced h) with
      ⟨e, m₁, m₁', hm, hm', -⟩ | ⟨r, _, m₁, m₁', hm, hm', rfl, hafter⟩
    · rw [hm, hm']
    · rw [hm, hm']
      -- The check answers alike, and then the nonce that is counted up is the same.
      cases r with
      | some result => rfl
      | none =>
        have hcount := Exec.countUp_uniform (g := id) (i := ()) s.lockstep_eq caller m₁ m₁' hafter
        dsimp only
        rw [hcount.1.eq]
  | _ => rfl

/-! ### What the tracer holds -/

namespace Tracer

variable {t : Tracer} {isTop : Bool}

theorem enter_unrecorded (h : t.records isTop = false) (record : TraceRecord) :
    t.enter record isTop = t :=
  if_neg (by rw [h]; nofun)

theorem setTarget_unrecorded (h : t.records isTop = false) (target : Address) :
    t.setTarget target isTop = t :=
  if_neg (by rw [h]; nofun)

theorem exit_unrecorded (h : t.records isTop = false) (result : Except CallError CallResult) :
    (t.exit result isTop).2 = t := by
  unfold exit
  rw [if_neg (by rw [h]; nofun)]

/-- Where an operation is not recorded, those below it are not either. -/
theorem records_below (h : t.records isTop = false) : t.records false = false := by
  unfold records at h ⊢
  cases ht : t.active with
  | false => rfl
  | true =>
    cases isTop with
    | true =>
      rw [ht] at h
      cases h
    | false =>
      rw [ht] at h
      exact h

end Tracer

/-- The tracer is the same, if it does not record operations at the machine's level. -/
structure Machine.Silent (m m' : Machine) : Prop where
  depth : m'.depth = m.depth
  tracer : m.tracer.records (m.depth = 0) = false → m'.tracer = m.tracer

instance : IsPreorder Machine Machine.Silent where
  refl _ := ⟨rfl, fun _ => rfl⟩
  trans _ _ _ h h' := by
    refine ⟨h'.depth.trans h.depth, fun hrecords => ?_⟩
    rw [h'.tracer (by rw [h.tracer hrecords, h.depth]; exact hrecords), h.tracer hrecords]

/-- So it is while code runs. -/
def Active.Silent (a a' : Active) : Prop := a.machine.Silent a'.machine

instance : IsPreorder Active Active.Silent where
  refl a := (Std.Refl.refl a.machine : a.machine.Silent a.machine)
  trans _ _ _ h h' := (IsTrans.trans _ _ _ h h' : Machine.Silent _ _)

/-- What running code does is silent, if what the host does is. -/
theorem Script.step_silent {host : Host} (hhost : ∀ op (m : Machine), m.Silent (host op m).2)
    (input : Bytes) (i : Instruction) (a : Active) :
    a.Silent (step linked s host input i a).2 := by
  cases hrequest : i.request? input a with
  | some op =>
    have hsilent := hhost op a.machine
    rw [step_request hrequest]
    -- The operation asked for is silent, and resuming does not touch the tracer.
    refine ⟨?_, fun hrecords => ?_⟩
    · rcases hdone : host op a.machine with ⟨_ | _, m⟩
      · rw [hdone] at hsilent
        exact hsilent.depth
      · rw [hdone] at hsilent
        exact hsilent.depth
    · rw [resumed_tracer]
      exact hsilent.tracer hrecords
  -- An instruction that asks for nothing does not use the tracer.
  | none =>
    rcases hstep : step linked s host input i a with ⟨r, a'⟩
    have hquiet : Quiet Ledger.Unrelated i a r a' := step_quiet hrequest hstep
    exact ⟨hquiet.moves.depth, fun _ => hquiet.tracer⟩

/-- The tracer of an operation that is not recorded, once it has been opened. -/
theorem Operation.opening_silent {r : Except CallError Opening}
    (h : op.opening s (op.entered m) = (r, m'))
    (hrecords : m.tracer.records (m.depth = 0) = false) :
    m'.tracer = m.tracer := by
  have hentered : (op.entered m).tracer = m.tracer := Tracer.enter_unrecorded hrecords op.record
  rw [opening_tracer h, hentered]
  cases op.derived? s (op.entered m) with
  | none => rfl
  | some address => exact Tracer.setTarget_unrecorded hrecords address

/-- **What is not recorded leaves no trace**, with all that it comes to. -/
theorem Script.host_silent (linked : Bool) (s : Setting) (levels : Nat) (op : Operation)
    (m : Machine) : m.Silent (host linked s levels op m).2 := by
  induction levels generalizing op m with
  | zero => exact ⟨rfl, fun _ => rfl⟩
  | succ levels ih =>
    refine ⟨(host_meets s.env.transfers.within_unrelated linked _ op |>.keeps m).depth,
      fun hrecords => ?_⟩
    rcases hdone : host linked s (levels + 1) op m with ⟨result, m'⟩
    obtain ⟨m₂, hcourse, rfl⟩ := Operation.host_course hdone
    have htracer : m₂.tracer = m.tracer := by
      cases hcourse with
      | unopened hopen | unstarted hopen => exact Operation.opening_silent hopen hrecords
      | @ran frame snapshot m₁ _ run a _ hopen hrun htrail hends haborts =>
        have hopened := Operation.opening_silent hopen hrecords
        have hsilent := (htrail.keeps (step_silent ih op.codeInput)).1
        rw [show m₂.tracer = a.machine.tracer by rw [Operation.rest_eq_of_ran hends haborts]; rfl]
        -- Below the operation nothing is recorded either.
        refine (hsilent.tracer ?_).trans hopened
        show m₁.tracer.records (decide (m₁.depth + 1 = 0)) = false
        rw [hopened]
        exact Tracer.records_below hrecords
    show (m₂.tracer.exit _ _).2 = m.tracer
    rw [htracer, Tracer.exit_unrecorded hrecords]

theorem Script.performAll_silent (linked : Bool) (s : Setting) (ops : List Operation)
    (m : Machine) : m.Silent (performAll linked s ops m) := by
  induction ops generalizing m with
  | nil => exact Std.Refl.refl m
  | cons op ops ih => exact IsTrans.trans _ _ _ (host_silent linked s _ op m) (ih _)

/-- What is recorded of an operation before it ends does not depend on what was recorded before. -/
theorem Operation.openRecord_untraced (h : m.untraced = m'.untraced) :
    op.openRecord s m = op.openRecord s m' := by
  have hentered : (op.entered m).untraced = (op.entered m').untraced := h
  unfold openRecord
  rw [derived?_untraced hentered]

/-- **The node of an operation stands alone** in a tracer to which the operation is recorded and the
ones below it are not. -/
theorem Script.host_alone (linked : Bool) (s : Setting) (levels : Nat) (op : Operation)
    (hdepth : m.depth = 0) (hrecords : m.tracer.records true = true)
    (hbelow : m.tracer.records false = false) :
    let done := host linked s (levels + 1) op m
    done.2.tracer = { m.tracer with
      frames := [.node ((op.openRecord s m).ended (done.1.map Outcome.result)) []] } := by
  intro done
  have houtermost : m.tracer.records (m.depth = 0) = true := by
    rw [decide_eq_true hdepth]
    exact hrecords
  rcases hdone : done with ⟨result, m'⟩
  obtain ⟨m₂, hcourse, rfl⟩ := Operation.host_course hdone
  -- Opening at the outermost level discards what was there and opens one node.
  have hopened : ∀ {r m₁}, op.opening s (op.entered m) = (r, m₁) →
      m₁.tracer = m.tracer.opened (op.openRecord s m) [] [] := by
    intro r m₁ hopen
    rw [Operation.opening_records hopen houtermost, decide_eq_true hdepth]
    rfl
  have htracer : m₂.tracer = m.tracer.opened (op.openRecord s m) [] [] := by
    cases hcourse with
    | unopened hopen | unstarted hopen => exact hopened hopen
    -- The code runs one level deeper, where this tracer does not record.
    | @ran frame snapshot m₁ _ run a _ hopen hrun htrail hends haborts =>
      have hsilent := (htrail.keeps (step_silent (host_silent linked s levels) op.codeInput)).1
      have hm₁ := hopened hopen
      rw [show m₂.tracer = a.machine.tracer by rw [Operation.rest_eq_of_ran hends haborts]; rfl]
      refine (hsilent.tracer ?_).trans hm₁
      show m₁.tracer.records (decide (m₁.depth + 1 = 0)) = false
      rw [hm₁]
      exact hbelow
  show (m₂.tracer.exit _ _).2 = _
  -- The exit closes the one node that there is.
  rw [htracer, Tracer.exit_recorded houtermost]
  rfl

/-- **The tree of a tracer of outermost operations** is that of a tracer of all operations, without
the operations under its root. -/
theorem Script.host_pruned {levels : Nat} (h : m.untraced = m'.untraced) (hdepth : m.depth = 0)
    (hroom : s.HasRoom (levels + 1) m.depth) (hfull : m.tracer.Full)
    (hrecords : m'.tracer.records true = true) (hbelow : m'.tracer.records false = false) :
    ∃ root, (host linked s (levels + 1) op m).2.tracer.root? = some root ∧
      (host linked s (levels + 1) op m').2.tracer.root? = some (.node root.record []) := by
  let tree := op.tree linked s (levels + 1) m
  -- The full tracer holds the whole tree, the other one the root only.
  have hall := @host_records linked s (levels + 1) op m _ _ Prod.mk.eta.symm hroom hfull
  rw [decide_eq_true hdepth] at hall
  have hdepth' : m'.depth = 0 := (Machine.alike_of_untraced h).depth.symm.trans hdepth
  have halone := host_alone linked s levels op hdepth' hrecords hbelow
  -- The root's record is made of the operation, what it has derived and what has come of it.
  have hrecord : (tree.recorded s).record = (op.openRecord s m').ended
      ((host linked s (levels + 1) op m').1.map Outcome.result) := by
    have hresult : tree.call.result = (host linked s (levels + 1) op m').1 :=
      (congrArg Prod.fst (Operation.tree_done (levels + 1))).symm.trans
        (host_untraced linked s (levels + 1) op h).1
    calc
      (tree.recorded s).record = tree.call.traceRecord s := by rw [CallTree.recorded_eq]; rfl
      _ = (op.openRecord s m).ended (tree.call.result.map Outcome.result) :=
        Operation.traceRecord_eq linked s (levels + 1) op m
      _ = _ := by rw [Operation.openRecord_untraced h, hresult]
  refine ⟨tree.recorded s, ?_, ?_⟩
  · rw [hall]
    rfl
  · rw [halone, hrecord]
    rfl

/-! ### Any two tracers -/

/-- **Tracing does not influence execution.** After any sequence of outermost operations, the next
one has the same result under any two tracers, and leaves the same in everything but the tracer: the
accounts, the journal and the accesses, what was observed, and whether a stop has been asked for. A
tracer that is switched off holds nothing then, and the one tree that a tracer of outermost
operations holds is what a tracer of all operations holds, without the operations under its root. -/
theorem Script.tracing_is_invisible (linked : Bool) (s : Setting) (ops : List Operation)
    (op : Operation) {m₀ : Machine} (hdepth : m₀.depth = 0) :
    let done (t : Tracer) :=
      (dispatcher linked s).perform op (performAll linked s ops (m₀.under t))
    (∀ t t', (done t).1 = (done t').1 ∧ (done t).2.untraced = (done t').2.untraced) ∧
      (done .disabled).2.tracer = .disabled ∧
      ∃ root, (done .full).2.tracer.root? = some root ∧
        (done .top).2.tracer.root? = some (.node root.record []) := by
  intro done
  let before (t : Tracer) := performAll linked s ops (m₀.under t)
  -- No operation changes the mode of the tracer, nor the depth in the end.
  have hmoves : ∀ t, (m₀.under t).Moves Ledger.Unrelated (before t) :=
    fun t => performAll_moves s.env.transfers.within_unrelated linked ops _
  have hbefore : ∀ t, (before t).depth = 0 := fun t => (hmoves t).depth.trans hdepth
  -- The ledgers and the counters were the same before, whichever tracer there was.
  have hsame : ∀ t t', (before t).untraced = (before t').untraced :=
    fun t t' => performAll_untraced linked ops rfl
  have hblind : ∀ t t', (done t).1 = (done t').1 ∧ (done t).2.untraced = (done t').2.untraced :=
    fun t t' => host_untraced linked s _ op (hsame t t')
  have hmode : ∀ t isTop, (before t).tracer.records isTop = t.records isTop :=
    fun t => (hmoves t).tracer.records
  refine ⟨hblind, ?_, ?_⟩
  · -- Nothing is recorded, from the first operation on.
    have hsilent := performAll_silent linked s ops (m₀.under .disabled)
    have hoff : (before .disabled).tracer = .disabled := hsilent.tracer rfl
    have hlast := host_silent linked s (s.limits.maxCallDepth.toNat + 2) op (before .disabled)
    exact (hlast.tracer (hmode _ _)).trans hoff
  · have hroom : s.HasRoom (s.limits.maxCallDepth.toNat + 2) (before .full).depth :=
      hbefore .full ▸ .outermost s
    exact host_pruned (hsame .full .top) (hbefore .full) hroom
      ((hmoves .full).tracer.full ⟨rfl, rfl⟩) (hmode .top true) (hmode .top false)

end

/-- A refused creation and then a call that is aborted two levels down, under the three tracers. -/
theorem Script.tracing_is_invisible_sample :
    let done (t : Tracer) := (dispatcher true .severed).perform
      (.call 1 1 (recursionTarget 1) 9 0)
      (performAll true .severed [.create 1 [] 10 7] (Machine.under {} t))
    (done .full).1 = .error (.internal (.store (.custom "account unavailable"))) ∧
      (done .full).2.tracer.root?.map (·.calls.map (·.record.target)) = some [1] ∧
      (∀ t t', (done t).1 = (done t').1 ∧ (done t).2.untraced = (done t').2.untraced) ∧
      (done .disabled).2.tracer = .disabled ∧
      ∃ root, (done .full).2.tracer.root? = some root ∧
        (done .top).2.tracer.root? = some (.node root.record []) := by
  refine ⟨by decide +kernel, by decide +kernel, ?_⟩
  exact @tracing_is_invisible true .severed [.create 1 [] 10 7]
    (.call 1 1 (recursionTarget 1) 9 0) {} rfl

end MessageCall
