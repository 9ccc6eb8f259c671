import MessageCall.Proofs.Dispatch.Frames
import MessageCall.Proofs.Script.Reading
import Mathlib.Data.Prod.Lex

/-!
# Execution ends without the help of gas

Asking for an operation costs nothing in the end, and code may call itself or create itself anew, so
gas does not bound a run. What does is the nesting together with the code. An operation that is
asked for inside a frame has a frame one level deeper or none, and between two instructions of one
frame the reader has advanced. So the pair of the levels that are left and the bytes that are left
to read goes down lexicographically with every instruction (`CallTree.Descends`).

The host is written with a budget of levels. `Script.within_eq_host` says that the budget does not
matter once it is large enough: with two levels more than the limit no operation ever gets to the
floor, whatever the floor would do, and more levels change nothing.

* `CallTree.openFrames_le` — how many frames can be open inside each other;
* `CallTree.descends` — the measure of one operation and of those that its code asks for;
* `CallTree.terminates` — the three together, for every operation in any machine.
-/

namespace MessageCall

/-! ### The budget of levels -/

namespace Script

variable {linked : Bool} {s : Setting} {host : Host} {input : Bytes} {op : Operation} {m : Machine}
  {levels levels' : Nat}

/-- **The budget does not matter** where it is large enough, nor does the floor. -/
theorem within_eq_host (floor : Host) (h : s.HasRoom levels m.depth)
    (h' : s.HasRoom levels' m.depth) :
    (dispatcher linked s).within floor levels' op m = Script.host linked s levels op m := by
  induction levels generalizing levels' op m with
  | zero => exact absurd rfl h.levels_ne_zero
  | succ levels ih =>
    cases levels' with
    | zero => exact absurd rfl h'.levels_ne_zero
    -- Both budgets leave one level less to what the code asks for.
    | succ levels' =>
      let inner : Host := (dispatcher linked s).within floor levels'
      show op.perform s (interpreter linked s inner) m =
        op.perform s (interpreter linked s (Script.host linked s levels)) m
      symm
      refine Operation.perform_congr fun a hentry => interpreter_congr fun x hx => ?_
      -- What the code asks for is one level deeper, and code runs within the limit only.
      have hrun :=
        Operation.codeRun?_of_entry linked (Script.host linked s levels) hentry
      have hdepth : x.2.depth = m.depth + 1 :=
        (Operation.request_moves s.env.transfers.within_unrelated hrun hx).depth
      have hlimit : m.depth ≤ s.limits.maxCallDepth.toNat := Operation.depth_le_of_run hrun
      symm
      refine ih ?_ ?_
      · rw [hdepth]
        exact h.deeper hlimit
      · rw [hdepth]
        exact h'.deeper hlimit

/-! ### Instructions -/

/-- Instructions are executed in their order, and none is left out before the last one. -/
theorem executed_prefix (is : List Instruction) (a : Active) :
    (executed linked s host input is a).map Prod.fst <+: is := by
  induction is generalizing a with
  | nil => exact List.nil_prefix
  | cons i rest ih =>
    unfold executed
    by_cases hcancelled : a.machine.cancelled = true
    · rw [if_pos hcancelled]
      exact List.nil_prefix
    · rw [if_neg hcancelled, List.map_cons, List.prefix_cons_inj]
      rcases step linked s host input i a with ⟨_ | _ | _, a'⟩
      · exact List.nil_prefix
      · exact ih a'
      · exact List.nil_prefix

end Script

/-! ### What goes down -/

namespace CallTree

/-- The instructions that an operation's code has executed, with the states in which it has. -/
def steps (t : CallTree) : List (Instruction × Active) := t.call.run.elim [] CodeRun.steps

/-- The code that an operation hands to the interpreter. -/
def code (s : Setting) (t : CallTree) : Bytes :=
  (t.call.op.entry? s t.call.before).elim [] (·.frame.code)

mutual

/-- The largest number of **frames that are open** inside each other. -/
def openFrames : CallTree → Nat
  | .node call children => (if call.run.isSome then 1 else 0) + openFramesAll children

/-- The largest number in any of some trees. -/
def openFramesAll : List CallTree → Nat
  | [] => 0
  | t :: ts => max t.openFrames (openFramesAll ts)

end

/-- The **measure** at each instruction that an operation's code has executed: how many levels the
limit leaves, and how many bytes of the code are left to read. -/
def measures (s : Setting) (t : CallTree) : List (Nat ×ₗ Nat) :=
  ((Script.reading (t.code s)).take t.steps.length).map fun x =>
    toLex (s.limits.maxCallDepth.toNat + 1 - t.call.before.depth, x.2)

/-- The measure **goes down**. -/
structure Descends (s : Setting) (t : CallTree) : Prop where
  /-- The instructions are executed as they are read, so there is one measure for each of them. -/
  reads : t.steps.map Prod.fst <+: (Script.reading (t.code s)).map Prod.fst
  counted : (t.measures s).length = t.steps.length
  /-- There are no more of them than the code has bytes. -/
  length_le : t.steps.length ≤ (t.code s).length
  /-- The measure goes down from each to the next one. -/
  inside : (t.measures s).Pairwise (· > ·)
  /-- For all that is executed below it has gone down too. -/
  below : ∀ u ∈ t.children, ∀ p ∈ t.measures s, ∀ q ∈ u.measures s, q < p

section

variable {linked : Bool} {s : Setting} {op : Operation} {m : Machine} {levels : Nat}

theorem openFramesAll_le {ts : List CallTree} {n : Nat} (h : ∀ t ∈ ts, t.openFrames ≤ n) :
    openFramesAll ts ≤ n := by
  induction ts with
  | nil => exact Nat.zero_le n
  | cons t ts ih =>
    unfold openFramesAll
    exact Nat.max_le.mpr ⟨h t List.mem_cons_self, ih fun u hu => h u (List.mem_cons_of_mem t hu)⟩

theorem openFrames_eq (t : CallTree) :
    t.openFrames = (if t.call.run.isSome then 1 else 0) + openFramesAll t.children := by
  cases t
  rw [openFrames]
  rfl

/-- **The frames that are open** inside each other are no more than there are levels left. -/
theorem openFrames_le (linked : Bool) (s : Setting) (levels : Nat) (op : Operation) (m : Machine) :
    (op.tree linked s levels m).openFrames ≤ s.limits.maxCallDepth.toNat + 1 - m.depth := by
  induction levels generalizing op m with
  | zero =>
    rw [openFrames_eq]
    exact Nat.zero_le _
  | succ levels ih =>
    have hcall : (op.tree linked s (levels + 1) m).call.run =
        op.codeRun? linked s (Script.host linked s levels) m := rfl
    rw [openFrames_eq, hcall]
    cases hrun : op.codeRun? linked s (Script.host linked s levels) m with
    | none =>
      rw [Operation.children_of_finished hrun]
      exact Nat.zero_le _
    | some run =>
      have hlimit : m.depth ≤ s.limits.maxCallDepth.toNat := Operation.depth_le_of_run hrun
      -- What is below has one level less, however much of it there is.
      have hbelow : openFramesAll (op.tree linked s (levels + 1) m).children ≤
          s.limits.maxCallDepth.toNat - m.depth := by
        refine openFramesAll_le fun u hu => ?_
        rw [Operation.children_of_run hrun] at hu
        -- Each operation below was asked for one level deeper.
        obtain ⟨x, hx, rfl⟩ := List.mem_map.mp hu
        have hdepth : x.2.depth = m.depth + 1 :=
          (Operation.request_moves s.env.transfers.within_unrelated hrun hx).depth
        have hchild := ih x.1 x.2
        rw [hdepth, Nat.add_sub_add_right] at hchild
        exact hchild
      show 1 + openFramesAll (op.tree linked s (levels + 1) m).children ≤ _
      omega

/-- An operation whose code has executed something has handed its frame to the interpreter. -/
theorem entry_of_measure {p : Nat ×ₗ Nat}
    (hp : p ∈ (op.tree linked s (levels + 1) m).measures s) :
    ∃ run, op.codeRun? linked s (Script.host linked s levels) m = some run ∧
      ∃ bytes, p = toLex (s.limits.maxCallDepth.toNat + 1 - m.depth, bytes) := by
  obtain ⟨x, hx, rfl⟩ := List.mem_map.mp hp
  have hcall : (op.tree linked s (levels + 1) m).steps =
      (op.codeRun? linked s (Script.host linked s levels) m).elim [] CodeRun.steps := rfl
  cases hrun : op.codeRun? linked s (Script.host linked s levels) m with
  | none =>
    rw [hcall, hrun] at hx
    exact absurd hx List.not_mem_nil
  | some run => exact ⟨run, rfl, x.2, rfl⟩

theorem steps_prefix (linked : Bool) (s : Setting) (levels : Nat) (op : Operation) (m : Machine) :
    (op.tree linked s (levels + 1) m).steps.map Prod.fst <+:
      (Script.decode ((op.tree linked s (levels + 1) m).code s)).1 := by
  have hsteps : (op.tree linked s (levels + 1) m).steps =
      (op.codeRun? linked s (Script.host linked s levels) m).elim [] CodeRun.steps := rfl
  have hcode : (op.tree linked s (levels + 1) m).code s =
      (op.entry? s m).elim [] (·.frame.code) := rfl
  rw [hsteps, hcode]
  -- Whether code was executed is whether a frame was entered.
  cases hentry : op.entry? s m with
  | some a =>
    rw [Operation.codeRun?_of_entry _ _ hentry]
    exact Script.executed_prefix _ a
  | none =>
    -- What has not been handed over has executed nothing.
    cases hrun : op.codeRun? linked s (Script.host linked s levels) m with
    | none => exact List.nil_prefix
    | some run =>
      rw [Option.elim_some, Operation.steps_of_no_entry hentry hrun]
      exact List.nil_prefix

/-- **The measure of an operation** goes down with each instruction, and below the operation it has
gone down further. -/
theorem descends (linked : Bool) (s : Setting) (levels : Nat) (op : Operation) (m : Machine) :
    (op.tree linked s (levels + 1) m).Descends s := by
  -- The run follows the code, so it is no longer than what can be read of it.
  have hprefix := steps_prefix linked s levels op m
  have hlength : (op.tree linked s (levels + 1) m).steps.length ≤
      (Script.reading ((op.tree linked s (levels + 1) m).code s)).length := by
    calc
      _ = ((op.tree linked s (levels + 1) m).steps.map Prod.fst).length := by rw [List.length_map]
      _ ≤ (Script.decode ((op.tree linked s (levels + 1) m).code s)).1.length := hprefix.length_le
      _ = (Script.reading ((op.tree linked s (levels + 1) m).code s)).length := by
        rw [← List.length_map (f := Prod.fst)]
        exact congrArg List.length (Script.map_fst_readUpTo _ _).symm
  constructor
  · have hreading := Script.map_fst_readUpTo ((op.tree linked s (levels + 1) m).code s).length
      ((op.tree linked s (levels + 1) m).code s)
    rw [Script.reading, hreading]
    exact hprefix
  · unfold measures
    rw [List.length_map, List.length_take]
    exact Nat.min_eq_left hlength
  · rw [← List.length_map (f := Prod.fst)]
    exact hprefix.length_le.trans (Script.length_decodeUpTo_le _ _)
  · -- The level is the same, and the reader has advanced.
    refine List.Pairwise.map _ (fun x y hxy => ?_)
      ((Script.readUpTo_pairwise _ _).sublist (List.take_sublist _ _))
    exact Prod.Lex.toLex_lt_toLex.mpr (.inr ⟨rfl, hxy⟩)
  · -- A frame below has a level less left, whatever its code is.
    intro u hu p hp q hq
    obtain ⟨run, hrun, bytes, rfl⟩ := entry_of_measure hp
    rw [Operation.children_of_run hrun] at hu
    obtain ⟨x, hx, rfl⟩ := List.mem_map.mp hu
    have hdepth : x.2.depth = m.depth + 1 :=
      (Operation.request_moves s.env.transfers.within_unrelated hrun hx).depth
    cases levels with
    | zero => exact absurd hq List.not_mem_nil
    | succ levels =>
      obtain ⟨run', hrun', bytes', rfl⟩ := entry_of_measure hq
      -- There is a frame below, and so a level was left for it.
      have hlimit : x.2.depth ≤ s.limits.maxCallDepth.toNat := Operation.depth_le_of_run hrun'
      refine Prod.Lex.toLex_lt_toLex.mpr (.inl ?_)
      show s.limits.maxCallDepth.toNat + 1 - x.2.depth < s.limits.maxCallDepth.toNat + 1 - m.depth
      omega

/-- **Execution ends without the help of gas**, whatever bytes the code is and whichever code is
deployed on the way. More levels than two above the limit are never needed, so neither what lies
below them nor any further one makes a difference, and reading a code needs no more steps than it
has bytes. No more frames are open inside each other than the limit has levels, no frame executes
more instructions than its code has bytes, and the measure goes down from each instruction to the
next and into every frame below. All of this is of what was really run: the tree recounts what the
dispatcher has done. -/
theorem terminates (linked : Bool) (s : Setting) (op : Operation) (m : Machine) :
    let dispatcher := Script.dispatcher linked s
    let limit := s.limits.maxCallDepth.toNat
    let tree := Script.callTree linked s op m
    (∀ (floor : Host) (extra : Nat),
        dispatcher.within floor (limit + 2 + extra) op m = dispatcher.perform op m) ∧
      (∀ (code : Bytes) (extra : Nat),
        Script.decodeUpTo (code.length + extra) code = Script.decode code) ∧
      tree.Recounts linked s op m ∧ tree.openFrames ≤ limit + 1 ∧
      ∀ t : CallTree, t.PartOf tree → t.Descends s := by
  intro dispatcher limit tree
  -- The outermost operation has room for every level there can be.
  have hroom : s.HasRoom (limit + 2) m.depth := .of_le (Nat.le_refl _) _
  refine ⟨fun floor extra => ?_, fun code extra => ?_, callTree_recounts linked s op m, ?_,
    fun t ht => ?_⟩
  · exact Script.within_eq_host floor hroom (.of_le (Nat.le_add_right _ extra) _)
  · exact Script.decodeUpTo_of_le (Nat.le_add_right _ extra)
  · exact (openFrames_le linked s _ op m).trans (Nat.sub_le _ _)
  · obtain ⟨n, op', m', rfl, -⟩ := part_hasRoom hroom ht
    exact descends linked s n op' m'

end

end CallTree

/-- A world in which all code calls one account, whose code is the same. -/
def Setting.endless : Setting where
  store := .uniform (Script.encode [.call 1 9 0, .observe])
  chain := default
  limits := { maxCallDepth := 2 }

/-- A creation whose code goes on calling as long as it can. -/
theorem CallTree.terminates_sample :
    let dispatcher := Script.dispatcher true .endless
    let limit := Setting.endless.limits.maxCallDepth.toNat
    let op := Operation.create 2 (Script.encode [.call 1 9 0, .observe]) 100 0
    let tree := Script.callTree true .endless op {}
    (tree.openFrames = 3 ∧ (tree.measures .endless).map ofLex = [(3, 1), (3, 0)] ∧
        (tree.children.flatMap (measures .endless)).map ofLex = [(2, 1), (2, 0)]) ∧
      (∀ (floor : Host) (extra : Nat),
        dispatcher.within floor (limit + 2 + extra) op {} = dispatcher.perform op {}) ∧
      (∀ (code : Bytes) (extra : Nat),
        Script.decodeUpTo (code.length + extra) code = Script.decode code) ∧
      tree.Recounts true .endless op {} ∧ tree.openFrames ≤ limit + 1 ∧
      ∀ t : CallTree, t.PartOf tree → t.Descends .endless := by
  intro dispatcher limit op tree
  exact ⟨by decide +kernel, terminates true .endless op {}⟩

end MessageCall
