import MessageCall.Trace
import Mathlib.Order.Defs.Unbundled

/-!
# Open and closed trace nodes

A tracer keeps the open nodes in a list, and opening and closing them has to be balanced for the
list to become a tree. Two things are said about that. A tracer of any mode that has an open node
does not lose it by what the operations below do (`Tracer.Carries`), so a node that has been opened
can be closed (`Tracer.exit_ok`). A tracer of all operations in addition holds exactly what it has
been told: its innermost node is opened with nothing in it, and closing it hangs it with its result
under the next one (`Tracer.Records`).
-/

namespace MessageCall

/-- The record of an operation once it has ended, with a result or with an error that passed through
it. -/
def TraceRecord.ended (result : Except CallError CallResult) (record : TraceRecord) :
    TraceRecord :=
  match result with
  | .ok r => { record with
      gasUsed := r.gasUsed
      output := r.output
      error := r.error?.map CallError.message }
  | .error e => { record with gasUsed := 0, output := [], error := some e.message }

namespace Tracer

variable {t t' t'' : Tracer} {record : TraceRecord} {calls rest : List Trace}

/-! ### Any tracer -/

/-- The mode of a tracer is the same, and if a node was open one is still open. -/
structure Carries (t t' : Tracer) : Prop where
  active : t'.active = t.active
  onlyTop : t'.onlyTop = t.onlyTop
  frames : t.frames ≠ [] → t'.frames ≠ []

instance : IsPreorder Tracer Carries where
  refl _ := ⟨rfl, rfl, id⟩
  trans _ _ _ h h' :=
    ⟨h'.active.trans h.active, h'.onlyTop.trans h.onlyTop, h'.frames ∘ h.frames⟩

theorem Carries.records (h : t.Carries t') (isTop : Bool) : t'.records isTop = t.records isTop := by
  unfold Tracer.records
  rw [h.active, h.onlyTop]

theorem enter_carries (t : Tracer) (record : TraceRecord) (isTop : Bool) :
    t.Carries (t.enter record isTop) := by
  unfold enter
  split
  · exact ⟨rfl, rfl, fun _ => List.cons_ne_nil _ _⟩
  · exact ⟨rfl, rfl, id⟩

theorem frames_of_enter {isTop : Bool} (h : t.records isTop = true) :
    (t.enter record isTop).frames ≠ [] := by
  unfold enter
  rw [if_pos h]
  exact List.cons_ne_nil _ _

theorem setTarget_carries (t : Tracer) (target : Address) (isTop : Bool) :
    t.Carries (t.setTarget target isTop) := by
  unfold setTarget
  split
  · split
    · exact ⟨rfl, rfl, id⟩
    · exact ⟨rfl, rfl, fun _ => List.cons_ne_nil _ _⟩
  · exact ⟨rfl, rfl, id⟩

theorem close_ne_nil (finished : Trace) (frames : List Trace) : close finished frames ≠ [] := by
  cases frames with
  | nil => exact List.cons_ne_nil _ _
  | cons parent rest => exact List.cons_ne_nil _ _

/-- **A node that has been opened can be closed**, and a tracer that records nothing has none to
close. -/
theorem exit_ok {isTop : Bool} (h : t.records isTop = true → t.frames ≠ [])
    (result : Except CallError CallResult) :
    (t.exit result isTop).1 = .ok () ∧ t.Carries (t.exit result isTop).2 := by
  unfold exit
  by_cases hrecords : t.records isTop = true
  · rw [if_pos hrecords]
    cases hframes : t.frames with
    | nil => exact absurd hframes (h hrecords)
    | cons frame rest => exact ⟨rfl, rfl, rfl, fun _ => close_ne_nil _ _⟩
  · rw [if_neg hrecords]
    exact ⟨rfl, rfl, rfl, id⟩

/-! ### A tracer that records an operation -/

/-- The tracer with an innermost open node. -/
def opened (t : Tracer) (record : TraceRecord) (calls rest : List Trace) : Tracer :=
  { t with frames := .node record calls :: rest }

theorem opened_self (h : t.frames = .node record calls :: rest) :
    t.opened record calls rest = t := by
  unfold opened
  rw [← h]

theorem enter_recorded {isTop : Bool} (h : t.records isTop = true) (record : TraceRecord) :
    t.enter record isTop = t.opened record [] (if isTop then [] else t.frames) := by
  unfold enter
  rw [if_pos h]
  rfl

theorem setTarget_recorded {isTop : Bool} (h : t.records isTop = true) (target : Address) :
    (t.opened record calls rest).setTarget target isTop =
      t.opened { record with target } calls rest := by
  have hrecords : (t.opened record calls rest).records isTop = true := h
  unfold setTarget
  rw [if_pos hrecords]
  rfl

theorem exit_recorded {isTop : Bool} (h : t.records isTop = true)
    (result : Except CallError CallResult) :
    ((t.opened record calls rest).exit result isTop).2 =
      { t with frames := close (.node (record.ended result) calls) rest } := by
  have hrecords : (t.opened record calls rest).records isTop = true := h
  unfold exit
  rw [if_pos hrecords]
  rfl

/-! ### A tracer of all operations -/

/-- A tracer that records all operations. -/
def Full (t : Tracer) : Prop := t.active = true ∧ t.onlyTop = false

theorem Full.records (h : t.Full) (isTop : Bool) : t.records isTop = true := by
  unfold Tracer.records
  rw [h.1, h.2]
  cases isTop <;> rfl

theorem Carries.full (h : t.Carries t') (hfull : t.Full) : t'.Full :=
  ⟨h.active.trans hfull.1, h.onlyTop.trans hfull.2⟩

/-- The tracer of a machine after an operation that has been recorded as `trace`. -/
def Records (t t' : Tracer) (isTop : Bool) (trace : Trace) : Prop :=
  t' = { t with frames := close trace (if isTop then [] else t.frames) }

end Tracer

end MessageCall
