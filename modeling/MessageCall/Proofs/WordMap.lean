import MessageCall.WordMap
import Mathlib.Data.List.Perm.Basic

/-!
# Maps and their entries

No key comes twice among the entries of a map. So an entry is found under its key
(`WordMap.get?_of_mem`), and the entries make up the map in whatever order they are put in
(`WordMap.ofList_of_perm`).
-/

namespace MessageCall

namespace WordMap

variable {w : Nat} {α : Type} {k : BitVec w} {v : α} {l : List (BitVec w × α)} {m : WordMap w α}

theorem nodup_keys (m : WordMap w α) : (m.entries.map Prod.fst).Nodup :=
  List.pairwise_map.mpr (m.increasing.imp BitVec.ne_of_lt)

theorem lookupEntry_of_mem (hkeys : (l.map Prod.fst).Nodup) (h : (k, v) ∈ l) :
    lookupEntry k l = some v := by
  induction l with
  | nil => exact absurd h List.not_mem_nil
  | cons e rest ih =>
    rw [List.map_cons, List.nodup_cons] at hkeys
    rcases List.mem_cons.mp h with rfl | h
    · exact if_pos rfl
    · have hne : k ≠ e.1 := fun hk => hkeys.1 (hk ▸ List.mem_map_of_mem h)
      rw [lookupEntry, if_neg hne]
      exact ih hkeys.2 h

/-- An entry of a map is found under its key. -/
theorem get?_of_mem {e : BitVec w × α} (he : e ∈ m.entries) : m.get? e.1 = some e.2 :=
  lookupEntry_of_mem m.nodup_keys he

theorem isEmpty_iff (m : WordMap w α) : m.isEmpty = true ↔ ∀ k, m.get? k = none := by
  constructor
  · intro h k
    have hm : m = ∅ := eq_of_entries (List.isEmpty_iff.mp h)
    rw [hm]
    rfl
  · intro h
    have hm : m = ∅ := ext_get? h
    rw [hm]
    rfl

/-- Putting in entries with different keys, one after the other. -/
theorem get?_foldl_insert (hkeys : (l.map Prod.fst).Nodup) (m : WordMap w α) (k : BitVec w) :
    (l.foldl (fun m e => m.insert e.1 e.2) m).get? k = (lookupEntry k l).or (m.get? k) := by
  induction l generalizing m with
  | nil => rfl
  | cons e rest ih =>
    rw [List.map_cons, List.nodup_cons] at hkeys
    rw [List.foldl_cons, ih hkeys.2, get?_insert, lookupEntry]
    by_cases hk : k = e.1
    · rw [if_pos hk, if_pos hk]
      -- The key does not come again.
      cases hlookup : lookupEntry k rest with
      | none => rfl
      | some v => exact absurd (hk ▸ List.mem_map_of_mem (mem_of_lookupEntry hlookup)) hkeys.1
    · rw [if_neg hk, if_neg hk]

/-- **The entries of a map** make up the map, in whatever order they come. -/
theorem ofList_of_perm (h : l.Perm m.entries) : ofList l = m := by
  have hkeys : (l.map Prod.fst).Nodup := (h.map Prod.fst).nodup_iff.mpr m.nodup_keys
  refine ext_get? fun k => ?_
  rw [ofList, get?_foldl_insert hkeys, get?_empty, Option.or_none, get?]
  cases hlookup : lookupEntry k m.entries with
  | some v => exact lookupEntry_of_mem hkeys (h.mem_iff.mpr (mem_of_lookupEntry hlookup))
  | none =>
    cases hlookup' : lookupEntry k l with
    | none => rfl
    | some v =>
      rw [lookupEntry_of_mem m.nodup_keys (h.mem_iff.mp (mem_of_lookupEntry hlookup'))] at hlookup
      cases hlookup

end WordMap

end MessageCall
