import MessageCall.Word

/-!
# Finite maps keyed by words

A `WordMap w α` holds finitely many values of type `α` under keys of `w` bits. Its entries are
kept in increasing order of their keys, so a map has exactly one representation: two maps that
answer every lookup alike are equal (`WordMap.ext_get?`), and listing a map gives its entries in
numeric order whatever the order in which they were put in.

A lookup sees the last value put under its key (`get?_insert`), and `ofList` inserts from left to
right, so of two entries with one key the later one stays.
-/

namespace MessageCall

/-- Finitely many values under keys of `w` bits, in increasing order of the keys. -/
structure WordMap (w : Nat) (α : Type) where
  /-- The keys with their values. -/
  entries : List (BitVec w × α)
  /-- Every key is less than the keys after it. -/
  increasing : entries.Pairwise fun x y => x.1 < y.1

namespace WordMap

variable {w : Nat} {α β : Type}

/-- Puts `v` under `k` in an increasing list of entries, in place of what was there. -/
def insertEntry (k : BitVec w) (v : α) : List (BitVec w × α) → List (BitVec w × α)
  | [] => [(k, v)]
  | e :: rest =>
    if k < e.1 then (k, v) :: e :: rest
    else if k = e.1 then (k, v) :: rest
    else e :: insertEntry k v rest

theorem mem_insertEntry {k : BitVec w} {v : α} {x : BitVec w × α} {l : List (BitVec w × α)}
    (h : x ∈ insertEntry k v l) : x = (k, v) ∨ x ∈ l := by
  induction l with
  | nil => simpa [insertEntry] using h
  | cons e rest ih =>
    simp only [insertEntry] at h
    split at h
    · simpa using h
    · split at h
      · -- The new entry takes the place of one that has the same key.
        rcases List.mem_cons.mp h with h | h
        · exact .inl h
        · exact .inr (List.mem_cons_of_mem _ h)
      · rcases List.mem_cons.mp h with h | h
        · exact .inr (h ▸ List.mem_cons_self)
        · exact (ih h).imp_right (List.mem_cons_of_mem _)

theorem insertEntry_increasing (k : BitVec w) (v : α) {l : List (BitVec w × α)}
    (h : l.Pairwise fun x y => x.1 < y.1) :
    (insertEntry k v l).Pairwise fun x y => x.1 < y.1 := by
  induction l with
  | nil => simp [insertEntry]
  | cons e rest ih =>
    obtain ⟨he, hrest⟩ := List.pairwise_cons.mp h
    simp only [insertEntry]
    split
    · -- The new key comes first, so it is below all of them.
      rename_i hlt
      refine List.pairwise_cons.mpr ⟨fun y hy => ?_, h⟩
      rcases List.mem_cons.mp hy with rfl | hy
      · exact hlt
      · exact BitVec.lt_trans hlt (he y hy)
    · split
      · rename_i heq
        exact List.pairwise_cons.mpr ⟨fun y hy => heq ▸ he y hy, hrest⟩
      · -- The new key comes further on, and what is inserted there is above the first one.
        rename_i hlt hne
        refine List.pairwise_cons.mpr ⟨fun y hy => ?_, ih hrest⟩
        rcases mem_insertEntry hy with rfl | hy
        · grind
        · exact he y hy

/-- The value under `k` in a list of entries, if any. -/
def lookupEntry (k : BitVec w) : List (BitVec w × α) → Option α
  | [] => none
  | e :: rest => if k = e.1 then some e.2 else lookupEntry k rest

theorem lookupEntry_insertEntry (k k' : BitVec w) (v : α) (l : List (BitVec w × α)) :
    lookupEntry k' (insertEntry k v l) = if k' = k then some v else lookupEntry k' l := by
  induction l with
  | nil => simp [insertEntry, lookupEntry]
  | cons e rest ih => grind [insertEntry, lookupEntry]

theorem lookupEntry_eq_none_of_lt {k : BitVec w} {l : List (BitVec w × α)}
    (h : ∀ x ∈ l, k < x.1) : lookupEntry k l = none := by
  induction l with
  | nil => rfl
  | cons e rest ih =>
    have hne : k ≠ e.1 := BitVec.ne_of_lt (h e List.mem_cons_self)
    simp [lookupEntry, hne, ih fun x hx => h x (List.mem_cons_of_mem _ hx)]

theorem mem_of_lookupEntry {k : BitVec w} {v : α} {l : List (BitVec w × α)}
    (h : lookupEntry k l = some v) : (k, v) ∈ l := by
  induction l with
  | nil => simp [lookupEntry] at h
  | cons e rest ih =>
    simp only [lookupEntry] at h
    split at h
    · rename_i hk
      cases h
      simp [hk]
    · exact List.mem_cons_of_mem _ (ih h)

theorem lookupEntry_filter (keep : BitVec w → α → Bool) (k : BitVec w)
    {l : List (BitVec w × α)} (h : l.Pairwise fun x y => x.1 < y.1) :
    lookupEntry k (l.filter fun e => keep e.1 e.2) = (lookupEntry k l).filter (keep k) := by
  induction l with
  | nil => rfl
  | cons e rest ih =>
    obtain ⟨he, hrest⟩ := List.pairwise_cons.mp h
    by_cases hk : k = e.1
    · have hnone : lookupEntry e.1 (rest.filter fun e => keep e.1 e.2) = none :=
        lookupEntry_eq_none_of_lt fun x hx => he x (List.mem_filter.mp hx).1
      by_cases hkeep : keep e.1 e.2 <;> simp [lookupEntry, hk, hkeep, hnone, Option.filter]
    · by_cases hkeep : keep e.1 e.2 <;> simp [lookupEntry, hk, hkeep, ih hrest]

theorem lookupEntry_map (f : α → β) (k : BitVec w) (l : List (BitVec w × α)) :
    lookupEntry k (l.map fun e => (e.1, f e.2)) = (lookupEntry k l).map f := by
  induction l with
  | nil => rfl
  | cons e rest ih =>
    rw [List.map_cons, lookupEntry, lookupEntry, ih]
    split <;> rfl

theorem eq_of_lookupEntry {l m : List (BitVec w × α)} (hl : l.Pairwise fun x y => x.1 < y.1)
    (hm : m.Pairwise fun x y => x.1 < y.1) (h : ∀ k, lookupEntry k l = lookupEntry k m) :
    l = m := by
  induction l generalizing m with
  | nil =>
    cases m with
    | nil => rfl
    | cons e _ => simpa [lookupEntry] using h e.1
  | cons e rest ih =>
    obtain ⟨he, hrest⟩ := List.pairwise_cons.mp hl
    cases m with
    | nil => simpa [lookupEntry] using h e.1
    | cons f rest' =>
      obtain ⟨hf, hrest'⟩ := List.pairwise_cons.mp hm
      -- The smallest key of either list is in the other one, so the two are the same.
      have hkey : e.1 = f.1 := by
        refine Decidable.byContradiction fun hne => ?_
        have h₁ : (e.1, e.2) ∈ f :: rest' :=
          mem_of_lookupEntry (by rw [← h e.1]; simp [lookupEntry])
        have h₂ : (f.1, f.2) ∈ e :: rest :=
          mem_of_lookupEntry (by rw [h f.1]; simp [lookupEntry])
        rcases List.mem_cons.mp h₁ with h₁ | h₁
        · exact hne (congrArg Prod.fst h₁)
        rcases List.mem_cons.mp h₂ with h₂ | h₂
        · exact hne (congrArg Prod.fst h₂).symm
        exact BitVec.lt_asymm (hf _ h₁) (he _ h₂)
      have hval : e.2 = f.2 := by simpa [lookupEntry, hkey] using h e.1
      have hhead : e = f := Prod.ext hkey hval
      subst hhead
      -- With the heads out of the way, lookups agree on what is left.
      refine congrArg (e :: ·) (ih hrest hrest' fun k => ?_)
      have hk := h k
      by_cases hke : k = e.1
      · rw [hke, lookupEntry_eq_none_of_lt he, lookupEntry_eq_none_of_lt hf]
      · simpa [lookupEntry, hke] using hk

/-! ### Maps -/

/-- The map that holds nothing. -/
def empty : WordMap w α := ⟨[], .nil⟩

instance : EmptyCollection (WordMap w α) := ⟨empty⟩

instance : Inhabited (WordMap w α) := ⟨∅⟩

/-- What the map holds under `k`, if anything. -/
def get? (m : WordMap w α) (k : BitVec w) : Option α := lookupEntry k m.entries

/-- The map with `v` under `k`, and all else as before. -/
def insert (m : WordMap w α) (k : BitVec w) (v : α) : WordMap w α :=
  ⟨insertEntry k v m.entries, insertEntry_increasing k v m.increasing⟩

/-- The entries that `keep` holds of. -/
def filter (keep : BitVec w → α → Bool) (m : WordMap w α) : WordMap w α :=
  ⟨m.entries.filter fun e => keep e.1 e.2, m.increasing.sublist List.filter_sublist⟩

/-- The map with nothing under `k`, and all else as before. -/
def erase (m : WordMap w α) (k : BitVec w) : WordMap w α := m.filter fun k' _ => k' ≠ k

/-- Whether the map holds anything under `k`. -/
def contains (m : WordMap w α) (k : BitVec w) : Bool := (m.get? k).isSome

/-- Whether the map holds nothing at all. -/
def isEmpty (m : WordMap w α) : Bool := m.entries.isEmpty

/-- The map of a list of entries. Where two entries share a key, the later one stays. -/
def ofList (l : List (BitVec w × α)) : WordMap w α :=
  l.foldl (fun m e => m.insert e.1 e.2) ∅

/-- The map with `f` applied to every value. -/
def mapValues (f : α → β) (m : WordMap w α) : WordMap w β :=
  ⟨m.entries.map fun e => (e.1, f e.2), List.pairwise_map.mpr m.increasing⟩

/-! ### Equality -/

theorem eq_of_entries {m n : WordMap w α} (h : m.entries = n.entries) : m = n := by
  cases m; cases n; cases h; rfl

instance [DecidableEq α] : DecidableEq (WordMap w α) := fun m n =>
  decidable_of_iff (m.entries = n.entries) ⟨eq_of_entries, fun h => h ▸ rfl⟩

/-- The **extensionality** of maps: those that answer every lookup alike are equal. -/
theorem ext_get? {m n : WordMap w α} (h : ∀ k, m.get? k = n.get? k) : m = n :=
  eq_of_entries (eq_of_lookupEntry m.increasing n.increasing h)

/-! ### Lookups -/

@[simp] theorem get?_empty (k : BitVec w) : (∅ : WordMap w α).get? k = none := rfl

/-- A lookup sees the value just put under its key, and otherwise what was there. -/
@[grind =] theorem get?_insert (m : WordMap w α) (k k' : BitVec w) (v : α) :
    (m.insert k v).get? k' = if k' = k then some v else m.get? k' :=
  lookupEntry_insertEntry k k' v m.entries

@[simp] theorem get?_insert_self (m : WordMap w α) (k : BitVec w) (v : α) :
    (m.insert k v).get? k = some v := by simp [get?_insert]

theorem get?_insert_of_ne (m : WordMap w α) {k k' : BitVec w} (v : α) (h : k' ≠ k) :
    (m.insert k v).get? k' = m.get? k' := by simp [get?_insert, h]

/-- A filtered map holds what it held where `keep` allows. -/
theorem get?_filter (keep : BitVec w → α → Bool) (m : WordMap w α) (k : BitVec w) :
    (m.filter keep).get? k = (m.get? k).filter (keep k) :=
  lookupEntry_filter keep k m.increasing

/-- A lookup in a map of changed values sees the value changed. -/
theorem get?_mapValues (f : α → β) (m : WordMap w α) (k : BitVec w) :
    (m.mapValues f).get? k = (m.get? k).map f :=
  lookupEntry_map f k m.entries

/-- An erased key holds nothing, and every other key what it held. -/
@[grind =] theorem get?_erase (m : WordMap w α) (k k' : BitVec w) :
    (m.erase k).get? k' = if k' = k then none else m.get? k' := by
  rw [erase, get?_filter]
  by_cases h : k' = k
  · cases hg : m.get? k' <;> simp [h]
  · cases hg : m.get? k' <;> simp [h]

end WordMap

end MessageCall
