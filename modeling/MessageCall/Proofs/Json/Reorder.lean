import MessageCall.Json.Fields
import MessageCall.Proofs.Json.ReadBack
import MessageCall.Proofs.Text.Quantities
import MessageCall.Proofs.WordMap
import Mathlib.Data.List.Perm.Basic

/-!
# Values are read back from their documents

An object has its members in some order, and no reader of values goes by it. `Json.Reorders` says of
a document that it is another one but for the order of members, at every depth, and `Json.Reads`
says of a reader and a writer that the reader takes every such document for the value that was
written. So a value is read back also from the text of a writer that puts fields in the order in
which they are declared (`Json.Reorders.record`), or the entries of a map in no particular order.

There is one lemma for every way in which documents are put together. Fields are found by their
names (`Json.fields?_record`), entries make up the same map in every order (`Json.Reads.map`), and
the only member of a case is found anyway (`Json.variant?_ofVariant`).
-/

namespace MessageCall

open scoped List

/-! ### Lists -/

/-- The results of a list all of whose elements have one. -/
theorem mapM_of_forall₂ {α β : Type} {f : α → Option β} {l : List α} {results : List β}
    (h : List.Forall₂ (fun b a => f a = some b) results l) : l.mapM f = some results := by
  induction h with
  | nil => rfl
  | cons hhead _ ih =>
    rw [List.mapM_cons, hhead, ih]
    rfl

namespace Json

variable {α : Type} {j j' : Json}

/-! ### Orders of members -/

/-- **The same document** but for the order in which members of objects stand. -/
inductive Reorders : Json → Json → Prop
  | refl (j : Json) : Reorders j j
  | array {items : List (Json × Json)} (h : ∀ x ∈ items, Reorders x.1 x.2) :
    Reorders (.array (items.map Prod.fst)) (.array (items.map Prod.snd))
  | object {members : List (List Piece × Json × Json)} {members' : List (List Piece × Json)}
    (h : ∀ m ∈ members, Reorders m.2.1 m.2.2)
    (hperm : (members.map fun m => (m.1, m.2.2)).Perm members') :
    Reorders (.object (members.map fun m => (m.1, m.2.1))) (.object members')

theorem Plain.items {items : List Json} (h : Plain (.array items)) : ∀ j ∈ items, Plain j := by
  cases h with
  | array h => exact h

theorem Plain.members {members : List (List Piece × Json)} (h : Plain (.object members)) :
    ∀ m ∈ members, (∃ s, m.1 = piecesOf s) ∧ Plain m.2 := by
  cases h with
  | object hkeys h => exact fun m hm => ⟨hkeys m hm, h m hm⟩

/-- A plain document is plain in every order. -/
theorem Plain.reorders (h : Plain j) (hj : Reorders j j') : Plain j' := by
  induction hj with
  | refl => exact h
  | @array items _ ih =>
    refine .array fun j hj => ?_
    obtain ⟨x, hx, rfl⟩ := List.mem_map.mp hj
    exact ih x hx (h.items _ (List.mem_map_of_mem hx))
  | @object members members' _ hperm ih =>
    have hmembers : ∀ m ∈ members', (∃ s, m.1 = piecesOf s) ∧ Plain m.2 := by
      intro m hm
      obtain ⟨x, hx, rfl⟩ := List.mem_map.mp (hperm.mem_iff.mpr hm)
      obtain ⟨hkey, hvalue⟩ := h.members _ (List.mem_map_of_mem hx)
      exact ⟨hkey, ih x hx hvalue⟩
    exact .object (fun m hm => (hmembers m hm).1) fun m hm => (hmembers m hm).2

namespace Reorders

/-- A document that has no parts is in order. -/
theorem eq_of_atom (h : Reorders j j') (hitems : ∀ items, j ≠ .array items)
    (hmembers : ∀ members, j ≠ .object members) : j' = j := by
  cases h with
  | refl => rfl
  | array => exact absurd rfl (hitems _)
  | object => exact absurd rfl (hmembers _)

theorem ne_null (h : Reorders j j') (hj : j ≠ .null) : j' ≠ .null := by
  cases h with
  | refl => exact hj
  | array => exact nofun
  | object => exact nofun

/-- The items of an array stay where they are. -/
theorem items {items : List Json} (h : Reorders (.array items) j) :
    ∃ items', j = .array items' ∧ List.Forall₂ Reorders items items' := by
  cases h with
  | refl => exact ⟨items, rfl, List.forall₂_same.mpr fun j _ => .refl j⟩
  | @array zipped hall =>
    refine ⟨_, rfl, ?_⟩
    rw [List.forall₂_map_left_iff, List.forall₂_map_right_iff]
    exact List.forall₂_same.mpr hall

/-- The members of an object in another order, and each of them another document perhaps. -/
theorem members {members : List (List Piece × Json)} (h : Reorders (.object members) j) :
    ∃ between members', j = .object members' ∧ between.Perm members' ∧
      List.Forall₂ (fun m m' => m'.1 = m.1 ∧ m.2.Reorders m'.2) members between := by
  cases h with
  | refl => exact ⟨members, members, rfl, .refl _, List.forall₂_same.mpr fun m _ => ⟨rfl, .refl _⟩⟩
  | @object zipped members' hall hperm =>
    refine ⟨_, members', rfl, hperm, ?_⟩
    rw [List.forall₂_map_left_iff, List.forall₂_map_right_iff]
    exact List.forall₂_same.mpr fun m hm => ⟨rfl, hall m hm⟩

end Reorders

/-! ### Records -/

theorem textOf?_piecesOf (s : String) : textOf? (piecesOf s) = some s := by
  have hchars : (piecesOf s).mapM Piece.char? = some s.toList := by
    unfold piecesOf
    refine mapM_of_forall₂ ?_
    rw [List.forall₂_map_right_iff]
    exact List.forall₂_same.mpr fun c _ => rfl
  rw [textOf?, hchars, Option.map_some, String.ofList_toList]

/-- The member of an object for a named field. -/
def memberOf (f : String × Json) : List Piece × Json := (piecesOf f.1, f.2)

theorem insertField_perm (name : String) (value : Json) (fields : List (String × Json)) :
    (insertField name value fields).Perm ((name, value) :: fields) := by
  induction fields with
  | nil => exact .refl _
  | cons f rest ih =>
    unfold insertField
    split
    · exact .refl _
    · exact (ih.cons f).trans (.swap _ _ _)

/-- A record has its fields as members, in some order. -/
theorem record_eq (fields : List (String × Json)) :
    ∃ sorted : List (String × Json), record fields = .object (sorted.map memberOf) ∧
      sorted.Perm fields := by
  -- Each field is put into what has been sorted so far.
  suffices hperm : ∀ sorted : List (String × Json),
      (fields.foldl (fun sorted f => insertField f.1 f.2 sorted) sorted).Perm (fields ++ sorted) by
    have hnil := hperm []
    rw [List.append_nil] at hnil
    exact ⟨_, rfl, hnil⟩
  induction fields with
  | nil => exact fun sorted => .refl _
  | cons f fields ih =>
    intro sorted
    rw [List.foldl_cons]
    calc
      _ ~ fields ++ insertField f.1 f.2 sorted := ih _
      _ ~ fields ++ f :: sorted := (insertField_perm f.1 f.2 sorted).append_left fields
      _ ~ f :: fields ++ sorted := List.perm_middle

/-- A record may be written with its fields in the order in which they are given, and with whatever
may be written for their values. -/
theorem Reorders.record {fields : List (String × Json × Json)}
    (h : ∀ f ∈ fields, f.2.1.Reorders f.2.2) :
    (record (fields.map fun f => (f.1, f.2.1))).Reorders
      (.object (fields.map fun f => memberOf (f.1, f.2.2))) := by
  -- A record is the object of its fields, sorted by name.
  obtain ⟨sorted, heq, hsorted⟩ := record_eq (fields.map fun f => (f.1, f.2.1))
  -- Sorting has moved the pairs and changed none.
  have hfields := congrFun (congrFun (List.eq_map_comp_perm fun f => (f.1, f.2.1)) sorted) fields
  obtain ⟨zipped, rfl, hzipped⟩ := hfields.mpr hsorted
  have hreorders := @Reorders.object (zipped.map fun f => (piecesOf f.1, f.2))
    (fields.map fun f => memberOf (f.1, f.2.2))
    (fun m hm => by
      obtain ⟨f, hf, rfl⟩ := List.mem_map.mp hm
      exact h f (hzipped.mem_iff.mp hf))
    (by rw [List.map_map]; exact hzipped.map _)
  rw [heq, List.map_map]
  rw [List.map_map] at hreorders
  exact hreorders

/-- **A record in another order.** Its members are those of the fields, in some order of what the
fields come from. -/
theorem Reorders.members_of_record {β : Type} {xs : List β} {field : β → String × Json}
    (h : (Json.record (xs.map field)).Reorders j) :
    ∃ ys members, j = .object members ∧ xs.Perm ys ∧
      List.Forall₂ (fun y m => m.1 = piecesOf (field y).1 ∧ (field y).2.Reorders m.2) ys
        members := by
  obtain ⟨sorted, heq, hsorted⟩ := record_eq (xs.map field)
  rw [heq] at h
  obtain ⟨between, members, rfl, hperm, hbetween⟩ := h.members
  -- First the fields are put into the order in which they are sorted, then into the members' one.
  have hfields := congrFun (congrFun (List.eq_map_comp_perm field) sorted) xs
  obtain ⟨ys, rfl, hys⟩ := hfields.mpr hsorted
  rw [List.forall₂_map_left_iff, List.forall₂_map_left_iff] at hbetween
  obtain ⟨zs, hmembers, hzs⟩ := List.perm_comp_forall₂ hperm.symm hbetween.flip
  exact ⟨zs, members, rfl, hys.symm.trans hzs.symm, hmembers.flip⟩

/-- A record is plain if its fields are. -/
theorem record_plain {fields : List (String × Json)} (h : ∀ f ∈ fields, f.2.Plain) :
    (record fields).Plain := by
  obtain ⟨sorted, heq, hsorted⟩ := record_eq fields
  rw [heq]
  refine .object (fun m hm => ?_) fun m hm => ?_
  · obtain ⟨f, -, rfl⟩ := List.mem_map.mp hm
    exact ⟨f.1, rfl⟩
  · obtain ⟨f, hf, rfl⟩ := List.mem_map.mp hm
    exact h f (hsorted.mem_iff.mp hf)

/-- A member that is named by no other one is found. -/
theorem memberSlot?_of_mem {members : List (String × Json)} {name : String}
    (hnames : (members.map Prod.fst).Nodup) (h : (name, j) ∈ members) :
    memberSlot? members name = some (.given j) := by
  have hfilter : members.filter (·.1 = name) = [(name, j)] := by
    induction members with
    | nil => exact absurd h List.not_mem_nil
    | cons m members ih =>
      rw [List.map_cons, List.nodup_cons] at hnames
      rcases List.mem_cons.mp h with rfl | h
      · rw [List.filter_cons_of_pos (by exact decide_eq_true rfl), List.cons.injEq]
        refine ⟨rfl, List.filter_eq_nil_iff.mpr fun m hm hname => hnames.1 ?_⟩
        exact List.mem_map.mpr ⟨m, hm, of_decide_eq_true hname⟩
      · rw [List.filter_cons_of_neg, ih hnames.2 h]
        exact fun hname => hnames.1 (of_decide_eq_true hname ▸ List.mem_map_of_mem h)
  rw [memberSlot?, hfilter]

/-- The names of members that come from fields can be read. -/
theorem mapM_textOf? {ys : List (String × Json)} {members : List (List Piece × Json)}
    (h : List.Forall₂ (fun y m => m.1 = piecesOf y.1 ∧ y.2.Reorders m.2) ys members) :
    ∃ named, members.mapM (fun m => (textOf? m.1).map fun key => (key, m.2)) = some named ∧
      List.Forall₂ (fun y m => m.1 = y.1 ∧ y.2.Reorders m.2) ys named := by
  induction h with
  | nil => exact ⟨[], rfl, .nil⟩
  | @cons y m ys members hm _ ih =>
    obtain ⟨named, hread, hnamed⟩ := ih
    obtain ⟨hkey, hvalue⟩ := hm
    refine ⟨(y.1, m.2) :: named, ?_, .cons ⟨rfl, hvalue⟩ hnamed⟩
    rw [List.mapM_cons, hkey, textOf?_piecesOf, hread]
    rfl

/-- **Fields are found by their names**, in whatever order they are written. -/
theorem fields?_record {fields : List (String × Json)} (hnames : (fields.map Prod.fst).Nodup)
    (h : (record fields).Reorders j) :
    ∃ doc : String → Json, fields? (fields.map Prod.fst) j =
        some ((fields.map Prod.fst).map fun name => .given (doc name)) ∧
      ∀ f ∈ fields, f.2.Reorders (doc f.1) := by
  rw [← List.map_id fields] at h
  obtain ⟨ys, members, rfl, hperm, hmembers⟩ := h.members_of_record
  obtain ⟨named, hread, hnamed⟩ := mapM_textOf? hmembers
  -- Reading the names off gives those of the document, in its order.
  have hkeys : named.map Prod.fst = ys.map Prod.fst := by
    rw [← List.forall₂_eq_eq_eq, List.forall₂_map_left_iff, List.forall₂_map_right_iff]
    exact (hnamed.imp fun _ _ h => h.1).flip
  have hsame : (named.map Prod.fst).Perm (fields.map Prod.fst) := by
    rw [hkeys]
    exact (hperm.map Prod.fst).symm
  -- Each name stands there once, so its slot is found.
  have hfind : ∀ f ∈ fields, ∃ d, memberSlot? named f.1 = some (.given d) ∧ f.2.Reorders d := by
    intro f hf
    obtain ⟨m, hm, hname, hd⟩ := exists_of_forall₂ hnamed (hperm.mem_iff.mp hf)
    exact ⟨m.2, memberSlot?_of_mem (hsame.nodup_iff.mpr hnames) (hname ▸ hm), hd⟩
  have hbehind : ∀ name, ∃ d, ∀ f ∈ fields, f.1 = name →
      memberSlot? named name = some (.given d) ∧ f.2.Reorders d := by
    intro name
    by_cases hname : ∃ f ∈ fields, f.1 = name
    · obtain ⟨f, hf, rfl⟩ := hname
      obtain ⟨d, hslot, -⟩ := hfind f hf
      refine ⟨d, fun g hg hgf => ?_⟩
      obtain ⟨e, hslot', he⟩ := hfind g hg
      -- The slot of a name is given one document only.
      rw [hgf, hslot] at hslot'
      cases hslot'
      exact ⟨hslot, he⟩
    · exact ⟨.null, fun f hf heq => absurd ⟨f, hf, heq⟩ hname⟩
  -- One document for each name, put together for all of them.
  choose doc hdoc using hbehind
  refine ⟨doc, ?_, fun f hf => (hdoc f.1 f hf rfl).2⟩
  -- No name is unknown, and no slot is missing.
  have hknown : named.all (fun m => (fields.map Prod.fst).contains m.1 || m.2.ignorable) =
      true := by
    refine List.all_eq_true.mpr fun m hm => ?_
    rw [List.contains_iff_mem.mpr (hsame.mem_iff.mp (List.mem_map_of_mem hm)), Bool.true_or]
  have hslots : (fields.map Prod.fst).mapM (memberSlot? named) =
      some ((fields.map Prod.fst).map fun name => .given (doc name)) := by
    refine mapM_of_forall₂ ?_
    rw [List.forall₂_map_left_iff, List.forall₂_map_left_iff, List.forall₂_map_right_iff]
    exact List.forall₂_same.mpr fun f hf => (hdoc f.1 f hf rfl).1
  simp only [fields?, hread, Option.bind_eq_bind, Option.bind_some, if_pos hknown, hslots]

/-! ### Readers and writers -/

/-- **A reader takes what a writer writes**, in whatever order its members stand, for the value that
was written. -/
structure Reads (read : Json → Option α) (write : α → Json) : Prop where
  plain : ∀ a, (write a).Plain
  read : ∀ a {j}, (write a).Reorders j → read j = some a

/-- Documents without parts. -/
theorem Reads.of_atom {read : Json → Option α} {write : α → Json} (hplain : ∀ a, (write a).Plain)
    (hitems : ∀ a items, write a ≠ .array items) (hmembers : ∀ a members, write a ≠ .object members)
    (hread : ∀ a, read (write a) = some a) : Reads read write where
  plain := hplain
  read a j hj := by
    rw [hj.eq_of_atom (hitems a) (hmembers a)]
    exact hread a

theorem reads_bool : Reads bool? .bool :=
  .of_atom .bool (fun _ => nofun) (fun _ => nofun) fun _ => rfl

theorem reads_text : Reads text? .text :=
  .of_atom .text (fun _ => nofun) (fun _ => nofun) textOf?_piecesOf

theorem Reads.spelled {read : List Char → Option α} {write : α → String}
    (h : ∀ a, read (write a).toList = some a) : Reads (spelled? read) fun a => .text (write a) := by
  refine .of_atom (fun a => .text _) (fun _ => nofun) (fun _ => nofun) fun a => ?_
  have htext : text? (.text (write a)) = some (write a) := textOf?_piecesOf _
  rw [spelled?, htext]
  exact h a

theorem reads_hash : Reads hash? ofHash := .spelled HexField.hash?_hash

theorem reads_address : Reads address? ofAddress := .spelled HexField.address?_address

theorem reads_word : Reads word? ofWord := .spelled HexField.word?_ofWord

theorem reads_hexCount : Reads (quantity? Quantity.hexCount) fun n => .text (Quantity.ofCount n) :=
  .spelled fun n => by rw [Quantity.hexCount_ofCount]; rfl

theorem reads_natural : Reads natural? natural :=
  .of_atom .natural (fun _ => nofun) (fun _ => nofun) fun n =>
    Numeral.value?_render (by decide) (by decide) n

theorem reads_count : Reads count? ofCount := by
  refine .of_atom (fun n => .natural _) (fun _ => nofun) (fun _ => nofun) fun n => ?_
  rw [count?, ofCount, reads_natural.read n.toNat (.refl _), Option.bind_some, if_pos n.toNat_lt,
    UInt64.ofNat_toNat]

theorem reads_byte : Reads byte? fun b => natural b.toNat := by
  refine .of_atom (fun n => .natural _) (fun _ => nofun) (fun _ => nofun) fun b => ?_
  rw [byte?, reads_natural.read b.toNat (.refl _), Option.bind_some, if_pos b.toNat_lt,
    UInt8.ofNat_toNat]

/-- Bytes are written as an array, the items of which stay where they are. -/
theorem reads_byteArray : Reads byteArray? ofByteArray where
  plain bytes := by
    refine .array fun j hj => ?_
    obtain ⟨b, -, rfl⟩ := List.mem_map.mp hj
    exact .natural _
  read bytes j hj := by
    obtain ⟨items, rfl, hitems⟩ := Reorders.items hj
    rw [List.forall₂_map_left_iff] at hitems
    exact mapM_of_forall₂ (hitems.imp fun b _ hb => reads_byte.read b hb)

/-- A value that may be missing, if its document is never `null`. -/
theorem Reads.nullable {read : Json → Option α} {write : α → Json} (h : Reads read write)
    (hnull : ∀ a, write a ≠ .null) : Reads (nullable? read) (ofOption write) where
  plain a := by
    cases a with
    | none => exact .null
    | some a => exact h.plain a
  read a j hj := by
    -- Nothing is written as `null`, and nothing else is.
    cases a with
    | none =>
      have hnone : j = .null := hj.eq_of_atom nofun nofun
      rw [hnone]
      rfl
    | some a =>
      have hread := h.read a hj
      have hsome : j ≠ .null := hj.ne_null (hnull a)
      cases j with
      | null => exact absurd rfl hsome
      | _ => exact congrArg (Option.map some) hread

/-- A map is plain if its values are. -/
theorem ofMap_plain {w : Nat} {write : α → Json} (h : ∀ a, (write a).Plain)
    (name : BitVec w → String) (m : WordMap w α) : (ofMap name write m).Plain :=
  record_plain fun f hf => by
    obtain ⟨e, -, rfl⟩ := List.mem_map.mp hf
    exact h e.2

/-- **A map is read back** from its entries, in whatever order they are written. -/
theorem Reads.map {w : Nat} {key : List Char → Option (BitVec w)} {name : BitVec w → String}
    {read : Json → Option α} {write : α → Json} (h : Reads read write)
    (hkey : ∀ k, key (name k).toList = some k) : Reads (map? key read) (ofMap name write) where
  plain m := ofMap_plain h.plain name m
  read m j hj := by
    obtain ⟨entries, members, rfl, hperm, hmembers⟩ := Reorders.members_of_record hj
    have hread : members.mapM (fun x : List Piece × Json => do
        let name ← textOf? x.1
        return (← key name.toList, ← read x.2)) = some entries := by
      refine mapM_of_forall₂ (hmembers.imp fun e x hx => ?_)
      simp only [hx.1, textOf?_piecesOf, hkey, h.read e.2 hx.2, Option.bind_eq_bind,
        Option.bind_some, Option.pure_def]
    rw [map?, hread, Option.map_some, WordMap.ofList_of_perm hperm.symm]

/-- **A record is read back** if its reader makes the value out of the documents of its fields. -/
theorem Reads.of_record {read : Json → Option α} {fields : α → List (String × Json)}
    (names : List String) (hnames : ∀ a, (fields a).map Prod.fst = names) (hnodup : names.Nodup)
    (hplain : ∀ a, ∀ f ∈ fields a, f.2.Plain)
    (hread : ∀ a (doc : String → Json), (∀ f ∈ fields a, f.2.Reorders (doc f.1)) → ∀ j,
      fields? names j = some (names.map fun name => .given (doc name)) → read j = some a) :
    Reads read fun a => .record (fields a) where
  plain a := record_plain (hplain a)
  read a j hj := by
    obtain ⟨doc, hfields, hdoc⟩ := fields?_record (hnames a ▸ hnodup) hj
    rw [hnames a] at hfields
    exact hread a doc hdoc j hfields

/-! ### Cases -/

theorem ofVariant_plain (name : String) {payload : Json} (h : payload.Plain) :
    (ofVariant name payload).Plain :=
  record_plain fun f hf => by
    obtain rfl := List.mem_singleton.mp hf
    exact h

/-- A case that carries nothing is found by its name. -/
theorem variant?_text {name : String} (h : (Json.text name).Reorders j) :
    variant? j = some (name, none) := by
  have hj : j = .text name := h.eq_of_atom nofun nofun
  rw [hj, text, variant?, textOf?_piecesOf]
  rfl

/-- So is a case that carries something, with what it carries. -/
theorem variant?_ofVariant {name : String} {payload : Json}
    (h : (ofVariant name payload).Reorders j) :
    ∃ payload', variant? j = some (name, some payload') ∧ payload.Reorders payload' := by
  have hrecord : (Json.record ([(name, payload)].map id)).Reorders j := h
  obtain ⟨ys, members, rfl, hperm, hmembers⟩ := hrecord.members_of_record
  -- There is only one field, and so there is only one order of the fields.
  obtain rfl : ys = [(name, payload)] := List.perm_singleton.mp hperm.symm
  obtain ⟨m, rest, ⟨hkey, hpayload⟩, hrest, rfl⟩ := List.forall₂_cons_left_iff.mp hmembers
  cases hrest
  obtain ⟨key, value⟩ := m
  obtain rfl : key = piecesOf name := hkey
  refine ⟨value, ?_, hpayload⟩
  rw [variant?, textOf?_piecesOf]
  rfl

/-- The case of a value that carries nothing, for a reader that goes by the names of cases. -/
theorem bind_variant?_text {take : String × Option Json → Option α} {name : String} {a : α}
    (htake : take (name, none) = some a) (h : (Json.text name).Reorders j) :
    (variant? j).bind take = some a := by
  rw [variant?_text h]
  exact htake

/-- **The case of a value that carries another value**, for a reader that makes the one out of the
other under the name of the case. -/
theorem Reads.bind_variant? {β : Type} {read : Json → Option β} {write : β → Json}
    (hreads : Reads read write) {take : String × Option Json → Option α} {name : String}
    {wrap : β → α} {b : β}
    (htake : ∀ payload, take (name, some payload) = (read payload).bind fun b => some (wrap b))
    (h : (ofVariant name (write b)).Reorders j) : (variant? j).bind take = some (wrap b) := by
  obtain ⟨payload, hvariant, hpayload⟩ := variant?_ofVariant h
  calc (variant? j).bind take
      _ = take (name, some payload) := by rw [hvariant, Option.bind_some]
      _ = (read payload).bind fun b => some (wrap b) := htake payload
      _ = some (wrap b) := by rw [hreads.read b hpayload, Option.bind_some]

end Json

end MessageCall
