import MessageCall.ContractAddress
import Mathlib.Data.List.TakeWhile

/-!
# The encoding behind contract addresses is unambiguous

What is hashed for the address of a contract is a byte string that decodes to the creator and its
nonce. The decoder is written for the format and not for the two values: it reads heads, payloads,
strings and lists of strings at all lengths below `2 ^ 64`, in the one form that each of them may
have. So a length of up to fifty-five is not taken from behind a longer head, a small byte is not
taken from behind a head at all, and digits may not start with zero.

`Encoding.Decodes` is the law of the readers. A reader takes what is written for a value off the
front of a byte string, whatever comes behind it, and where it takes a value it has read what is
written for that value. The nonce changes its shape at zero, at 128 and with every further byte, and
the list around it changes its head; none of this is a case here, because every shape has been dealt
with where it belongs: numbers by `Encoding.Minimal`, small bytes by `Encoding.string?`, and lengths
by `Encoding.length?`.

Strictness is what makes the result an equivalence (`Encoding.creator?_eq_some_iff`), and with it
two pairs have the same encoding only if they are the same. Two different pairs with the same
address are then a collision of the hash in the twenty bytes that an address keeps.
-/

namespace MessageCall

/-! ### Numbers and their bytes -/

/-- Zeros in front of a byte string do not change the number it spells. -/
theorem ofBigEndian_zeros (k : Nat) (bytes : Bytes) :
    ofBigEndian (List.replicate k 0 ++ bytes) = ofBigEndian bytes := by
  induction k with
  | zero => rfl
  | succ k ih => exact ih

/-- The last bytes of a number are those of the number at their own width. -/
theorem drop_bigEndian (k width n : Nat) :
    (bigEndian (k + width) n).drop k = bigEndian width n := by
  induction width generalizing n with
  | zero => exact List.drop_eq_nil_of_le (Nat.le_of_eq (length_bigEndian k n))
  | succ width ih =>
    have hle : k ≤ (bigEndian (k + width) (n / 256)).length := by
      rw [length_bigEndian]
      exact Nat.le_add_right k width
    rw [← Nat.add_assoc, bigEndian, List.drop_append_of_le_length hle, ih, bigEndian]

/-- Bytes beyond the width do not matter. -/
theorem bigEndian_mod_span (width n : Nat) :
    bigEndian width (n % span width) = bigEndian width n := by
  have h := bigEndian_ofBigEndian (bigEndian width n)
  rwa [length_bigEndian, ofBigEndian_bigEndian] at h

theorem length_addressBytes (a : Address) : (addressBytes a).length = 20 := by
  rw [addressBytes, length_bigEndian]

theorem ofBigEndian_addressBytes (a : Address) : ofBigEndian (addressBytes a) = a.toNat := by
  rw [addressBytes, ofBigEndian_bigEndian, Nat.mod_eq_of_lt (show a.toNat < span 20 from a.isLt)]

theorem addressBytes_inj {a a' : Address} : addressBytes a = addressBytes a' ↔ a = a' := by
  constructor
  · intro h
    have hvalue := congrArg ofBigEndian h
    rw [ofBigEndian_addressBytes, ofBigEndian_addressBytes] at hvalue
    exact BitVec.eq_of_toNat_eq hvalue
  · exact congrArg addressBytes

namespace Encoding

/-- The bytes of a number without leading zeros. -/
def shortest (n : Nat) : Bytes := (bigEndian 8 n).dropWhile (· == 0)

/-- At most eight bytes, the first of which is not zero. -/
def Minimal (digits : Bytes) : Prop := digits.length ≤ 8 ∧ digits.head? ≠ some 0

instance (digits : Bytes) : Decidable (Minimal digits) :=
  inferInstanceAs (Decidable (_ ∧ _))

/-- What is dropped from the bytes of a number are zeros. -/
theorem zeros_shortest (n : Nat) : ∃ k, bigEndian 8 n = List.replicate k 0 ++ shortest n := by
  have hzeros : ∀ b ∈ (bigEndian 8 n).takeWhile (· == 0), b = 0 := by
    intro b hb
    have hzero := List.mem_takeWhile_imp hb
    exact eq_of_beq hzero
  refine ⟨((bigEndian 8 n).takeWhile (· == 0)).length, ?_⟩
  calc bigEndian 8 n
    _ = (bigEndian 8 n).takeWhile (· == 0) ++ shortest n := List.takeWhile_append_dropWhile.symm
    _ = List.replicate _ 0 ++ shortest n := by rw [← List.eq_replicate_of_mem hzeros]

theorem ofBigEndian_shortest {n : Nat} (hn : n < span 8) : ofBigEndian (shortest n) = n := by
  obtain ⟨k, hk⟩ := zeros_shortest n
  calc ofBigEndian (shortest n)
    _ = ofBigEndian (bigEndian 8 n) := by rw [hk, ofBigEndian_zeros]
    _ = n := by rw [ofBigEndian_bigEndian, Nat.mod_eq_of_lt hn]

theorem minimal_shortest (n : Nat) : Minimal (shortest n) := by
  constructor
  · calc (shortest n).length
      _ ≤ (bigEndian 8 n).length := List.length_dropWhile_le _ _
      _ = 8 := length_bigEndian 8 n
  · intro h
    have hhead := List.head?_dropWhile_not (· == (0 : UInt8)) (bigEndian 8 n)
    rw [shortest] at h
    rw [h] at hhead
    exact absurd hhead (by decide)

theorem dropWhile_zeros (k : Nat) {digits : Bytes} (h : digits.head? ≠ some 0) :
    (List.replicate k 0 ++ digits).dropWhile (· == 0) = digits := by
  induction k with
  | zero =>
    cases digits with
    | nil => rfl
    | cons b digits =>
      have hb : ¬ (b == 0) = true := fun hb => h (congrArg some (eq_of_beq hb))
      exact List.dropWhile_cons_of_neg hb
  | succ k ih => exact ih

/-- Bytes without leading zeros are those of the number that they spell. -/
theorem Minimal.shortest_ofBigEndian {digits : Bytes} (h : Minimal digits) :
    shortest (ofBigEndian digits) = digits ∧ ofBigEndian digits < span 8 := by
  -- At the full width they have zeros in front of them.
  have hlength : (List.replicate (8 - digits.length) 0 ++ digits).length = 8 := by
    rw [List.length_append, List.length_replicate]
    exact Nat.sub_add_cancel h.1
  have hbytes := bigEndian_ofBigEndian (List.replicate (8 - digits.length) 0 ++ digits)
  rw [hlength, ofBigEndian_zeros] at hbytes
  constructor
  · rw [shortest, hbytes, dropWhile_zeros _ h.2]
  · have hvalue := ofBigEndian_bigEndian 8 (ofBigEndian digits)
    rw [hbytes, ofBigEndian_zeros] at hvalue
    rw [hvalue]
    exact Nat.mod_lt _ (by decide)

/-! ### Heads -/

/-- **A reader of byte strings.** It takes what is written for a value off the front of a byte
string, and takes nothing else. -/
structure Decodes {α : Type} (fits : α → Prop) (write : α → Bytes)
    (read : Bytes → Option (α × Bytes)) : Prop where
  reads : ∀ {a : α} (rest : Bytes), fits a → read (write a ++ rest) = some (a, rest)
  written : ∀ {bytes rest : Bytes} {a : α}, read bytes = some (a, rest) →
    fits a ∧ bytes = write a ++ rest

/-- Reads the head of a payload, and answers the length of the payload. -/
def length? (offset : Nat) : Bytes → Option (Nat × Bytes)
  | [] => none
  | b :: rest =>
    if b.toNat < offset then none
    else if b.toNat ≤ offset + 55 then some (b.toNat - offset, rest)
    else
      let width := b.toNat - (offset + 55)
      let digits := rest.take width
      if digits.length = width ∧ Minimal digits ∧ 55 < ofBigEndian digits then
        some (ofBigEndian digits, rest.drop width)
      else none

variable {offset : Nat}

theorem head_short {n : Nat} (hn : n ≤ 55) : head offset n = [UInt8.ofNat (offset + n)] :=
  if_pos hn

theorem head_long {n : Nat} (hn : ¬ n ≤ 55) :
    head offset n = UInt8.ofNat (offset + 55 + (shortest n).length) :: shortest n :=
  if_neg hn

/-- A head can be told from a byte below its offset. -/
theorem exists_head (hoffset : offset ≤ 0xc0) (n : Nat) :
    ∃ b rest, head offset n = b :: rest ∧ offset ≤ b.toNat := by
  have hlength := (minimal_shortest n).1
  by_cases hn : n ≤ 55
  · refine ⟨_, _, head_short hn, ?_⟩
    rw [UInt8.toNat_ofNat_of_lt' (by show _ < 256; omega)]
    exact Nat.le_add_right offset n
  · refine ⟨_, _, head_long hn, ?_⟩
    rw [UInt8.toNat_ofNat_of_lt' (by show _ < 256; omega)]
    omega

theorem decodes_length (hoffset : offset ≤ 0xc0) :
    Decodes (· < span 8) (head offset) (length? offset) where
  reads {n} rest hn := by
    -- Offset and length stay below the size of a byte, so the first byte says which is meant.
    by_cases hn' : n ≤ 55
    · have hb : (UInt8.ofNat (offset + n)).toNat = offset + n :=
        UInt8.toNat_ofNat_of_lt' (by show _ < 256; omega)
      rw [head_short hn', List.singleton_append, length?, hb, if_neg (by omega),
        if_pos (by omega), Nat.add_sub_cancel_left]
    · have hlength := (minimal_shortest n).1
      have hvalue := ofBigEndian_shortest hn
      -- Without any bytes for the length the head would be that of a short payload.
      have hpos : 0 < (shortest n).length := by
        rw [List.length_pos_iff]
        intro hnil
        rw [hnil] at hvalue
        exact hn' (hvalue ▸ Nat.zero_le 55)
      have hb : (UInt8.ofNat (offset + 55 + (shortest n).length)).toNat =
          offset + 55 + (shortest n).length :=
        UInt8.toNat_ofNat_of_lt' (by show _ < 256; omega)
      rw [head_long hn', List.cons_append, length?, hb, if_neg (by omega), if_neg (by omega)]
      simp only [Nat.add_sub_cancel_left, List.take_left, List.drop_left, hvalue]
      exact if_pos ⟨trivial, minimal_shortest n, Nat.lt_of_not_le hn'⟩
  written {bytes rest n} h := by
    -- There is a first byte, and it is a short head or a long one.
    cases bytes with
    | nil => cases h
    | cons b tail =>
      have hb := b.toNat_lt
      rw [length?] at h
      split_ifs at h with hbelow hshort
      · cases h
        have hspan : 55 < span 8 := by decide
        have hbyte : offset + (b.toNat - offset) = b.toNat := by omega
        refine ⟨by show _ < _; omega, ?_⟩
        rw [head_short (by omega), hbyte, UInt8.ofNat_toNat, List.singleton_append]
      · -- The bytes of the length are minimal, or else a longer head would be taken as well.
        simp only [Option.ite_none_right_eq_some, Option.some.injEq, Prod.mk.injEq] at h
        obtain ⟨⟨hwidth, hminimal, hlong⟩, rfl, rfl⟩ := h
        obtain ⟨hshortest, hspan⟩ := hminimal.shortest_ofBigEndian
        have hbyte : offset + 55 + (b.toNat - (offset + 55)) = b.toNat := by omega
        refine ⟨hspan, ?_⟩
        rw [head_long (Nat.not_le.mpr hlong), hshortest, hwidth, hbyte, UInt8.ofNat_toNat,
          List.cons_append, List.take_append_drop]

/-! ### Payloads -/

/-- Reads a payload behind its head. -/
def payload? (offset : Nat) (bytes : Bytes) : Option (Bytes × Bytes) :=
  (length? offset bytes).bind fun h =>
    if h.1 ≤ h.2.length then some (h.2.take h.1, h.2.drop h.1) else none

theorem decodes_payload (hoffset : offset ≤ 0xc0) :
    Decodes (fun payload => payload.length < span 8)
      (fun payload => head offset payload.length ++ payload) (payload? offset) where
  reads {payload} rest h := by
    -- The head gives the length, and so much is taken.
    have hlength : payload.length ≤ (payload ++ rest).length := by
      rw [List.length_append]
      exact Nat.le_add_right _ _
    rw [payload?, List.append_assoc, (decodes_length hoffset).reads _ h, Option.bind_some,
      if_pos hlength, List.take_left, List.drop_left]
  written {bytes rest payload} h := by
    -- What was read has been written as a head and a payload.
    obtain ⟨⟨n, tail⟩, hhead, hsplit⟩ := Option.bind_eq_some_iff.mp h
    obtain ⟨hn, rfl⟩ := (decodes_length hoffset).written hhead
    obtain ⟨hlength, hparts⟩ := Option.ite_none_right_eq_some.mp hsplit
    cases hparts
    rw [List.length_take_of_le hlength, List.append_assoc, List.take_append_drop]
    exact ⟨hn, rfl⟩

/-! ### Strings and lists -/

/-- Whether a string is a byte that stands for itself. -/
def isSmall : Bytes → Bool
  | [b] => b < 0x80
  | _ => false

/-- Reads a string. A small byte is not taken from behind a head. -/
def string? : Bytes → Option (Bytes × Bytes)
  | [] => none
  | b :: rest =>
    if b < 0x80 then some ([b], rest) else (payload? 0x80 (b :: rest)).filter (!isSmall ·.1)

theorem exists_of_isSmall {bytes : Bytes} (h : isSmall bytes = true) :
    ∃ b, bytes = [b] ∧ b < 0x80 := by
  unfold isSmall at h
  split at h
  · next b => exact ⟨b, rfl, of_decide_eq_true h⟩
  · cases h

theorem string_eq (bytes : Bytes) :
    string bytes = if isSmall bytes then bytes else head 0x80 bytes.length ++ bytes := by
  unfold string
  split
  · next b =>
    by_cases hb : b < 0x80 <;> simp [isSmall, hb]
  · next h =>
    have hsmall : isSmall bytes = false := by
      unfold isSmall
      split
      · next b => exact absurd rfl (h b)
      · rfl
    rw [hsmall, if_neg Bool.false_ne_true]

theorem decodes_string : Decodes (fun bytes => bytes.length < span 8) string string? where
  reads {bytes} rest h := by
    rw [string_eq]
    -- A small byte stands for itself.
    cases hsmall : isSmall bytes with
    | true =>
      obtain ⟨b, rfl, hb⟩ := exists_of_isSmall hsmall
      rw [if_pos rfl, List.singleton_append, string?, if_pos hb]
    | false =>
      -- The first byte is that of a head, and does not stand for itself.
      obtain ⟨b, tail, hhead, hb⟩ := @exists_head 0x80 (by decide) bytes.length
      have hread := (@decodes_payload 0x80 (by decide)).reads rest h
      have hb' : ¬ b < 0x80 := by
        rw [UInt8.not_lt, UInt8.le_iff_toNat_le]
        exact hb
      rw [if_neg Bool.false_ne_true]
      simp only [hhead, List.cons_append] at hread ⊢
      rw [string?, if_neg hb', hread, Option.filter_some, hsmall]
      rfl
  written {bytes rest payload} h := by
    cases bytes with
    | nil => cases h
    | cons b tail =>
      rw [string?] at h
      -- The first byte is below the heads, or it is one of them.
      split_ifs at h with hb
      · cases h
        have hlength : 1 < span 8 := by decide
        refine ⟨hlength, ?_⟩
        rw [string_eq, isSmall, if_pos (decide_eq_true hb), List.singleton_append]
      · obtain ⟨hread, hsmall⟩ := Option.filter_eq_some_iff.mp h
        obtain ⟨hlength, hbytes⟩ := (@decodes_payload 0x80 (by decide)).written hread
        refine ⟨hlength, ?_⟩
        rw [string_eq, if_neg (by simpa using hsmall)]
        exact hbytes

/-- Reads the given number of strings, behind which there is nothing. -/
def strings? : (count : Nat) → Bytes → Option (List Bytes)
  | 0, [] => some []
  | 0, _ :: _ => none
  | count + 1, bytes => (string? bytes).bind fun s => (strings? count s.2).map (s.1 :: ·)

theorem strings?_eq_some_iff {count : Nat} {bytes : Bytes} {items : List Bytes} :
    strings? count bytes = some items ↔ items.length = count ∧
      (∀ item ∈ items, item.length < span 8) ∧ bytes = items.flatMap string := by
  -- One string after the other, up to the count.
  induction count generalizing bytes items with
  | zero =>
    rw [List.length_eq_zero_iff]
    constructor
    · intro h
      cases bytes with
      | nil => cases h; exact ⟨rfl, nofun, rfl⟩
      | cons b rest => cases h
    · rintro ⟨rfl, -, rfl⟩
      rfl
  | succ count ih =>
    rw [strings?, Option.bind_eq_some_iff]
    constructor
    · -- The first string and the others have been written.
      rintro ⟨⟨item, rest⟩, hitem, hrest⟩
      obtain ⟨items, hitems, rfl⟩ := Option.map_eq_some_iff.mp hrest
      obtain ⟨hfits, rfl⟩ := decodes_string.written hitem
      obtain ⟨rfl, hfits', rfl⟩ := ih.mp hitems
      exact ⟨rfl, List.forall_mem_cons.mpr ⟨hfits, hfits'⟩, rfl⟩
    · -- What has been written is read in the same order.
      rintro ⟨hcount, hfits, rfl⟩
      cases items with
      | nil => cases hcount
      | cons item items =>
        obtain ⟨hfits, hfits'⟩ := List.forall_mem_cons.mp hfits
        have hitems : strings? count (items.flatMap string) = some items :=
          ih.mpr ⟨Nat.succ.inj hcount, hfits', rfl⟩
        exact ⟨(item, items.flatMap string), decodes_string.reads _ hfits,
          congrArg (Option.map (item :: ·)) hitems⟩

/-- Reads a list of the given number of strings, behind which there is nothing. -/
def list? (count : Nat) (bytes : Bytes) : Option (List Bytes) :=
  (payload? 0xc0 bytes).bind fun p => if p.2 = [] then strings? count p.1 else none

theorem list?_eq_some_iff {count : Nat} {bytes : Bytes} {items : List Bytes} :
    list? count bytes = some items ↔ items.length = count ∧
      (∀ item ∈ items, item.length < span 8) ∧ (items.flatMap string).length < span 8 ∧
      bytes = list items := by
  rw [list?, Option.bind_eq_some_iff]
  constructor
  · -- The payload is all there is, and it is the strings.
    rintro ⟨⟨payload, rest⟩, hpayload, hitems⟩
    obtain ⟨hlength, rfl⟩ := (@decodes_payload 0xc0 (by decide)).written hpayload
    obtain ⟨rfl, hitems⟩ := Option.ite_none_right_eq_some.mp hitems
    obtain ⟨hcount, hfits, rfl⟩ := strings?_eq_some_iff.mp hitems
    exact ⟨hcount, hfits, hlength, List.append_nil _⟩
  · -- The strings are read from the payload, and nothing is behind it.
    rintro ⟨hcount, hfits, hlength, rfl⟩
    have hpayload := (@decodes_payload 0xc0 (by decide)).reads [] hlength
    rw [List.append_nil] at hpayload
    have hitems := strings?_eq_some_iff.mpr ⟨hcount, hfits, rfl⟩
    exact ⟨_, hpayload, (if_pos rfl).trans hitems⟩

/-- A string takes at most nine bytes more than it holds. -/
theorem length_string_le (bytes : Bytes) : (string bytes).length ≤ bytes.length + 9 := by
  have hhead : (head 0x80 bytes.length).length ≤ 9 := by
    by_cases h : bytes.length ≤ 55
    · rw [head_short h]
      exact Nat.le_add_left 1 8
    · rw [head_long h]
      exact Nat.succ_le_succ (minimal_shortest _).1
  rw [string_eq]
  split
  · exact Nat.le_add_right _ 9
  · rw [List.length_append, Nat.add_comm]
    exact Nat.add_le_add_left hhead _

/-! ### Creators -/

/-- Reads a number from its bytes. -/
def number? (bytes : Bytes) : Option UInt64 :=
  if Minimal bytes then some (UInt64.ofNat (ofBigEndian bytes)) else none

theorem number?_eq_some_iff {bytes : Bytes} {n : UInt64} :
    number? bytes = some n ↔ bytes = numberBytes n := by
  constructor
  · intro h
    obtain ⟨hminimal, hn⟩ := Option.ite_none_right_eq_some.mp h
    obtain ⟨hshortest, hspan⟩ := hminimal.shortest_ofBigEndian
    rw [← Option.some.inj hn]
    show _ = shortest (UInt64.ofNat _).toNat
    rw [UInt64.toNat_ofNat_of_lt' hspan, hshortest]
  · rintro rfl
    have hvalue : ofBigEndian (numberBytes n) = n.toNat := ofBigEndian_shortest n.toNat_lt
    have hminimal : Minimal (numberBytes n) := minimal_shortest n.toNat
    rw [number?, if_pos hminimal, hvalue, UInt64.ofNat_toNat]

/-- Reads an address from its bytes. -/
def address? (bytes : Bytes) : Option Address :=
  if bytes.length = 20 then some (BitVec.ofNat 160 (ofBigEndian bytes)) else none

theorem address?_eq_some_iff {bytes : Bytes} {a : Address} :
    address? bytes = some a ↔ bytes = addressBytes a := by
  constructor
  · intro h
    obtain ⟨hlength, ha⟩ := Option.ite_none_right_eq_some.mp h
    have hbytes := bigEndian_ofBigEndian bytes
    rw [hlength] at hbytes
    rw [← Option.some.inj ha, addressBytes, BitVec.toNat_ofNat]
    exact hbytes.symm.trans (bigEndian_mod_span 20 _).symm
  · intro h
    rw [h, address?, if_pos (length_addressBytes a), ofBigEndian_addressBytes, BitVec.ofNat_toNat,
      BitVec.setWidth_eq]

/-- Reads a creator with its nonce. -/
def creator? (bytes : Bytes) : Option (Address × UInt64) :=
  match list? 2 bytes with
  | some [sender, nonce] =>
    (address? sender).bind fun s => (number? nonce).map fun n => (s, n)
  | _ => none

/-- **The encoding of a creator is read back**, and nothing else is read as that creator. -/
theorem creator?_eq_some_iff {bytes : Bytes} {s : Address} {n : UInt64} :
    creator? bytes = some (s, n) ↔ bytes = creator s n := by
  have hsender := length_addressBytes s
  have hnonce : (numberBytes n).length ≤ 8 := (minimal_shortest n.toNat).1
  constructor
  · intro h
    unfold creator? at h
    split at h
    · next sender nonce hlist =>
      obtain ⟨s', hs, h⟩ := Option.bind_eq_some_iff.mp h
      obtain ⟨n', hn, h⟩ := Option.map_eq_some_iff.mp h
      cases h
      -- The two items are those of the list, and either gives its own part.
      obtain ⟨-, -, -, rfl⟩ := list?_eq_some_iff.mp hlist
      rw [address?_eq_some_iff.mp hs, number?_eq_some_iff.mp hn, creator]
    · cases h
  · intro h
    -- All lengths are far from what a head cannot say.
    have hspan : 100 < span 8 := by decide
    have hfits : ∀ item ∈ [addressBytes s, numberBytes n], item.length < span 8 := by
      simp only [List.forall_mem_cons]
      exact ⟨by omega, by omega, nofun⟩
    have hlength : ([addressBytes s, numberBytes n].flatMap string).length < span 8 := by
      have hs := length_string_le (addressBytes s)
      have hn := length_string_le (numberBytes n)
      simp only [List.flatMap_cons, List.flatMap_nil, List.length_append, List.length_nil]
      omega
    have hlist : list? 2 (creator s n) = some [addressBytes s, numberBytes n] :=
      list?_eq_some_iff.mpr ⟨rfl, hfits, hlength, rfl⟩
    rw [h, creator?, hlist]
    simp only [address?_eq_some_iff.mpr rfl, number?_eq_some_iff.mpr rfl, Option.bind_some,
      Option.map_some]

theorem creator_inj {s s' : Address} {n n' : UInt64} :
    creator s n = creator s' n' ↔ s = s' ∧ n = n' := by
  constructor
  · intro h
    have hread := creator?_eq_some_iff.mpr h
    rw [creator?_eq_some_iff.mpr rfl] at hread
    cases hread
    exact ⟨rfl, rfl⟩
  · rintro ⟨rfl, rfl⟩
    rfl

end Encoding

/-! ### Addresses -/

/-- Two byte strings that differ, with digests that agree in the last twenty bytes. -/
def Collide (bytes bytes' : Bytes) : Prop :=
  bytes ≠ bytes' ∧ (wordBytes (keccak bytes)).drop 12 = (wordBytes (keccak bytes')).drop 12

/-- The bytes of a contract's address are the last ones of the digest. -/
theorem addressBytes_contractAddress (s : Address) (n : UInt64) :
    addressBytes (contractAddress s n) = (wordBytes (keccak (Encoding.creator s n))).drop 12 := by
  rw [wordBytes, drop_bigEndian 12 20, addressBytes, contractAddress, BitVec.toNat_setWidth]
  exact bigEndian_mod_span 20 _

theorem contractAddress_eq_iff {s s' : Address} {n n' : UInt64} :
    contractAddress s n = contractAddress s' n' ↔
      (s = s' ∧ n = n') ∨ Collide (Encoding.creator s n) (Encoding.creator s' n') := by
  rw [← addressBytes_inj, addressBytes_contractAddress, addressBytes_contractAddress,
    ← Encoding.creator_inj, Collide]
  constructor
  · intro h
    -- The same address is the same end of the digest, be it of one encoding or of two.
    by_cases heq : Encoding.creator s n = Encoding.creator s' n'
    · exact .inl heq
    · exact .inr ⟨heq, h⟩
  · rintro (heq | ⟨-, h⟩)
    · rw [heq]
    · exact h

/-- **Addresses of contracts are derived from an unambiguous encoding.** What is hashed decodes to
the creator and its nonce, and so two pairs with one address are the same pair or have encodings
that collide. -/
theorem contractAddress_unambiguous (s s' : Address) (n n' : UInt64) :
    Encoding.creator? (Encoding.creator s n) = some (s, n) ∧
    (Encoding.creator s n = Encoding.creator s' n' ↔ s = s' ∧ n = n') ∧
    (contractAddress s n = contractAddress s' n' ↔
      (s = s' ∧ n = n') ∨ Collide (Encoding.creator s n) (Encoding.creator s' n')) ∧
    (contractAddress s n = contractAddress s n' ↔
      n = n' ∨ Collide (Encoding.creator s n) (Encoding.creator s n')) := by
  refine ⟨Encoding.creator?_eq_some_iff.mpr rfl, Encoding.creator_inj, contractAddress_eq_iff, ?_⟩
  rw [contractAddress_eq_iff]
  exact or_congr_left (and_iff_right rfl)

end MessageCall
