import MessageCall.Text.HexField
import MessageCall.Quantity

/-!
# Numerals are read back

Numerals and hexadecimal fields have readers that take what is written for a value for that value. A
numeral is read back in every base (`Numeral.value?_render`), and a field of fixed width comes down
to reading a byte from its two digits (`HexField.pairs_ofBytes`). Words are the one place where both
meet: they are written with the fewest digits and read in pairs, and so a numeral of odd length is
one whose first byte lacks a digit (`HexField.pairs_spells`).
-/

namespace MessageCall

/-! ### Digits -/

theorem Hex.digitValue?_digitChar {d : Nat} (hd : d < 16) :
    Hex.digitValue? (Nat.digitChar d) = some d := by
  have hall : ∀ d < 16, Hex.digitValue? (Nat.digitChar d) = some d := by decide
  exact hall d hd

theorem isBlank_digitChar {d : Nat} (hd : d < 16) : isBlank (Nat.digitChar d) = false := by
  have hall : ∀ d < 16, isBlank (Nat.digitChar d) = false := by decide
  exact hall d hd

/-- A text of hexadecimal digits in lower case. -/
def Hexadecimal (text : List Char) : Prop := ∀ c ∈ text, ∃ d < 16, c = Nat.digitChar d

namespace Numeral

variable {base : Nat}

theorem digit?_digitChar (hbase : base ≤ 16) {d : Nat} (hd : d < base) :
    digit? base (Nat.digitChar d) = some d := by
  rw [digit?, Hex.digitValue?_digitChar (by omega), Option.filter_some, if_pos (by simpa using hd)]

/-! ### Numerals -/

theorem valueFrom?_append (base n : Nat) (cs ds : List Char) :
    valueFrom? base n (cs ++ ds) = (valueFrom? base n cs).bind fun m => valueFrom? base m ds := by
  induction cs generalizing n with
  | nil => rfl
  | cons c cs ih =>
    simp only [List.cons_append, valueFrom?, Option.bind_assoc]
    exact congrArg _ (funext fun d => ih _)

/-- A numeral is a digit, or the numeral of all but its last digit and that digit. -/
theorem render_cases (hbase : 1 < base) {P : Nat → List Char → Prop}
    (digit : ∀ n < base, P n [Nat.digitChar n])
    (more : ∀ n, base ≤ n → P (n / base) (render base (n / base)) →
      P n (render base (n / base) ++ [Nat.digitChar (n % base)])) (n : Nat) :
    P n (render base n) := by
  induction n using Nat.strongRecOn with
  | ind n ih =>
    by_cases hn : n < base
    · rw [render, Nat.toDigits_of_lt_base hn]
      exact digit n hn
    · have hle : base ≤ n := Nat.le_of_not_lt hn
      rw [render, Nat.toDigits_of_base_le hbase hle]
      exact more n hle (ih _ (Nat.div_lt_self (by omega) hbase))

/-- **A numeral is read back.** -/
theorem value?_render (hbase : 1 < base) (hle : base ≤ 16) (n : Nat) :
    value? base (render base n) = some n := by
  refine render_cases hbase (P := fun n text => value? base text = some n) (fun n hn => ?_)
    (fun n hn ih => ?_) n
  · simp only [value?, valueFrom?, digit?_digitChar hle hn, Nat.mul_zero, Nat.zero_add,
      Option.bind_some]
  · have hdigit : n % base < base := Nat.mod_lt n (by omega)
    rw [value?, valueFrom?_append, ← value?, ih]
    simp only [valueFrom?, digit?_digitChar hle hdigit, Option.bind_some, Nat.div_add_mod]

theorem value?_hexadecimal (n : Nat) : value? 16 (render 16 n) = some n :=
  value?_render (by decide) (Nat.le_refl 16) n

theorem render_ne_nil (base n : Nat) : render base n ≠ [] := Nat.toDigits_ne_nil

theorem hexadecimal_render (n : Nat) : Hexadecimal (render 16 n) := by
  refine render_cases (by decide) (P := fun _ text => Hexadecimal text) (fun n hn => ?_)
    (fun n _ ih => ?_) n
  · intro c hc
    exact ⟨n, hn, List.mem_singleton.mp hc⟩
  · intro c hc
    rcases List.mem_append.mp hc with hc | hc
    · exact ih c hc
    · exact ⟨n % 16, Nat.mod_lt n (by decide), List.mem_singleton.mp hc⟩

/-- The decimal numeral of a number starts with zero only if it is zero. -/
theorem head?_render {n : Nat} (h : (render 10 n).head? = some '0') : n = 0 := by
  revert h
  refine render_cases (by decide) (P := fun n text => text.head? = some '0' → n = 0) (by decide)
    (fun n hn ih h => ?_) n
  -- All but the last digit are those of a number that is not zero.
  obtain ⟨c, text, htext⟩ := List.exists_cons_of_ne_nil (render_ne_nil 10 (n / 10))
  rw [htext] at h ih
  have hzero := ih h
  omega

end Numeral

/-! ### Hexadecimal fields -/

namespace HexField

theorem pairs_low {d high : Nat} (hd : d < 16) (text : List Char) :
    pairs (some high) (Nat.digitChar d :: text) =
      (pairs none text).map (UInt8.ofNat (16 * high + d) :: ·) := by
  simp only [pairs, isBlank_digitChar hd, Bool.false_eq_true, if_false,
    Hex.digitValue?_digitChar hd]

theorem pairs_high {d : Nat} (hd : d < 16) (text : List Char) :
    pairs none (Nat.digitChar d :: text) = pairs (some d) text := by
  simp only [pairs, isBlank_digitChar hd, Bool.false_eq_true, if_false,
    Hex.digitValue?_digitChar hd]

/-- **Bytes are read back** from their digits. -/
theorem pairs_ofBytes (bytes : Bytes) : pairs none (Hex.ofBytes bytes) = some bytes := by
  induction bytes with
  | nil => rfl
  | cons b bytes ih =>
    have hb := b.toNat_lt
    have hbyte : UInt8.ofNat (16 * (b.toNat / 16) + b.toNat % 16) = b := by
      rw [Nat.div_add_mod, UInt8.ofNat_toNat]
    have hcons : Hex.ofBytes (b :: bytes) = Nat.digitChar (b.toNat / 16) ::
        Nat.digitChar (b.toNat % 16) :: Hex.ofBytes bytes := rfl
    rw [hcons, pairs_high (by omega), pairs_low (by omega), ih, hbyte]
    rfl

theorem length_ofBytes (bytes : Bytes) : (Hex.ofBytes bytes).length = 2 * bytes.length := by
  induction bytes with
  | nil => rfl
  | cons b bytes ih =>
    have hcons : (Hex.ofBytes (b :: bytes)).length = (Hex.ofBytes bytes).length + 2 := rfl
    rw [hcons, ih, List.length_cons]
    omega

/-- A field of fixed width is read back. -/
theorem fixed?_bigEndian (width n : Nat) :
    fixed? width (Hex.bytes (bigEndian width n)).toList = some (bigEndian width n) := by
  have htext : unmarked (Hex.bytes (bigEndian width n)).toList =
      Hex.ofBytes (bigEndian width n) := by
    rw [Hex.bytes, String.toList_ofList]
    rfl
  have hlength : (Hex.ofBytes (bigEndian width n)).length = 2 * width := by
    rw [length_ofBytes, length_bigEndian]
  have heven : ¬ 2 * width % 2 = 1 := by omega
  simp only [fixed?, htext, digits, hlength, if_true, if_neg heven, pairs_ofBytes, Option.map_some,
    length_bigEndian, Nat.sub_self, List.replicate_zero, List.append_nil]

theorem hash?_hash (h : Hash) : hash? (Hex.hash h).toList = some h := by
  rw [hash?, Hex.hash, wordBytes, fixed?_bigEndian, Option.map_some, ofBigEndian_bigEndian,
    Nat.mod_eq_of_lt (show h.toNat < span 32 from h.isLt), BitVec.ofNat_toNat, BitVec.setWidth_eq]

theorem address?_address (a : Address) : address? (Hex.address a).toList = some a := by
  rw [address?, Hex.address, addressBytes, fixed?_bigEndian, Option.map_some,
    ofBigEndian_bigEndian, Nat.mod_eq_of_lt (show a.toNat < span 20 from a.isLt),
    BitVec.ofNat_toNat, BitVec.setWidth_eq]

/-- Digits that pair up spell the same number as the bytes that they pair up to. -/
theorem pairs_spells {text : List Char} (h : Hexadecimal text) :
    (text.length % 2 = 0 → ∃ bytes, pairs none text = some bytes ∧ ∀ n,
      Numeral.valueFrom? 16 n text = some (bytes.foldl (fun n b => 256 * n + b.toNat) n)) ∧
    (text.length % 2 = 1 → ∀ high < 16, ∃ bytes, pairs (some high) text = some bytes ∧ ∀ n,
      Numeral.valueFrom? 16 (16 * n + high) text =
        some (bytes.foldl (fun n b => 256 * n + b.toNat) n)) := by
  induction text with
  | nil => exact ⟨fun _ => ⟨[], rfl, fun _ => rfl⟩, nofun⟩
  | cons c text ih =>
    obtain ⟨d, hd, rfl⟩ := h c List.mem_cons_self
    -- The other parity holds of the rest, so both are proved together.
    obtain ⟨heven, hodd⟩ := ih fun c hc => h c (List.mem_cons_of_mem _ hc)
    rw [List.length_cons]
    simp only [pairs_high hd, pairs_low hd, Numeral.valueFrom?,
      Numeral.digit?_digitChar (Nat.le_refl 16) hd, Option.bind_some]
    -- A first digit waits for the second, and the two make a byte.
    refine ⟨fun hlength => hodd (by omega) d hd, fun hlength high hhigh => ?_⟩
    obtain ⟨bytes, hpairs, hvalue⟩ := heven (by omega)
    refine ⟨_, by rw [hpairs]; rfl, fun n => ?_⟩
    have hbyte : (UInt8.ofNat (16 * high + d)).toNat = 16 * high + d := by
      rw [UInt8.toNat_ofNat']
      omega
    rw [hvalue, List.foldl_cons, hbyte]
    exact congrArg (fun n => some (bytes.foldl _ n)) (by omega)

/-- A numeral is read in pairs as the bytes of its number. -/
theorem digits_render (n : Nat) :
    ∃ bytes, digits (Numeral.render 16 n) = some bytes ∧ ofBigEndian bytes = n := by
  obtain ⟨heven, hodd⟩ := pairs_spells (Numeral.hexadecimal_render n)
  obtain ⟨bytes, hdigits, hspells⟩ : ∃ bytes, digits (Numeral.render 16 n) = some bytes ∧
      Numeral.value? 16 (Numeral.render 16 n) = some (ofBigEndian bytes) := by
    unfold digits
    by_cases hlength : (Numeral.render 16 n).length % 2 = 1
    · obtain ⟨bytes, hpairs, hspells⟩ := hodd hlength 0 (by decide)
      rw [if_pos hlength]
      exact ⟨bytes, hpairs, hspells 0⟩
    · obtain ⟨bytes, hpairs, hspells⟩ := heven (by omega)
      rw [if_neg hlength]
      exact ⟨bytes, hpairs, hspells 0⟩
  exact ⟨bytes, hdigits, Option.some.inj (hspells.symm.trans (Numeral.value?_hexadecimal n))⟩

theorem word?_ofWord (w : Word) : word? (Quantity.ofWord w).toList = some w := by
  have htext : unmarked (Quantity.ofWord w).toList = Numeral.render 16 w.toNat := by
    rw [Quantity.ofWord, Hex.number, String.toList_ofList]
    rfl
  have hpos : 1 ≤ (Numeral.render 16 w.toNat).length := Nat.length_toDigits_pos
  have hlength : (Numeral.render 16 w.toNat).length ≤ 64 :=
    (Nat.length_toDigits_le_iff (by decide) (by decide)).mpr w.isLt
  obtain ⟨bytes, hdigits, hbytes⟩ := digits_render w.toNat
  simp only [word?, htext, if_pos (And.intro hpos hlength), hdigits, Option.map_some, hbytes,
    BitVec.ofNat_toNat, BitVec.setWidth_eq]

end HexField

end MessageCall
