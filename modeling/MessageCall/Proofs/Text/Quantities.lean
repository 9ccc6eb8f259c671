import MessageCall.Proofs.Text.Numerals
import Mathlib.Data.List.Forall2
import Mathlib.Data.List.Induction
import Mathlib.Data.Nat.Digits.Defs

/-!
# Quantities are read by their grammars

Every kind of quantity has its own reader, and the readers differ in what they make of the mark, of
a sign, of a text without digits and of a number that is too large. Here each of them is compared
with a grammar that is stated apart from it: `WordText`, `CountText`, `HexCountText` and `BytesText`
say which texts a quantity has and what each of them is worth, by the positions of its digits
(`Spells`). `Quantity.Takes` says of a reader that it takes these texts and no others.

The readers are followed down to digits. A digit is read if and only if it spells one
(`Hex.digitValue?_eq_some_iff`), and so are numerals (`Numeral.value?_eq_some_iff`). What is left is
the order in which a reader looks at things. A decimal word is given up at the first digit that
carries it too far, which is right because further digits make no number smaller. The reader of
byte strings works on the bytes of the text, and there a character that is no digit shows up as a
byte that is none (`Quantity.map_utf8`).

A grammar also decides without any reader that the decimal and the hexadecimal numeral of a number
are worth the same, and that the writers write what the readers take.
-/

namespace MessageCall

/-! ### Digits and numerals -/

theorem exists_of_forall₂ {α β : Type} {R : α → β → Prop} {l : List α} {l' : List β}
    (h : List.Forall₂ R l l') {a : α} (ha : a ∈ l) : ∃ b ∈ l', R a b := by
  induction h with
  | nil => exact absurd ha List.not_mem_nil
  | cons hhead _ ih =>
    rcases List.mem_cons.mp ha with rfl | ha
    · exact ⟨_, List.mem_cons_self, hhead⟩
    · obtain ⟨b, hb, hab⟩ := ih ha
      exact ⟨b, List.mem_cons_of_mem _ hb, hab⟩

/-- The characters that spell a digit of a base. A letter may stand in either case. -/
def SpellsDigit (base : Nat) (c : Char) (d : Nat) : Prop :=
  d < base ∧ (c = Nat.digitChar d ∨ c = (Nat.digitChar d).toUpper)

/-- The texts that hold digits of a base only. -/
def Digits (base : Nat) (text : List Char) : Prop := ∀ c ∈ text, ∃ d, SpellsDigit base c d

/-- The texts that spell a number by its digits in a base, the most significant one first. -/
def Spells (base : Nat) (text : List Char) (n : Nat) : Prop :=
  ∃ digits, List.Forall₂ (SpellsDigit base) text digits ∧ n = Nat.ofDigits base digits.reverse

/-- A character of a range is known by its distance from the range's first one. -/
theorem eq_ofNat_of_le {c first : Char} (h : first ≤ c) :
    c = Char.ofNat (first.toNat + (c.toNat - first.toNat)) := by
  have hle : first.toNat ≤ c.toNat := h
  rw [Nat.add_sub_cancel' hle, Char.ofNat_toNat]

theorem Hex.digitValue?_eq_some_iff {c : Char} {d : Nat} :
    Hex.digitValue? c = some d ↔ SpellsDigit 16 c d := by
  constructor
  · intro h
    -- Each range has its digits in order.
    have hdecimals : ∀ d < 10, Char.ofNat ('0'.toNat + d) = Nat.digitChar d := by decide
    have hlowers : ∀ d < 6, Char.ofNat ('a'.toNat + d) = Nat.digitChar (d + 10) := by decide
    have huppers : ∀ d < 6, Char.ofNat ('A'.toNat + d) = (Nat.digitChar (d + 10)).toUpper := by
      decide
    unfold Hex.digitValue? at h
    split_ifs at h with hdecimal hlower hupper <;> cases h
    · have hlast : c.toNat ≤ '9'.toNat := hdecimal.2
      have hd : c.toNat - '0'.toNat < 10 := by grind
      exact ⟨by omega, .inl ((eq_ofNat_of_le hdecimal.1).trans (hdecimals _ hd))⟩
    · have hlast : c.toNat ≤ 'f'.toNat := hlower.2
      have hd : c.toNat - 'a'.toNat < 6 := by grind
      exact ⟨by omega, .inl ((eq_ofNat_of_le hlower.1).trans (hlowers _ hd))⟩
    · have hlast : c.toNat ≤ 'F'.toNat := hupper.2
      have hd : c.toNat - 'A'.toNat < 6 := by grind
      exact ⟨by omega, .inr ((eq_ofNat_of_le hupper.1).trans (huppers _ hd))⟩
  · rintro ⟨hd, hc⟩
    -- There are no more than sixteen digits, each in two spellings.
    have hall : ∀ d < 16, Hex.digitValue? (Nat.digitChar d) = some d ∧
        Hex.digitValue? (Nat.digitChar d).toUpper = some d := by decide
    obtain ⟨hlower, hupper⟩ := hall d hd
    rcases hc with rfl | rfl
    · exact hlower
    · exact hupper

namespace Numeral

variable {base : Nat}

theorem digit?_eq_some_iff (hbase : base ≤ 16) {c : Char} {d : Nat} :
    digit? base c = some d ↔ SpellsDigit base c d := by
  rw [digit?, Option.filter_eq_some_iff, Hex.digitValue?_eq_some_iff, decide_eq_true_iff]
  constructor
  · rintro ⟨⟨-, hc⟩, hd⟩
    exact ⟨hd, hc⟩
  · rintro ⟨hd, hc⟩
    exact ⟨⟨by omega, hc⟩, hd⟩

/-- The value of digits that are read onto the value of those before them. -/
theorem valueFrom?_eq_some_iff (hbase : base ≤ 16) {text : List Char} {m n : Nat} :
    valueFrom? base m text = some n ↔ ∃ digits, List.Forall₂ (SpellsDigit base) text digits ∧
      n = digits.foldl (fun n d => base * n + d) m := by
  induction text generalizing m with
  | nil =>
    simp only [valueFrom?, List.forall₂_nil_left_iff, exists_eq_left, List.foldl_nil,
      Option.some.injEq, eq_comm]
  | cons c text ih =>
    simp only [valueFrom?, Option.bind_eq_some_iff, digit?_eq_some_iff hbase, ih,
      List.forall₂_cons_left_iff]
    constructor
    · rintro ⟨d, hd, digits, hdigits, hn⟩
      exact ⟨d :: digits, ⟨d, digits, hd, hdigits, rfl⟩, hn⟩
    · rintro ⟨-, ⟨d, digits, hd, hdigits, rfl⟩, hn⟩
      exact ⟨d, hd, digits, hdigits, hn⟩

/-- **A text is read as the number that it spells.** -/
theorem value?_eq_some_iff (hbase : base ≤ 16) {text : List Char} {n : Nat} :
    value? base text = some n ↔ Spells base text n := by
  -- The reader adds digit by digit from the left, which is the value by positions.
  have hpositions (digits : List Nat) :
      digits.foldl (fun n d => base * n + d) 0 = Nat.ofDigits base digits.reverse := by
    rw [Nat.ofDigits_eq_foldr, List.foldr_reverse]
    exact congrArg (fun f => digits.foldl f 0) (funext₂ fun n d => Nat.add_comm _ _)
  simp only [value?, valueFrom?_eq_some_iff hbase, Spells, hpositions]

/-- Digits that are read make no number smaller. -/
theorem le_of_valueFrom? (hbase : 0 < base) {text : List Char} {m n : Nat}
    (h : valueFrom? base m text = some n) : m ≤ n := by
  induction text generalizing m with
  | nil => exact Nat.le_of_eq (Option.some.inj h)
  | cons c text ih =>
    obtain ⟨d, -, hd⟩ := Option.bind_eq_some_iff.mp h
    calc m
        _ ≤ base * m := Nat.le_mul_of_pos_left m hbase
        _ ≤ base * m + d := Nat.le_add_right _ _
        _ ≤ n := ih hd

end Numeral

namespace Spells

variable {base n m : Nat} {text : List Char}

theorem unique (hbase : base ≤ 16) (hn : Spells base text n) (hm : Spells base text m) : n = m := by
  rw [← Numeral.value?_eq_some_iff hbase] at hn hm
  exact Option.some.inj (hn.symm.trans hm)

theorem lt_pow (hbase : 1 < base) (h : Spells base text n) : n < base ^ text.length := by
  obtain ⟨digits, hdigits, rfl⟩ := h
  have hlength : digits.reverse.length = text.length := by
    rw [List.length_reverse, hdigits.length_eq]
  rw [← hlength]
  refine Nat.ofDigits_lt_base_pow_length hbase fun d hd => ?_
  obtain ⟨c, -, hc⟩ := exists_of_forall₂ hdigits.flip (List.mem_reverse.mp hd)
  exact hc.1

/-- A numeral spells its number. -/
theorem render (hbase : 1 < base) (hle : base ≤ 16) (n : Nat) :
    Spells base (Numeral.render base n) n :=
  (Numeral.value?_eq_some_iff hle).mp (Numeral.value?_render hbase hle n)

theorem digits (h : Spells base text n) : Digits base text := by
  intro c hc
  obtain ⟨digits, hdigits, -⟩ := h
  obtain ⟨d, -, hd⟩ := exists_of_forall₂ hdigits hc
  exact ⟨d, hd⟩

end Spells

/-! ### Marks -/

namespace Quantity

/-- The mark of a hexadecimal spelling. -/
def mark : List Char := ['0', 'x']

/-- What is left of a text when every leading mark is gone. -/
structure Stripped (text body : List Char) : Prop where
  marks : ∃ k, text = (List.replicate k mark).flatten ++ body
  bare : ¬ mark <+: body

theorem isMarked_iff {text : List Char} : isMarked text = true ↔ mark <+: text := by
  unfold isMarked
  split
  · next rest => exact iff_of_true rfl ⟨rest, rfl⟩
  · next h =>
    refine iff_of_false Bool.false_ne_true ?_
    rintro ⟨rest, rfl⟩
    exact h rest rfl

theorem strip_mark (text : List Char) : strip (mark ++ text) = strip text := by
  rw [mark, List.cons_append, List.cons_append, List.nil_append, strip]

theorem strip_of_bare {text : List Char} (h : ¬ mark <+: text) : strip text = text := by
  unfold strip
  split
  · next rest => exact absurd ⟨rest, rfl⟩ h
  · rfl

theorem stripped_strip (text : List Char) : Stripped text (strip text) := by
  fun_induction strip text with
  | case1 rest ih =>
    obtain ⟨⟨k, hk⟩, hbare⟩ := ih
    refine ⟨⟨k + 1, ?_⟩, hbare⟩
    calc '0' :: 'x' :: rest
        _ = mark ++ ((List.replicate k mark).flatten ++ strip rest) := by rw [← hk]; rfl
        _ = (List.replicate (k + 1) mark).flatten ++ strip rest := by
          rw [List.replicate_succ, List.flatten_cons, List.append_assoc]
  | case2 text h =>
    refine ⟨⟨0, rfl⟩, ?_⟩
    rintro ⟨rest, rfl⟩
    exact h rest rfl

/-- **Every leading mark is dropped**, and nothing else. -/
theorem stripped_iff {text body : List Char} : Stripped text body ↔ strip text = body := by
  constructor
  · rintro ⟨⟨k, rfl⟩, hbare⟩
    induction k with
    | zero => exact strip_of_bare hbare
    | succ k ih =>
      rw [List.replicate_succ, List.flatten_cons, List.append_assoc, strip_mark, ih]
  · rintro rfl
    exact stripped_strip text

/-! ### Grammars -/

/-- The texts of words: at most sixty-four hexadecimal digits behind the mark, and decimal digits
without it. There need not be any. -/
inductive WordText (text : List Char) (n : Nat) : Prop
  | hexadecimal {body : List Char} (hmark : mark <+: text) (hbody : Stripped text body)
    (hlength : body.length ≤ 64) (h : Spells 16 body n)
  | decimal (hmark : ¬ mark <+: text) (h : Spells 10 text n) (hn : n < 2 ^ 256)

/-- The numerals of counts: at least one digit, perhaps behind a sign. -/
inductive CountNumeral (base : Nat) : List Char → Nat → Prop
  | plain {text : List Char} {n : Nat} (hne : text ≠ []) (h : Spells base text n)
    (hn : n < 2 ^ 64) : CountNumeral base text n
  | signed {text : List Char} {n : Nat} (hne : text ≠ []) (h : Spells base text n)
    (hn : n < 2 ^ 64) : CountNumeral base ('+' :: text) n

/-- The texts of counts: a hexadecimal numeral behind the mark, and a decimal one without it. -/
inductive CountText (text : List Char) (n : Nat) : Prop
  | hexadecimal {body : List Char} (hmark : mark <+: text) (hbody : Stripped text body)
    (h : CountNumeral 16 body n)
  | decimal (hmark : ¬ mark <+: text) (h : CountNumeral 10 text n)

/-- The texts of counts in hexadecimal: the mark may be there or not. -/
def HexCountText (text : List Char) (n : Nat) : Prop :=
  ∃ body, Stripped text body ∧ CountNumeral 16 body n

/-- The digits of byte strings: two to a byte, the higher one first. -/
inductive BytePairs : List Char → Bytes → Prop
  | nil : BytePairs [] []
  | cons {c c' : Char} {high low : Nat} {text : List Char} {bytes : Bytes}
    (hhigh : SpellsDigit 16 c high) (hlow : SpellsDigit 16 c' low) (h : BytePairs text bytes) :
    BytePairs (c :: c' :: text) (UInt8.ofNat (16 * high + low) :: bytes)

/-- The texts of byte strings: the mark may be there or not. -/
def BytesText (text : List Char) (bytes : Bytes) : Prop :=
  ∃ body, Stripped text body ∧ BytePairs body bytes

/-- **A reader of a grammar.** It takes the texts of the grammar and no others, each for the value
that the grammar gives it. -/
structure Takes {α β : Type} (read : List Char → Except QuantityError α) (value : α → β)
    (grammar : List Char → β → Prop) : Prop where
  accepts : ∀ text b, grammar text b → ∃ a, read text = .ok a ∧ value a = b
  sound : ∀ text a, read text = .ok a → grammar text (value a)

namespace Takes

variable {α β : Type} {read : List Char → Except QuantityError α} {value : α → β}
  {grammar : List Char → β → Prop}

theorem eq_ok_iff (h : Takes read value grammar) (hvalue : Function.Injective value)
    {text : List Char} {a : α} : read text = .ok a ↔ grammar text (value a) := by
  constructor
  · exact h.sound text a
  · intro hgrammar
    obtain ⟨a', hread, heq⟩ := h.accepts text _ hgrammar
    rw [hread, hvalue heq]

/-- Texts with the same values in the grammar are read alike. -/
theorem toOption_congr (h : Takes read value grammar) (hvalue : Function.Injective value)
    {text text' : List Char} (hsame : ∀ b, grammar text b ↔ grammar text' b) :
    (read text).toOption = (read text').toOption := by
  have hread (text : List Char) (a : α) :
      (read text).toOption = some a ↔ grammar text (value a) := by
    rw [← h.eq_ok_iff hvalue]
    cases read text with
    | error e => exact iff_of_false nofun nofun
    | ok a' => rw [Except.toOption, Option.some.injEq, Except.ok.injEq]
  ext a
  rw [hread, hread, hsame]

end Takes

variable {text : List Char}

/-! ### Words -/

theorem decimalWord_eq_ok_iff {m : Nat} (hm : m < span 32) {w : Word} :
    decimalWord m text = .ok w ↔ Numeral.valueFrom? 10 m text = some w.toNat := by
  induction text generalizing m with
  | nil =>
    -- The number read so far is small enough to be a word.
    have htoNat : (BitVec.ofNat 256 m).toNat = m := Nat.mod_eq_of_lt hm
    rw [decimalWord, Numeral.valueFrom?, Except.ok.injEq, Option.some.injEq, ← BitVec.toNat_inj,
      htoNat]
  | cons c text ih =>
    rw [decimalWord, Numeral.valueFrom?]
    cases hdigit : Numeral.digit? 10 c with
    | none => exact iff_of_false (fun h => by cases h) fun h => by cases h
    | some d =>
      -- One digit more, as long as the number stays that small.
      by_cases hsmall : 10 * m + d < span 32
      · simp only [if_pos hsmall, ih hsmall, Option.bind_some]
      · simp only [if_neg hsmall, reduceCtorEq, Option.bind_some, false_iff]
        intro h
        -- What is read so far is too large already, and digits make it no smaller.
        exact hsmall ((Numeral.le_of_valueFrom? (by decide) h).trans_lt w.isLt)

theorem word_eq_ok_iff_of_bare (h : ¬ mark <+: text) {w : Word} :
    word text = .ok w ↔ Spells 10 text w.toNat := by
  rw [word, if_neg (mt isMarked_iff.mp h), decimalWord_eq_ok_iff (by decide),
    ← Numeral.value?_eq_some_iff (by decide), Numeral.value?]

/-- Sixty-four digits spell no number that is too large. -/
theorem lt_of_length_le {body : List Char} {n : Nat} (h : Spells 16 body n)
    (hlength : body.length ≤ 64) : n < 2 ^ 256 := by
  calc n
    _ < 16 ^ body.length := h.lt_pow (by decide)
    _ ≤ 16 ^ 64 := Nat.pow_le_pow_right (by decide) hlength
    _ = 2 ^ 256 := by norm_num

theorem word_eq_ok_iff_of_marked (h : mark <+: text) {w : Word} :
    word text = .ok w ↔ (strip text).length ≤ 64 ∧ Spells 16 (strip text) w.toNat := by
  rw [word, if_pos (isMarked_iff.mpr h), ← Numeral.value?_eq_some_iff (by decide)]
  generalize strip text = body
  by_cases hlength : body.length ≤ 64
  · cases hvalue : Numeral.value? 16 body with
    | none => simp only [hlength, if_true, hvalue, reduceCtorEq, and_false]
    | some n =>
      have hn : n < 2 ^ 256 :=
        lt_of_length_le ((Numeral.value?_eq_some_iff (by decide)).mp hvalue) hlength
      have htoNat : (BitVec.ofNat 256 n).toNat = n := Nat.mod_eq_of_lt hn
      simp only [hlength, if_true, hvalue, true_and, Except.ok.injEq, Option.some.injEq,
        ← BitVec.toNat_inj, htoNat]
  · simp only [hlength, if_false, reduceCtorEq, false_and]

theorem takes_word : Takes word BitVec.toNat WordText where
  accepts text n h := by
    cases h with
    | @hexadecimal body hmark hbody hlength h =>
      obtain rfl := stripped_iff.mp hbody
      have htoNat : (BitVec.ofNat 256 n).toNat = n := Nat.mod_eq_of_lt (lt_of_length_le h hlength)
      exact ⟨_, (word_eq_ok_iff_of_marked hmark).mpr ⟨hlength, htoNat.symm ▸ h⟩, htoNat⟩
    | decimal hmark h hn =>
      have htoNat : (BitVec.ofNat 256 n).toNat = n := Nat.mod_eq_of_lt hn
      exact ⟨_, (word_eq_ok_iff_of_bare hmark).mpr (htoNat.symm ▸ h), htoNat⟩
  sound text w h := by
    by_cases hmark : mark <+: text
    · obtain ⟨hlength, h⟩ := (word_eq_ok_iff_of_marked hmark).mp h
      exact .hexadecimal hmark (stripped_strip text) hlength h
    · exact .decimal hmark ((word_eq_ok_iff_of_bare hmark).mp h) w.isLt

/-! ### Counts -/

/-- A sign is no digit. -/
theorem not_spells_sign {base n : Nat} (hbase : base ≤ 16) : ¬ Spells base ('+' :: text) n := by
  intro h
  obtain ⟨d, hd, hc⟩ := h.digits _ List.mem_cons_self
  have hall : ∀ d < 16, ¬ ('+' = Nat.digitChar d ∨ '+' = (Nat.digitChar d).toUpper) := by decide
  exact hall d (hd.trans_le hbase) hc

/-- A text without its sign, if it has one. -/
def unsigned : List Char → List Char
  | '+' :: rest => rest
  | text => text

theorem countNumeral_iff {base n : Nat} (hbase : base ≤ 16) :
    CountNumeral base text n ↔
      unsigned text ≠ [] ∧ Spells base (unsigned text) n ∧ n < 2 ^ 64 := by
  unfold unsigned
  split
  · -- With a sign in front the digits are behind it.
    next rest =>
    constructor
    · rintro (⟨hne, h, hn⟩ | ⟨hne, h, hn⟩)
      · exact absurd h (not_spells_sign hbase)
      · exact ⟨hne, h, hn⟩
    · rintro ⟨hne, h, hn⟩
      exact .signed hne h hn
  · -- Without a sign the text itself has to be digits.
    next hsign =>
    constructor
    · rintro (⟨hne, h, hn⟩ | ⟨hne, h, hn⟩)
      · exact ⟨hne, h, hn⟩
      · exact absurd rfl (hsign _)
    · rintro ⟨hne, h, hn⟩
      exact .plain hne h hn

/-- A count is read from what is behind the sign, if that is anything at all. -/
theorem count?_eq (base : Nat) (text : List Char) :
    count? base text = if (unsigned text).isEmpty then none
      else (Numeral.value? base (unsigned text)).bind fun n =>
        if n < UInt64.size then some (UInt64.ofNat n) else none := by
  unfold count?
  split
  · next rest =>
    rw [show unsigned ('+' :: rest) = rest from rfl]
    cases hvalue : Numeral.value? base rest with
    | none => simp only [hvalue, Option.bind_none]
    | some n => simp only [hvalue, Option.bind_some]
  · -- No sign, so all of the text is read.
    next hsign =>
    rw [unsigned.eq_2 text hsign]
    cases hvalue : Numeral.value? base text with
    | none => simp only [hvalue, Option.bind_none]
    | some n => simp only [hvalue, Option.bind_some]

theorem count?_eq_some_iff {base : Nat} (hbase : base ≤ 16) {n : UInt64} :
    count? base text = some n ↔ CountNumeral base text n.toNat := by
  have hn : n.toNat < 2 ^ 64 := n.toNat_lt
  rw [countNumeral_iff hbase, ← Numeral.value?_eq_some_iff hbase]
  rw [count?_eq]
  -- There have to be digits, and the number has to fit.
  cases hdigits : unsigned text with
  | nil => exact iff_of_false (fun h => by cases h) fun h => h.1 rfl
  | cons c digits =>
    cases hvalue : Numeral.value? base (c :: digits) with
    | none => exact iff_of_false (fun h => by cases h) fun h => by cases h.2.1
    | some m =>
      simp only [List.isEmpty_cons, Bool.false_eq_true, if_false, Option.bind_some, hn, and_true,
        ne_eq, reduceCtorEq, not_false_eq_true, true_and, Option.some.injEq]
      constructor
      · -- Whether the number fits is what the reader asks.
        intro h
        split at h
        · next hm =>
          rw [← Option.some.inj h]
          exact (UInt64.toNat_ofNat_of_lt' hm).symm
        · cases h
      · rintro rfl
        rw [if_pos (show n.toNat < UInt64.size from hn), UInt64.ofNat_toNat]

theorem countNumeral_toNat {base n : Nat} (h : CountNumeral base text n) :
    ∃ m : UInt64, m.toNat = n := by
  have hn : n < 2 ^ 64 := by cases h <;> assumption
  exact ⟨UInt64.ofNat n, UInt64.toNat_ofNat_of_lt' hn⟩

theorem hexCount_eq_ok_iff {n : UInt64} :
    hexCount text = .ok n ↔ CountNumeral 16 (strip text) n.toNat := by
  rw [← count?_eq_some_iff (by decide), hexCount]
  cases count? 16 (strip text) with
  | none => exact iff_of_false nofun nofun
  | some m => rw [Except.ok.injEq, Option.some.injEq]

theorem takes_hexCount : Takes hexCount UInt64.toNat HexCountText where
  accepts text n h := by
    obtain ⟨body, hbody, h⟩ := h
    obtain ⟨m, rfl⟩ := countNumeral_toNat h
    obtain rfl := stripped_iff.mp hbody
    exact ⟨m, hexCount_eq_ok_iff.mpr h, rfl⟩
  sound text n h := ⟨strip text, stripped_strip text, hexCount_eq_ok_iff.mp h⟩

theorem count_of_marked (h : mark <+: text) : count text = hexCount text :=
  if_pos (isMarked_iff.mpr h)

theorem count_eq_ok_iff_of_bare (h : ¬ mark <+: text) {n : UInt64} :
    count text = .ok n ↔ CountNumeral 10 text n.toNat := by
  rw [← count?_eq_some_iff (by decide), count, if_neg (mt isMarked_iff.mp h)]
  cases count? 10 text with
  | none => exact iff_of_false nofun nofun
  | some m => rw [Except.ok.injEq, Option.some.injEq]

theorem takes_count : Takes count UInt64.toNat CountText where
  accepts text n h := by
    cases h with
    | @hexadecimal body hmark hbody h =>
      rw [count_of_marked hmark]
      exact takes_hexCount.accepts text n ⟨body, hbody, h⟩
    | decimal hmark h =>
      obtain ⟨m, rfl⟩ := countNumeral_toNat h
      exact ⟨m, (count_eq_ok_iff_of_bare hmark).mpr h, rfl⟩
  sound text n h := by
    by_cases hmark : mark <+: text
    · rw [count_of_marked hmark] at h
      exact .hexadecimal hmark (stripped_strip text) (hexCount_eq_ok_iff.mp h)
    · exact .decimal hmark ((count_eq_ok_iff_of_bare hmark).mp h)

/-! ### Byte strings -/

/-- The character with the code of a byte. -/
def charOfByte (b : UInt8) : Char := Char.ofNat b.toNat

theorem digitOfByte_eq_ok_iff {place d : Nat} {b : UInt8} :
    digitOfByte place b = .ok d ↔ SpellsDigit 16 (charOfByte b) d := by
  rw [← Hex.digitValue?_eq_some_iff, digitOfByte, charOfByte]
  cases Hex.digitValue? (Char.ofNat b.toNat) with
  | none => exact iff_of_false nofun nofun
  | some e => rw [Except.ok.injEq, Option.some.injEq]

theorem bytesFrom_eq_ok_iff {place : Nat} {utf8 bytes : Bytes} :
    bytesFrom place utf8 = .ok bytes ↔ BytePairs (utf8.map charOfByte) bytes := by
  fun_induction bytesFrom place utf8 generalizing bytes with
  | case1 place high low rest ih =>
    constructor
    · intro h
      -- The reader goes on only as long as it meets digits.
      cases hhigh : digitOfByte place high with
      | error e => rw [hhigh] at h; cases h
      | ok d =>
        cases hlow : digitOfByte (place + 1) low with
        | error e => rw [hhigh, hlow] at h; cases h
        | ok d' =>
          cases hrest : bytesFrom (place + 2) rest with
          | error e => rw [hhigh, hlow, hrest] at h; cases h
          | ok bytes' =>
            rw [hhigh, hlow, hrest] at h
            cases h
            exact .cons (digitOfByte_eq_ok_iff.mp hhigh) (digitOfByte_eq_ok_iff.mp hlow)
              (ih.mp hrest)
    · -- Digits in pairs are read pair by pair.
      rintro (_ | ⟨hhigh, hlow, h⟩)
      rw [(@digitOfByte_eq_ok_iff place _ _).mpr hhigh,
        (@digitOfByte_eq_ok_iff (place + 1) _ _).mpr hlow, ih.mpr h]
      rfl
  | case2 => exact iff_of_false nofun nofun
  | case3 =>
    constructor
    · rintro ⟨⟩
      exact .nil
    · rintro ⟨⟩
      rfl

/-- The digits of a byte string are an even number of characters, and digits all of them. -/
theorem exists_bytePairs_iff : (∃ bytes, BytePairs text bytes) ↔
    Even text.length ∧ Digits 16 text := by
  constructor
  · rintro ⟨bytes, h⟩
    induction h with
    | nil => exact ⟨Even.zero, nofun⟩
    | cons hhigh hlow _ ih =>
      refine ⟨ih.1.add even_two, ?_⟩
      simp only [Digits, List.forall_mem_cons]
      exact ⟨⟨_, hhigh⟩, ⟨_, hlow⟩, ih.2⟩
  · -- By two characters at a time, since each byte has two digits.
    rintro ⟨heven, hdigits⟩
    induction text using List.twoStepInduction with
    | nil => exact ⟨[], .nil⟩
    | singleton c => exact absurd heven Nat.not_even_one
    | cons_cons c c' text ih _ =>
      simp only [Digits, List.forall_mem_cons] at hdigits
      -- The two digits make a byte, and the rest makes the others.
      obtain ⟨⟨high, hhigh⟩, ⟨low, hlow⟩, hdigits⟩ := hdigits
      have heven' : Even text.length := ((@Nat.even_add text.length 2).mp heven).mpr even_two
      obtain ⟨bytes, h⟩ := ih heven' hdigits
      exact ⟨_, .cons hhigh hlow h⟩

/-- A digit is one byte of a text. -/
theorem lt_of_spellsDigit {c : Char} {d : Nat} (h : SpellsDigit 16 c d) : c.toNat < 128 := by
  have hall : ∀ d < 16, (Nat.digitChar d).toNat < 128 ∧ (Nat.digitChar d).toUpper.toNat < 128 := by
    decide
  obtain ⟨hd, rfl | rfl⟩ := h
  · exact (hall d hd).1
  · exact (hall d hd).2

theorem map_utf8EncodeChar {c : Char} (h : c.toNat < 128) :
    (String.utf8EncodeChar c).map charOfByte = [c] := by
  have hsmall : c.val.toNat ≤ 127 := Nat.le_of_lt_succ h
  have hbyte : (UInt8.ofNat c.val.toNat).toNat = c.toNat := by
    rw [UInt8.toNat_ofNat']
    exact Nat.mod_eq_of_lt (by omega)
  simp only [String.utf8EncodeChar, if_pos hsmall, List.map_cons, List.map_nil, charOfByte, hbyte,
    Char.ofNat_toNat]

/-- The bytes of a character that takes more than one are no digits. -/
theorem exists_utf8EncodeChar {c : Char} (h : 128 ≤ c.toNat) :
    ∃ b ∈ String.utf8EncodeChar c, 128 ≤ b.toNat := by
  have hlarge : ¬ c.val.toNat ≤ 127 := Nat.not_le_of_lt h
  have hcont : ∀ n, 128 ≤ (UInt8.ofNat (n % 64 + 128)).toNat := by
    intro n
    rw [UInt8.toNat_ofNat']
    omega
  unfold String.utf8EncodeChar
  simp only [if_neg hlarge]
  split_ifs
  · exact ⟨_, by simp, hcont c.val.toNat⟩
  · exact ⟨_, by simp, hcont c.val.toNat⟩
  · exact ⟨_, by simp, hcont c.val.toNat⟩

/-- A text whose characters are digits is its own bytes, and so is one whose bytes are. -/
theorem map_utf8 (h : Digits 16 text ∨
      Digits 16 ((text.flatMap String.utf8EncodeChar).map charOfByte)) :
    (text.flatMap String.utf8EncodeChar).map charOfByte = text := by
  have hascii : ∀ c ∈ text, c.toNat < 128 := by
    intro c hc
    rcases h with h | h
    · -- A digit is ASCII, and so is the one byte that it is written with.
      obtain ⟨d, hd⟩ := h c hc
      exact lt_of_spellsDigit hd
    · -- A longer character would have a byte that is no digit.
      by_contra hlarge
      obtain ⟨b, hb, hlarge⟩ := exists_utf8EncodeChar (Nat.le_of_not_lt hlarge)
      obtain ⟨d, hd⟩ := h _ (List.mem_map_of_mem (List.mem_flatMap.mpr ⟨c, hc, hb⟩))
      have hvalid : b.toNat.isValidChar := .inl (b.toNat_lt.trans (by decide))
      have hcode : (charOfByte b).toNat = b.toNat := by
        rw [charOfByte, Char.ofNat, dif_pos hvalid]
        rfl
      have hsmall := lt_of_spellsDigit hd
      omega
  clear h
  -- ASCII characters are one byte each, and that byte is the character.
  induction text with
  | nil => rfl
  | cons c text ih =>
    simp only [List.forall_mem_cons] at hascii
    rw [List.flatMap_cons, List.map_append, map_utf8EncodeChar hascii.1, ih hascii.2,
      List.singleton_append]

theorem bytes_eq_ok_iff {bs : Bytes} : bytes text = .ok bs ↔ BytePairs (strip text) bs := by
  -- The reader goes by bytes and the grammar by characters.
  have hpairs : BytePairs ((strip text).flatMap String.utf8EncodeChar |>.map charOfByte) bs ↔
      BytePairs (strip text) bs := by
    constructor
    · intro h
      rwa [map_utf8 (.inr (exists_bytePairs_iff.mp ⟨_, h⟩).2)] at h
    · intro h
      rwa [map_utf8 (.inl (exists_bytePairs_iff.mp ⟨_, h⟩).2)]
  rw [← hpairs, ← @bytesFrom_eq_ok_iff 0]
  unfold bytes
  by_cases hlength : ((strip text).flatMap String.utf8EncodeChar).length % 2 = 1
  · -- An odd number of bytes is refused, and makes no pairs.
    simp only [hlength, if_true, reduceCtorEq, false_iff]
    intro h
    have heven := (exists_bytePairs_iff.mp ⟨_, bytesFrom_eq_ok_iff.mp h⟩).1
    rw [List.length_map, Nat.even_iff] at heven
    omega
  · simp only [hlength, if_false]

theorem takes_bytes : Takes bytes id BytesText where
  accepts text bs h := by
    obtain ⟨body, hbody, h⟩ := h
    obtain rfl := stripped_iff.mp hbody
    exact ⟨bs, bytes_eq_ok_iff.mpr h, rfl⟩
  sound text bs h := ⟨strip text, stripped_strip text, bytes_eq_ok_iff.mp h⟩

/-! ### Spellings of a number -/

/-- The second letter of the mark is no digit. -/
theorem not_marked_of_digits {base : Nat} (hbase : base ≤ 16) (h : Digits base text) :
    ¬ mark <+: text := by
  rintro ⟨rest, rfl⟩
  obtain ⟨d, hd, hc⟩ := h 'x' (List.mem_cons_of_mem _ List.mem_cons_self)
  have hall : ∀ d < 16, ¬ ('x' = Nat.digitChar d ∨ 'x' = (Nat.digitChar d).toUpper) := by decide
  exact hall d (hd.trans_le hbase) hc

theorem stripped_marked (h : Digits 16 text) : Stripped (Hex.marked text) text where
  marks := ⟨1, rfl⟩
  bare := not_marked_of_digits (by decide) h

theorem mark_starts_marked (text : List Char) : mark <+: Hex.marked text := ⟨text, rfl⟩

section Spelled

variable {body : List Char} {n m : Nat}

theorem wordText_of_decimal (h : Spells 10 text n) : WordText text m ↔ m = n ∧ n < 2 ^ 256 := by
  constructor
  · rintro (⟨hmark, -, -, -⟩ | ⟨-, hm, hsmall⟩)
    · exact absurd hmark (not_marked_of_digits (by decide) h.digits)
    · obtain rfl := hm.unique (by decide) h
      exact ⟨rfl, hsmall⟩
  · rintro ⟨rfl, hsmall⟩
    exact .decimal (not_marked_of_digits (by decide) h.digits) h hsmall

theorem wordText_of_marked (h : Spells 16 body n) :
    WordText (Hex.marked body) m ↔ m = n ∧ body.length ≤ 64 := by
  have hbody := stripped_marked h.digits
  constructor
  · rintro (⟨-, hbody', hlength, hm⟩ | ⟨hmark, -, -⟩)
    · obtain rfl := (stripped_iff.mp hbody').symm.trans (stripped_iff.mp hbody)
      exact ⟨hm.unique (by decide) h, hlength⟩
    · exact absurd (mark_starts_marked body) hmark
  · rintro ⟨rfl, hlength⟩
    exact .hexadecimal (mark_starts_marked body) hbody hlength h

theorem countNumeral_of_spells {base : Nat} (hbase : base ≤ 16) (hne : text ≠ [])
    (h : Spells base text n) : CountNumeral base text m ↔ m = n ∧ n < 2 ^ 64 := by
  constructor
  · rintro (⟨-, hm, hsmall⟩ | ⟨-, -, -⟩)
    · obtain rfl := hm.unique hbase h
      exact ⟨rfl, hsmall⟩
    · exact absurd h (not_spells_sign hbase)
  · rintro ⟨rfl, hsmall⟩
    exact .plain hne h hsmall

theorem countText_of_decimal (h : Spells 10 text n) :
    CountText text m ↔ CountNumeral 10 text m := by
  constructor
  · rintro (⟨hmark, -, -⟩ | ⟨-, hm⟩)
    · exact absurd hmark (not_marked_of_digits (by decide) h.digits)
    · exact hm
  · exact .decimal (not_marked_of_digits (by decide) h.digits)

theorem countText_of_marked (h : Spells 16 body n) :
    CountText (Hex.marked body) m ↔ CountNumeral 16 body m := by
  have hbody := stripped_marked h.digits
  constructor
  · rintro (⟨-, hbody', hm⟩ | ⟨hmark, -⟩)
    · obtain rfl := (stripped_iff.mp hbody').symm.trans (stripped_iff.mp hbody)
      exact hm
    · exact absurd (mark_starts_marked body) hmark
  · exact .hexadecimal (mark_starts_marked body) hbody

end Spelled

theorem spells_decimal (n : Nat) : Spells 10 (Numeral.render 10 n) n :=
  .render (by decide) (by decide) n

theorem spells_hexadecimal (n : Nat) : Spells 16 (Numeral.render 16 n) n :=
  .render (by decide) (by decide) n

/-- The shortest numeral has at most sixty-four digits if the number is that of a word. -/
theorem length_render_le_iff (n : Nat) : (Numeral.render 16 n).length ≤ 64 ↔ n < 2 ^ 256 := by
  have hspan : 16 ^ 64 = 2 ^ 256 := by norm_num
  rw [← hspan]
  exact Nat.length_toDigits_le_iff (by decide) (by decide)

theorem word_decimal (n : Nat) : (word (Numeral.render 10 n)).toOption =
    (word (Hex.marked (Numeral.render 16 n))).toOption := by
  refine takes_word.toOption_congr (fun _ _ => BitVec.eq_of_toNat_eq) fun m => ?_
  rw [wordText_of_decimal (spells_decimal n), wordText_of_marked (spells_hexadecimal n),
    length_render_le_iff]

theorem count_decimal (n : Nat) : (count (Numeral.render 10 n)).toOption =
    (count (Hex.marked (Numeral.render 16 n))).toOption := by
  refine takes_count.toOption_congr (fun _ _ => UInt64.toNat_inj.mp) fun m => ?_
  rw [countText_of_decimal (spells_decimal n), countText_of_marked (spells_hexadecimal n),
    countNumeral_of_spells (by decide) (Numeral.render_ne_nil 10 n) (spells_decimal n),
    countNumeral_of_spells (by decide) (Numeral.render_ne_nil 16 n) (spells_hexadecimal n)]

/-! ### Writers -/

theorem word_ofWord (w : Word) : word (ofWord w).toList = .ok w := by
  rw [takes_word.eq_ok_iff fun _ _ => BitVec.eq_of_toNat_eq, ofWord, Hex.number,
    String.toList_ofList, wordText_of_marked (spells_hexadecimal w.toNat)]
  exact ⟨rfl, (length_render_le_iff w.toNat).mpr w.isLt⟩

theorem hexCount_ofCount (n : UInt64) : hexCount (ofCount n).toList = .ok n := by
  have hspells := spells_hexadecimal n.toNat
  have htext : HexCountText (Hex.marked (Numeral.render 16 n.toNat)) n.toNat :=
    ⟨_, stripped_marked hspells.digits, .plain (Numeral.render_ne_nil 16 _) hspells n.toNat_lt⟩
  rwa [takes_hexCount.eq_ok_iff fun _ _ => UInt64.toNat_inj.mp, ofCount, Hex.number,
    String.toList_ofList]

theorem count_ofCount (n : UInt64) : count (ofCount n).toList = .ok n := by
  have hmark : mark <+: (ofCount n).toList := by
    rw [ofCount, Hex.number, String.toList_ofList]
    exact mark_starts_marked _
  rw [count_of_marked hmark, hexCount_ofCount]

theorem bytePairs_ofBytes (bs : Bytes) : BytePairs (Hex.ofBytes bs) bs := by
  induction bs with
  | nil => exact .nil
  | cons b bs ih =>
    have hb := b.toNat_lt
    have hbyte : UInt8.ofNat (16 * (b.toNat / 16) + b.toNat % 16) = b := by
      rw [Nat.div_add_mod, UInt8.ofNat_toNat]
    have hhigh : SpellsDigit 16 (Nat.digitChar (b.toNat / 16)) (b.toNat / 16) :=
      ⟨by omega, .inl rfl⟩
    have hlow : SpellsDigit 16 (Nat.digitChar (b.toNat % 16)) (b.toNat % 16) :=
      ⟨Nat.mod_lt b.toNat (by decide), .inl rfl⟩
    have hcons := BytePairs.cons hhigh hlow ih
    rwa [hbyte] at hcons

theorem bytes_ofBytes (bs : Bytes) : bytes (ofBytes bs).toList = .ok bs := by
  have hpairs := bytePairs_ofBytes bs
  have hstrip : strip (ofBytes bs).toList = Hex.ofBytes bs := by
    rw [ofBytes, Hex.bytes, String.toList_ofList, ← stripped_iff]
    exact stripped_marked (exists_bytePairs_iff.mp ⟨bs, hpairs⟩).2
  rw [bytes_eq_ok_iff, hstrip]
  exact hpairs

/-- **Quantities are read by their grammars.** Every reader takes the texts of its grammar and no
others, each for what it spells, and what the writers write it takes for what was written. The
decimal and the hexadecimal numeral of a number are read alike, also where both are refused. -/
theorem read_by_grammar :
    (Takes word BitVec.toNat WordText ∧ Takes count UInt64.toNat CountText ∧
      Takes hexCount UInt64.toNat HexCountText ∧ Takes bytes id BytesText) ∧
    (∀ text, (∃ bs, bytes text = .ok bs) ↔
      ∃ body, Stripped text body ∧ Even body.length ∧ Digits 16 body) ∧
    ((∀ w, word (ofWord w).toList = .ok w) ∧ (∀ n, count (ofCount n).toList = .ok n) ∧
      (∀ n, hexCount (ofCount n).toList = .ok n) ∧ ∀ bs, bytes (ofBytes bs).toList = .ok bs) ∧
    ∀ n, (word (Numeral.render 10 n)).toOption =
        (word (Hex.marked (Numeral.render 16 n))).toOption ∧
      (count (Numeral.render 10 n)).toOption =
        (count (Hex.marked (Numeral.render 16 n))).toOption := by
  refine ⟨⟨takes_word, takes_count, takes_hexCount, takes_bytes⟩, fun text => ?_,
    ⟨word_ofWord, count_ofCount, hexCount_ofCount, bytes_ofBytes⟩,
    fun n => ⟨word_decimal n, count_decimal n⟩⟩
  -- Bytes are read from a body of pairs of digits, marked or not.
  constructor
  · rintro ⟨bs, h⟩
    exact ⟨strip text, stripped_strip text, exists_bytePairs_iff.mp ⟨bs, bytes_eq_ok_iff.mp h⟩⟩
  · rintro ⟨body, hbody, h⟩
    obtain rfl := stripped_iff.mp hbody
    obtain ⟨bs, hpairs⟩ := exists_bytePairs_iff.mpr h
    exact ⟨bs, bytes_eq_ok_iff.mpr hpairs⟩

-- A word may have no digits, a count may not, and a sign is for counts only.
example : (word "0x".toList).toOption = some 0 ∧ (count "0x".toList).toOption = none ∧
    (count "+0012".toList).toOption = some 12 ∧ (word "+12".toList).toOption = none := by decide

end Quantity

end MessageCall
