/-!
# Words, addresses and byte strings

The numbers of an account ledger come in three fixed widths. Balances, values and storage
contents are `Word`s of 256 bits, digests and storage keys are `Hash`es of 256 bits, and an
account is named by an `Address` of 160 bits. Gas, nonces and block numbers are `UInt64`s.

Outside the ledger all of them travel as byte strings, most significant byte first:
`bigEndian` writes a number at a fixed width and `ofBigEndian` reads one back. The two are
inverse to each other (`ofBigEndian_bigEndian`, `bigEndian_ofBigEndian`), so a fixed-width
field never loses or gains information on the way.

Arithmetic that may not wrap is spelled with a question mark: `Word.add?`, `Word.sub?` and
`succ?` answer `none` where the exact result does not fit.
-/

namespace MessageCall

/-- A byte string. -/
abbrev Bytes := List UInt8

/-- A 256-bit number: a balance, a transferred value, the content of a storage slot. -/
abbrev Word := BitVec 256

/-- A 256-bit name: a digest of code or of a block, or the key of a storage slot. -/
abbrev Hash := BitVec 256

/-- The name of an account. -/
abbrev Address := BitVec 160

/-- An amount of gas. -/
abbrev Gas := UInt64

/-! ### Big-endian byte strings -/

/-- How many byte strings of a width there are. -/
def span : (width : Nat) → Nat
  | 0 => 1
  | width + 1 => 256 * span width

/-- The `width` low bytes of `n`, most significant first. -/
def bigEndian : (width : Nat) → (n : Nat) → Bytes
  | 0, _ => []
  | width + 1, n => bigEndian width (n / 256) ++ [UInt8.ofNat n]

/-- The number a byte string spells, most significant byte first. -/
def ofBigEndian (bytes : Bytes) : Nat :=
  bytes.foldl (fun n b => 256 * n + b.toNat) 0

@[simp] theorem length_bigEndian (width n : Nat) : (bigEndian width n).length = width := by
  induction width generalizing n with
  | zero => rfl
  | succ width ih => simp [bigEndian, ih]

@[simp] theorem ofBigEndian_nil : ofBigEndian [] = 0 := rfl

@[simp] theorem ofBigEndian_concat (bytes : Bytes) (b : UInt8) :
    ofBigEndian (bytes ++ [b]) = 256 * ofBigEndian bytes + b.toNat := by
  simp [ofBigEndian]

/-- Reading a written number gives it back, less what does not fit in the width. -/
theorem ofBigEndian_bigEndian (width n : Nat) :
    ofBigEndian (bigEndian width n) = n % span width := by
  induction width generalizing n with
  | zero => simp [bigEndian, span, Nat.mod_one]
  | succ width ih =>
    simp only [bigEndian, ofBigEndian_concat, ih, UInt8.toNat_ofNat']
    rw [span, Nat.mod_mul]
    omega

/-- Writing the number a byte string spells, at the string's own width, gives the string. -/
theorem bigEndian_ofBigEndian (bytes : Bytes) :
    bigEndian bytes.length (ofBigEndian bytes) = bytes := by
  suffices h : ∀ rev : Bytes, bigEndian rev.length (ofBigEndian rev.reverse) = rev.reverse by
    simpa using h bytes.reverse
  intro rev
  induction rev with
  | nil => rfl
  | cons b rev ih =>
    have hb := b.toNat_lt
    have hdiv : (256 * ofBigEndian rev.reverse + b.toNat) / 256 = ofBigEndian rev.reverse := by
      omega
    have hbyte : UInt8.ofNat (256 * ofBigEndian rev.reverse + b.toNat) = b := by
      apply UInt8.toNat_inj.mp
      rw [UInt8.toNat_ofNat']
      omega
    simp only [List.length_cons, List.reverse_cons, bigEndian, ofBigEndian_concat, hdiv, ih, hbyte]

/-- The thirty-two bytes of a hash or word. -/
def wordBytes (w : Word) : Bytes := bigEndian 32 w.toNat

/-- The twenty bytes of an address. -/
def addressBytes (a : Address) : Bytes := bigEndian 20 a.toNat

/-! ### Arithmetic that reports when it does not fit -/

/-- The sum of two words, if it is a word. -/
def Word.add? (a b : Word) : Option Word :=
  if BitVec.uaddOverflow a b then none else some (a + b)

/-- The difference of two words, if it is not negative. -/
def Word.sub? (a b : Word) : Option Word :=
  if BitVec.usubOverflow a b then none else some (a - b)

/-- The next count, unless `n` is the largest one. -/
def succ? (n : UInt64) : Option UInt64 :=
  if n.toNat + 1 < UInt64.size then some (n + 1) else none

/-- What is left of `limit` once `used` is taken off, and zero if `used` is more. -/
def Gas.left (limit used : Gas) : Gas :=
  if used ≤ limit then limit - used else 0

theorem Gas.toNat_left (limit used : Gas) :
    (Gas.left limit used).toNat = limit.toNat - used.toNat := by
  unfold Gas.left
  split
  · rename_i h
    exact UInt64.toNat_sub_of_le _ _ h
  · rename_i h
    have := UInt64.not_le.mp h
    rw [UInt64.lt_iff_toNat_lt] at this
    simp
    omega

theorem Gas.left_zero (limit : Gas) : Gas.left limit 0 = limit := by
  apply UInt64.toNat_inj.mp
  rw [toNat_left]
  exact Nat.sub_zero _

theorem Gas.left_self (gas : Gas) : Gas.left gas gas = 0 := by
  apply UInt64.toNat_inj.mp
  rw [toNat_left]
  exact Nat.sub_self _

end MessageCall
