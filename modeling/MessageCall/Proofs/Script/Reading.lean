import MessageCall.Script.Instruction

/-!
# Reading code makes progress

Reading an instruction takes its tag and then its operands, and gives back what is left. A tag is a
byte, and no operand gives back more than it got, so fewer bytes are left behind every instruction
than there were before it (`Script.readUpTo_lt`). That holds of any bytes whatever: where they make
no sense the reader stops.

So a code has at most as many instructions as bytes, and the budget of `Script.decodeUpTo` is only
there to make its recursion structural: with the length of the code it is never used up, and a
larger one reads the same (`Script.decodeUpTo_of_le`).
-/

namespace MessageCall

namespace Instruction

/-- Reading goes on only if reading the first part has succeeded. -/
theorem bind_ok {α β : Type} {x : Except ExecutionFault α} {f : α → Except ExecutionFault β} {b : β}
    (h : x >>= f = .ok b) : ∃ a, x = .ok a ∧ f a = .ok b := by
  cases x with
  | error fault => cases h
  | ok a => exact ⟨a, rfl, h⟩

variable {width : Nat} {code rest : Bytes}

/-! ### Operands give back no more than they got -/

theorem take?_length {bytes : Bytes} (h : take? width code = .ok (bytes, rest)) :
    rest.length ≤ code.length := by
  unfold take? at h
  split at h
  · cases h
    rw [List.length_drop]
    exact Nat.sub_le _ _
  · cases h

theorem number?_length {n : Nat} (h : number? width code = .ok (n, rest)) :
    rest.length ≤ code.length := by
  obtain ⟨⟨bytes, rest⟩, htake, h⟩ := bind_ok h
  cases h
  exact take?_length htake

theorem data?_length {data : Bytes} (h : data? code = .ok (data, rest)) :
    rest.length ≤ code.length := by
  obtain ⟨⟨length, behind⟩, hlength, h⟩ := bind_ok h
  exact Nat.le_trans (take?_length h) (number?_length hlength)

theorem callOperands?_length {operands : Address × Gas × Word}
    (h : callOperands? code = .ok (operands, rest)) : rest.length ≤ code.length := by
  obtain ⟨⟨target, behind⟩, htarget, h⟩ := bind_ok h
  obtain ⟨⟨gas, behind'⟩, hgas, h⟩ := bind_ok h
  obtain ⟨⟨value, behind''⟩, hvalue, h⟩ := bind_ok h
  cases h
  calc
    rest.length ≤ behind'.length := number?_length hvalue
    _ ≤ behind.length := number?_length hgas
    _ ≤ code.length := number?_length htarget

/-- **No operand gives back more code** than there was behind its tag. -/
theorem operands?_length {tag : UInt8} {i : Instruction}
    (h : operands? tag code = .ok (i, rest)) : rest.length ≤ code.length := by
  unfold operands? at h
  split at h
  -- The tags in order. Most have one operand or none.
  · cases h
    exact Nat.le_refl _
  · -- Data has its length in front, and everything else a fixed width.
    obtain ⟨⟨data, behind⟩, hdata, h⟩ := bind_ok h
    cases h
    exact data?_length hdata
  · obtain ⟨⟨count, behind⟩, hcount, h⟩ := bind_ok h
    cases h
    exact number?_length hcount
  · obtain ⟨⟨gas, behind⟩, hgas, h⟩ := bind_ok h
    cases h
    exact number?_length hgas
  · obtain ⟨⟨key, behind⟩, hkey, h⟩ := bind_ok h
    obtain ⟨⟨value, behind'⟩, hvalue, h⟩ := bind_ok h
    cases h
    exact Nat.le_trans (number?_length hvalue) (number?_length hkey)
  · obtain ⟨⟨operands, behind⟩, hoperands, h⟩ := bind_ok h
    cases h
    exact callOperands?_length hoperands
  · obtain ⟨⟨operands, behind⟩, hoperands, h⟩ := bind_ok h
    cases h
    exact callOperands?_length hoperands
  · -- A target and an amount of gas.
    obtain ⟨⟨target, behind⟩, htarget, h⟩ := bind_ok h
    obtain ⟨⟨gas, behind'⟩, hgas, h⟩ := bind_ok h
    cases h
    exact Nat.le_trans (number?_length hgas) (number?_length htarget)
  · -- Gas, value and code of a creation.
    obtain ⟨⟨gas, behind⟩, hgas, h⟩ := bind_ok h
    obtain ⟨⟨value, behind'⟩, hvalue, h⟩ := bind_ok h
    obtain ⟨⟨initCode, behind''⟩, hinitCode, h⟩ := bind_ok h
    cases h
    calc
      rest.length ≤ behind'.length := data?_length hinitCode
      _ ≤ behind.length := number?_length hvalue
      _ ≤ code.length := number?_length hgas
  · -- Instructions without operands.
    cases h
    exact Nat.le_refl _
  · cases h
    exact Nat.le_refl _
  · cases h
    exact Nat.le_refl _
  · cases h
    exact Nat.le_refl _
  · cases h
    exact Nat.le_refl _
  · -- No other tag is read.
    cases h

end Instruction

namespace Script

/-- The instructions that are read from a code, each with **the number of bytes that are left to
read** behind it. -/
def readUpTo : (count : Nat) → Bytes → List (Instruction × Nat)
  | _, [] => []
  | 0, _ :: _ => []
  | count + 1, tag :: rest =>
    match Instruction.operands? tag rest with
    | .error _ => []
    | .ok (instruction, rest) => (instruction, rest.length) :: readUpTo count rest

/-- The instructions of a code with the bytes left to read. -/
def reading (code : Bytes) : List (Instruction × Nat) := readUpTo code.length code

/-- Reading gives the instructions that decoding gives. -/
theorem map_fst_readUpTo (count : Nat) (code : Bytes) :
    (readUpTo count code).map Prod.fst = (decodeUpTo count code).1 := by
  induction count generalizing code with
  | zero => cases code <;> rfl
  | succ count ih =>
    cases code with
    | nil => rfl
    | cons tag rest =>
      unfold readUpTo decodeUpTo
      rcases Instruction.operands? tag rest with fault | ⟨i, behind⟩
      · rfl
      · exact congrArg (i :: ·) (ih behind)

/-- Fewer bytes are left behind an instruction than there are in the code. -/
theorem readUpTo_lt {count : Nat} {code : Bytes} :
    ∀ x ∈ readUpTo count code, x.2 < code.length := by
  induction count generalizing code with
  | zero => cases code <;> exact fun _ hx => absurd hx List.not_mem_nil
  | succ count ih =>
    cases code with
    | nil => exact fun _ hx => absurd hx List.not_mem_nil
    | cons tag rest =>
      intro x hx
      unfold readUpTo at hx
      rcases hread : Instruction.operands? tag rest with fault | ⟨i, behind⟩
      · rw [hread] at hx
        exact absurd hx List.not_mem_nil
      · rw [hread] at hx
        have hbehind : behind.length ≤ rest.length := Instruction.operands?_length hread
        -- Behind the first instruction, and the later ones further on.
        have hx : x.2 ≤ behind.length := by
          rcases List.mem_cons.mp hx with rfl | hx
          · exact Nat.le_refl _
          · exact Nat.le_of_lt (ih x hx)
        exact Nat.lt_succ_of_le (Nat.le_trans hx hbehind)

/-- **Reading always advances**: behind each instruction fewer bytes are left than behind the one
before. -/
theorem readUpTo_pairwise (count : Nat) (code : Bytes) :
    (readUpTo count code).Pairwise fun x y => y.2 < x.2 := by
  induction count generalizing code with
  | zero => cases code <;> exact .nil
  | succ count ih =>
    cases code with
    | nil => exact .nil
    | cons tag rest =>
      unfold readUpTo
      rcases Instruction.operands? tag rest with fault | ⟨i, behind⟩
      · exact .nil
      · exact .cons readUpTo_lt (ih behind)

/-- **A code has at most as many instructions as bytes**, however many may be read. -/
theorem length_decodeUpTo_le (count : Nat) (code : Bytes) :
    (decodeUpTo count code).1.length ≤ code.length := by
  induction count generalizing code with
  | zero => cases code <;> exact Nat.zero_le _
  | succ count ih =>
    cases code with
    | nil => exact Nat.zero_le _
    | cons tag rest =>
      unfold decodeUpTo
      rcases hread : Instruction.operands? tag rest with fault | ⟨i, behind⟩
      · exact Nat.zero_le _
      · have hbehind : behind.length ≤ rest.length := Instruction.operands?_length hread
        exact Nat.succ_le_succ (Nat.le_trans (ih behind) hbehind)

/-- With as many steps as there are bytes, reading is not cut off. -/
theorem decodeUpTo_congr {count count' : Nat} {code : Bytes} (h : code.length ≤ count)
    (h' : code.length ≤ count') : decodeUpTo count code = decodeUpTo count' code := by
  induction count generalizing count' code with
  | zero =>
    obtain rfl := List.eq_nil_of_length_eq_zero (Nat.le_zero.mp h)
    cases count' <;> rfl
  | succ count ih =>
    cases code with
    | nil => cases count' <;> rfl
    | cons tag rest =>
      cases count' with
      | zero => exact absurd h' (Nat.not_succ_le_zero _)
      | succ count' =>
        -- Reading one instruction takes one unit of either count, and at least one byte.
        unfold decodeUpTo
        rcases hread : Instruction.operands? tag rest with fault | ⟨i, behind⟩
        · rfl
        · have hbehind : behind.length ≤ rest.length := Instruction.operands?_length hread
          have hsame : decodeUpTo count behind = decodeUpTo count' behind :=
            ih (Nat.le_trans hbehind (Nat.le_of_succ_le_succ h))
              (Nat.le_trans hbehind (Nat.le_of_succ_le_succ h'))
          simp only [hsame]

/-- A larger budget reads the same. -/
theorem decodeUpTo_of_le {count : Nat} {code : Bytes} (h : code.length ≤ count) :
    decodeUpTo count code = decode code :=
  decodeUpTo_congr h (Nat.le_refl _)

/-- A call without its operands, behind an instruction that can be read. -/
example : reading [0x09, 0x0a, 0x05, 0x01] = [(.recurse, 3), (.observe, 2)] ∧
    decode [0x09, 0x0a, 0x05, 0x01] =
      ([.recurse, .observe], some (.custom "truncated script")) := by
  decide +kernel

end Script

end MessageCall
