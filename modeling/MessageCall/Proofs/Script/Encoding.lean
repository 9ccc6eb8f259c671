import MessageCall.Proofs.Script.Reading
import Mathlib.Algebra.Group.Nat.Defs

/-!
# Writing and reading code are inverse

A reader of operands `Restores` a writer if it takes off exactly what the writer puts in front of
any other code, and gives back the rest. That is so of the numbers, which have a fixed width, and of
the byte strings, whose lengths go before them, so every instruction is read back from its bytes
(`Instruction.operands?_encode`) and nothing else is (`Instruction.encode_operands?`). The length of
a byte string has four bytes and the writer cuts off what does not fit, so instructions with longer
byte strings are out of the reach of a reader. All others fit (`Instruction.Fits`).

The code of fitting instructions is read back as those instructions, and code that is read to its
end is the code of what was read. Any other code is read up to a place where no fitting instruction
begins, and the fault says whether the tag there is to blame or the length of the code
(`Script.decode_inverse`).
-/

namespace MessageCall

namespace Instruction

/-! ### Operands -/

/-- The fault of an operand that the code is too short for. -/
def truncated : ExecutionFault := .custom "truncated script"

/-- Reading fails for want of code only. -/
def Lacking {α : Type} (x : Except ExecutionFault α) : Prop :=
  ∀ ⦃fault⦄, x = .error fault → fault = truncated

theorem Lacking.ok {α : Type} (a : α) : Lacking (.ok a) := fun _ h => by cases h

theorem Lacking.bind {α β : Type} {x : Except ExecutionFault α}
    {f : α → Except ExecutionFault β} (hx : Lacking x) (hf : ∀ a, Lacking (f a)) :
    Lacking (x >>= f) := by
  intro fault h
  cases x with
  | error fault' =>
    cases h
    exact hx rfl
  | ok a => exact hf a h

/-- The reader takes off what the writer puts in front, for the values that `fits` holds of and for
no others, and it fails for want of code only. -/
structure Restores {α : Type} (fits : α → Prop) (write : α → Bytes)
    (read : Bytes → Except ExecutionFault (α × Bytes)) : Prop where
  reads : ∀ {a : α} (rest : Bytes), fits a → read (write a ++ rest) = .ok (a, rest)
  written : ∀ {code rest : Bytes} {a : α}, read code = .ok (a, rest) →
    fits a ∧ code = write a ++ rest
  lacking : ∀ code, Lacking (read code)

theorem take?_restores (width : Nat) :
    Restores (fun bytes : Bytes => bytes.length = width) id (take? width) where
  reads {bytes} rest h := by
    have hlength : width ≤ (bytes ++ rest).length := by
      rw [List.length_append, h]
      exact Nat.le_add_right _ _
    rw [id, take?, if_pos hlength, ← h, List.take_left, List.drop_left]
  -- Taking gives the width back, and leaves what is behind.
  written {code rest bytes} h := by
    unfold take? at h
    split at h
    · next hwidth =>
      cases h
      exact ⟨List.length_take_of_le hwidth, (List.take_append_drop _ _).symm⟩
    · cases h
  lacking code fault h := by
    unfold take? at h
    split at h
    · cases h
    · cases h
      rfl

theorem ofBigEndian_lt (bytes : Bytes) : ofBigEndian bytes < span bytes.length := by
  have hread := ofBigEndian_bigEndian bytes.length (ofBigEndian bytes)
  rw [bigEndian_ofBigEndian] at hread
  rw [hread]
  refine Nat.mod_lt _ ?_
  induction bytes.length with
  | zero => exact Nat.one_pos
  | succ width ih => exact Nat.mul_pos (by decide) ih

theorem number?_restores (width : Nat) :
    Restores (· < span width) (bigEndian width) (number? width) where
  reads {n} rest h := by
    have htake : take? width (bigEndian width n ++ rest) = .ok (bigEndian width n, rest) :=
      (take?_restores width).reads rest (length_bigEndian width n)
    have hn : ofBigEndian (bigEndian width n) = n := by
      rw [ofBigEndian_bigEndian, Nat.mod_eq_of_lt h]
    rw [number?, htake]
    exact congrArg (fun n => Except.ok (n, rest)) hn
  written {code rest n} h := by
    obtain ⟨⟨bytes, behind⟩, htake, h⟩ := bind_ok h
    cases h
    obtain ⟨rfl, rfl⟩ := (take?_restores width).written htake
    exact ⟨ofBigEndian_lt bytes, by rw [bigEndian_ofBigEndian]; rfl⟩
  lacking code := ((take?_restores width).lacking code).bind fun _ => .ok _

/-- A byte string whose length can be written. -/
def Short (data : Bytes) : Prop := data.length < UInt32.size

instance (data : Bytes) : Decidable (Short data) := inferInstanceAs (Decidable (_ < _))

/-- The length of a short byte string is not cut off. -/
theorem encodeData_of_short {data : Bytes} (h : Short data) :
    encodeData data = bigEndian 4 data.length ++ data := by
  rw [encodeData, Nat.min_eq_left (Nat.le_sub_one_of_lt h)]

theorem data?_restores : Restores Short encodeData data? where
  reads {data} rest h := by
    have hlength : number? 4 (bigEndian 4 data.length ++ (data ++ rest)) =
        .ok (data.length, data ++ rest) := (number?_restores 4).reads _ h
    have htake : take? data.length (data ++ rest) = .ok (data, rest) :=
      (take?_restores data.length).reads rest rfl
    rw [encodeData_of_short h, List.append_assoc, data?, hlength]
    exact htake
  written {code rest data} h := by
    obtain ⟨⟨length, behind⟩, hlength, htake⟩ := bind_ok h
    obtain ⟨hlt, rfl⟩ := (number?_restores 4).written hlength
    obtain ⟨rfl, rfl⟩ := (take?_restores length).written htake
    have hshort : Short data := hlt
    rw [encodeData_of_short hshort, List.append_assoc]
    exact ⟨hshort, rfl⟩
  lacking code :=
    ((number?_restores 4).lacking code).bind fun _ => (take?_restores _).lacking _

/-! Numbers of the widths that instructions have. -/

theorem span_eq (width : Nat) : span width = 2 ^ (8 * width) := by
  induction width with
  | zero => rfl
  | succ width ih =>
    rw [span, ih, Nat.mul_succ, Nat.pow_add, Nat.mul_comm]

theorem number?_append {width bits n : Nat} (hbits : 8 * width = bits) (hn : n < 2 ^ bits)
    (rest : Bytes) : number? width (bigEndian width n ++ rest) = .ok (n, rest) := by
  subst hbits
  rw [← span_eq] at hn
  exact (number?_restores width).reads rest hn

theorem number?_address (a : Address) (rest : Bytes) :
    number? 20 (addressBytes a ++ rest) = .ok (a.toNat, rest) :=
  number?_append rfl a.isLt rest

theorem number?_word (w : Word) (rest : Bytes) :
    number? 32 (wordBytes w ++ rest) = .ok (w.toNat, rest) :=
  number?_append rfl w.isLt rest

theorem number?_gas (gas : Gas) (rest : Bytes) :
    number? 8 (bigEndian 8 gas.toNat ++ rest) = .ok (gas.toNat, rest) :=
  number?_append rfl gas.toNat_lt rest

theorem number?_count (count : UInt32) (rest : Bytes) :
    number? 4 (bigEndian 4 count.toNat ++ rest) = .ok (count.toNat, rest) :=
  number?_append rfl count.toNat_lt rest

variable {code rest : Bytes} {n : Nat}

/-- A number that was read is one of the width's. -/
theorem number?_written {width bits : Nat} (hbits : 8 * width = bits)
    (h : number? width code = .ok (n, rest)) : code = bigEndian width (n % 2 ^ bits) ++ rest := by
  subst hbits
  obtain ⟨hn, rfl⟩ := (number?_restores width).written h
  rw [span_eq] at hn
  rw [Nat.mod_eq_of_lt hn]

theorem number?_address_eq (h : number? 20 code = .ok (n, rest)) :
    code = addressBytes (BitVec.ofNat 160 n) ++ rest :=
  number?_written rfl h

theorem number?_word_eq (h : number? 32 code = .ok (n, rest)) :
    code = wordBytes (BitVec.ofNat 256 n) ++ rest :=
  number?_written rfl h

theorem number?_gas_eq (h : number? 8 code = .ok (n, rest)) :
    code = bigEndian 8 (UInt64.ofNat n).toNat ++ rest :=
  number?_written rfl h

theorem number?_count_eq (h : number? 4 code = .ok (n, rest)) :
    code = bigEndian 4 (UInt32.ofNat n).toNat ++ rest :=
  number?_written rfl h

/-- The operands of a call as they are written. -/
def callOperands (operands : Address × Gas × Word) : Bytes :=
  addressBytes operands.1 ++ bigEndian 8 operands.2.1.toNat ++ wordBytes operands.2.2

theorem callOperands?_restores : Restores (fun _ => True) callOperands callOperands? where
  reads {operands} rest _ := by
    obtain ⟨target, gas, value⟩ := operands
    simp only [callOperands, callOperands?, List.append_assoc, number?_address, number?_gas,
      number?_word, Except.bind, bind, pure, Except.pure, BitVec.ofNat_toNat, BitVec.setWidth_eq,
      UInt64.ofNat_toNat]
  written {code rest operands} h := by
    obtain ⟨⟨target, behind⟩, htarget, h⟩ := bind_ok h
    obtain ⟨⟨gas, behind'⟩, hgas, h⟩ := bind_ok h
    obtain ⟨⟨value, behind''⟩, hvalue, h⟩ := bind_ok h
    cases h
    rw [number?_address_eq htarget, number?_gas_eq hgas, number?_word_eq hvalue]
    simp only [callOperands, List.append_assoc, and_self]
  lacking code :=
    ((number?_restores 20).lacking code).bind fun _ =>
      ((number?_restores 8).lacking _).bind fun _ =>
        ((number?_restores 32).lacking _).bind fun _ => .ok _

/-! ### Instructions -/

/-- The instruction's byte string is short, if it has one. -/
def Fits : Instruction → Prop
  | output data => Short data
  | create _ _ initCode => Short initCode
  | _ => True

instance (i : Instruction) : Decidable i.Fits := by
  cases i <;> unfold Fits <;> infer_instance

/-- Every instruction begins with a tag. -/
theorem exists_encode (i : Instruction) : ∃ tag operands, i.encode = tag :: operands := by
  cases i <;> exact ⟨_, _, rfl⟩

/-- **What is written is read back**, whatever comes behind it. -/
theorem operands?_encode {i : Instruction} {tag : UInt8} {operands : Bytes} (hi : i.Fits)
    (h : i.encode = tag :: operands) (rest : Bytes) :
    operands? tag (operands ++ rest) = .ok (i, rest) := by
  -- By the instruction: the tag is its own, and its operands are what `operands?` reads behind it.
  cases i <;> simp only [encode, List.cons_append, List.cons.injEq] at h <;> obtain ⟨rfl, rfl⟩ := h
  case stop | recurse | observe | cancel | revert | invalid => rfl
  case output data =>
    simp only [operands?, data?_restores.reads rest hi]
    rfl
  case outputZeros count =>
    simp only [operands?, number?_count]
    exact congrArg (fun count => Except.ok (outputZeros count, rest)) UInt32.ofNat_toNat
  case burn gas =>
    simp only [operands?, number?_gas]
    exact congrArg (fun gas => Except.ok (burn gas, rest)) UInt64.ofNat_toNat
  case store key value =>
    simp only [operands?, List.append_assoc, number?_word, bind, Except.bind, pure, Except.pure,
      BitVec.ofNat_toNat, BitVec.setWidth_eq]
  -- A call and a call to code have the same operands.
  case call target gas value =>
    have hread := callOperands?_restores.reads (a := (target, gas, value)) rest trivial
    rw [callOperands] at hread
    simp only [operands?, hread]
    rfl
  case callCode target gas value =>
    have hread := callOperands?_restores.reads (a := (target, gas, value)) rest trivial
    rw [callOperands] at hread
    simp only [operands?, hread]
    rfl
  case delegateCall target gas =>
    simp only [operands?, List.append_assoc, number?_address, number?_gas, bind, Except.bind, pure,
      Except.pure, BitVec.ofNat_toNat, BitVec.setWidth_eq, UInt64.ofNat_toNat]
  case create gas value initCode =>
    have hinitCode := data?_restores.reads rest hi
    simp only [operands?, List.append_assoc, number?_gas, number?_word, hinitCode, bind,
      Except.bind, pure, Except.pure, BitVec.ofNat_toNat, BitVec.setWidth_eq, UInt64.ofNat_toNat]

/-- **What is read was written.** The tag and its operands are the bytes of the instruction, and
the code behind it is what is left. -/
theorem encode_operands? {tag : UInt8} {code rest : Bytes} {i : Instruction}
    (h : operands? tag code = .ok (i, rest)) : i.Fits ∧ tag :: code = i.encode ++ rest := by
  unfold operands? at h
  split at h
  -- The tags in order.
  · cases h
    exact ⟨trivial, rfl⟩
  · obtain ⟨⟨data, behind⟩, hdata, h⟩ := bind_ok h
    cases h
    obtain ⟨hshort, rfl⟩ := data?_restores.written hdata
    exact ⟨hshort, rfl⟩
  · obtain ⟨⟨count, behind⟩, hcount, h⟩ := bind_ok h
    cases h
    exact ⟨trivial, congrArg (0x02 :: ·) (number?_count_eq hcount)⟩
  · obtain ⟨⟨gas, behind⟩, hgas, h⟩ := bind_ok h
    cases h
    exact ⟨trivial, congrArg (0x03 :: ·) (number?_gas_eq hgas)⟩
  · -- Two numbers, one behind the other.
    obtain ⟨⟨key, behind⟩, hkey, h⟩ := bind_ok h
    obtain ⟨⟨value, behind'⟩, hvalue, h⟩ := bind_ok h
    cases h
    rw [number?_word_eq hkey, number?_word_eq hvalue]
    exact ⟨trivial, congrArg (0x04 :: ·) (List.append_assoc _ _ _).symm⟩
  · -- The target, the gas and the value, as for every call.
    obtain ⟨⟨operands, behind⟩, hoperands, h⟩ := bind_ok h
    cases h
    exact ⟨trivial, congrArg (0x05 :: ·) (callOperands?_restores.written hoperands).2⟩
  · obtain ⟨⟨operands, behind⟩, hoperands, h⟩ := bind_ok h
    cases h
    exact ⟨trivial, congrArg (0x06 :: ·) (callOperands?_restores.written hoperands).2⟩
  · obtain ⟨⟨target, behind⟩, htarget, h⟩ := bind_ok h
    obtain ⟨⟨gas, behind'⟩, hgas, h⟩ := bind_ok h
    cases h
    rw [number?_address_eq htarget, number?_gas_eq hgas]
    exact ⟨trivial, congrArg (0x07 :: ·) (List.append_assoc _ _ _).symm⟩
  · -- The code of the new account comes last, with its length in front.
    obtain ⟨⟨gas, behind⟩, hgas, h⟩ := bind_ok h
    obtain ⟨⟨value, behind'⟩, hvalue, h⟩ := bind_ok h
    obtain ⟨⟨initCode, behind''⟩, hinitCode, h⟩ := bind_ok h
    cases h
    obtain ⟨hshort, rfl⟩ := data?_restores.written hinitCode
    rw [number?_gas_eq hgas, number?_word_eq hvalue]
    refine ⟨hshort, ?_⟩
    simp only [encode, List.cons_append, List.append_assoc]
  · cases h
    exact ⟨trivial, rfl⟩
  · cases h
    exact ⟨trivial, rfl⟩
  · cases h
    exact ⟨trivial, rfl⟩
  · cases h
    exact ⟨trivial, rfl⟩
  · cases h
    exact ⟨trivial, rfl⟩
  · -- There is no instruction under any other tag.
    cases h

/-- A tag that instructions begin with. -/
def IsTag (tag : UInt8) : Prop := ∃ i : Instruction, i.encode.head? = some tag

/-- What makes reading stop at a tag. -/
inductive Blames (tag : UInt8) : ExecutionFault → Prop
  | unknown (h : ¬ IsTag tag) : Blames tag (.invalidOpcode tag)
  | short (h : IsTag tag) : Blames tag truncated

/-- **Reading fails** at a tag that is none, and at a tag without all of its operands. -/
theorem operands?_error {tag : UInt8} {code : Bytes} {fault : ExecutionFault}
    (h : operands? tag code = .error fault) : Blames tag fault := by
  have lacks : ∀ {x : Except ExecutionFault (Instruction × Bytes)}, x = .error fault →
      Lacking x → ∀ i : Instruction, i.encode.head? = some tag → Blames tag fault := by
    rintro x hx hlacking i hi
    rw [hlacking hx]
    exact .short ⟨i, hi⟩
  unfold operands? at h
  split at h
  -- The tags in order. An instruction without operands can always be read.
  · cases h
  · exact lacks h ((data?_restores.lacking code).bind fun _ => .ok _) (output []) rfl
  · exact lacks h (((number?_restores 4).lacking code).bind fun _ => .ok _) (outputZeros 0) rfl
  · exact lacks h (((number?_restores 8).lacking code).bind fun _ => .ok _) (burn 0) rfl
  · exact lacks h (((number?_restores 32).lacking code).bind fun _ =>
      ((number?_restores 32).lacking _).bind fun _ => .ok _) (store 0 0) rfl
  · exact lacks h ((callOperands?_restores.lacking code).bind fun _ => .ok _) (call 0 0 0) rfl
  · exact lacks h ((callOperands?_restores.lacking code).bind fun _ => .ok _) (callCode 0 0 0) rfl
  · exact lacks h (((number?_restores 20).lacking code).bind fun _ =>
      ((number?_restores 8).lacking _).bind fun _ => .ok _) (delegateCall 0 0) rfl
  · exact lacks h (((number?_restores 8).lacking code).bind fun _ =>
      ((number?_restores 32).lacking _).bind fun _ =>
        (data?_restores.lacking _).bind fun _ => .ok _) (create 0 0 []) rfl
  · cases h
  · cases h
  · cases h
  · cases h
  · cases h
  · -- Any other tag. All instructions were seen to begin with one of those above.
    cases h
    refine .unknown fun ⟨i, hi⟩ => ?_
    cases i <;> simp_all [encode]

end Instruction

namespace Script

open Instruction

/-! ### Reading step by step -/

/-- **The next instruction** of a code and what is behind it, and nothing at the end of the code. -/
def next? : Bytes → Except ExecutionFault (Option (Instruction × Bytes))
  | [] => .ok none
  | tag :: rest => (operands? tag rest).map some

/-- Asking for the next instruction over and over gives these instructions, up to the end of the
code or up to a fault. -/
inductive Reads : Bytes → List Instruction → Option ExecutionFault → Prop
  | done {code : Bytes} (h : next? code = .ok none) : Reads code [] none
  | more {code rest : Bytes} {i : Instruction} {is : List Instruction}
      {fault : Option ExecutionFault} (h : next? code = .ok (some (i, rest)))
      (hrest : Reads rest is fault) : Reads code (i :: is) fault
  | stuck {code : Bytes} {fault : ExecutionFault} (h : next? code = .error fault) :
      Reads code [] (some fault)

theorem next?_eq_none {code : Bytes} : next? code = .ok none ↔ code = [] := by
  cases code with
  | nil => exact ⟨fun _ => rfl, fun _ => rfl⟩
  | cons tag rest =>
    refine ⟨fun h => ?_, fun h => by cases h⟩
    rw [next?] at h
    cases hread : operands? tag rest with
    | error fault =>
      rw [hread] at h
      cases h
    | ok x =>
      rw [hread] at h
      cases h

theorem next?_eq_some {code rest : Bytes} {i : Instruction} :
    next? code = .ok (some (i, rest)) ↔
      ∃ tag behind, code = tag :: behind ∧ operands? tag behind = .ok (i, rest) := by
  cases code with
  | nil => exact ⟨nofun, nofun⟩
  | cons tag behind =>
    rw [next?]
    -- The tag decides which operands are read, and either reader fails on them alike.
    constructor
    · intro h
      cases hread : operands? tag behind with
      | error fault =>
        rw [hread] at h
        cases h
      | ok x =>
        rw [hread] at h
        cases h
        exact ⟨tag, behind, rfl, hread⟩
    · rintro ⟨tag', behind', h, hread⟩
      cases h
      rw [hread]
      rfl

theorem next?_eq_error {code : Bytes} {fault : ExecutionFault} :
    next? code = .error fault ↔
      ∃ tag behind, code = tag :: behind ∧ operands? tag behind = .error fault := by
  cases code with
  | nil => exact ⟨nofun, nofun⟩
  | cons tag behind =>
    rw [next?]
    -- A fault of the reader is that of the operands.
    constructor
    · intro h
      cases hread : operands? tag behind with
      | error fault' =>
        rw [hread] at h
        cases h
        exact ⟨tag, behind, rfl, hread⟩
      | ok x =>
        rw [hread] at h
        cases h
    · rintro ⟨tag', behind', h, hread⟩
      cases h
      rw [hread]
      rfl

theorem decode_cons_ok {tag : UInt8} {behind rest : Bytes} {i : Instruction}
    (h : operands? tag behind = .ok (i, rest)) :
    decode (tag :: behind) = (i :: (decode rest).1, (decode rest).2) := by
  have hrest : decodeUpTo behind.length rest = decode rest :=
    decodeUpTo_of_le (operands?_length h)
  rw [decode, List.length_cons, decodeUpTo, h]
  simp only [hrest]

theorem decode_cons_error {tag : UInt8} {behind : Bytes} {fault : ExecutionFault}
    (h : operands? tag behind = .error fault) : decode (tag :: behind) = ([], some fault) := by
  rw [decode, List.length_cons, decodeUpTo, h]

/-- Decoding is reading step by step. -/
theorem reads_iff {code : Bytes} {is : List Instruction} {fault : Option ExecutionFault} :
    Reads code is fault ↔ decode code = (is, fault) := by
  constructor
  · intro h
    induction h with
    | done h =>
      obtain rfl := next?_eq_none.mp h
      rfl
    | more h hrest ih =>
      obtain ⟨tag, behind, rfl, hread⟩ := next?_eq_some.mp h
      rw [decode_cons_ok hread, ih]
    | stuck h =>
      obtain ⟨tag, behind, rfl, hread⟩ := next?_eq_error.mp h
      exact decode_cons_error hread
  · -- What is left behind an instruction is shorter, so reading it may be taken for granted.
    induction hlength : code.length using Nat.strongRecOn generalizing code is fault with
    | ind length ih =>
      intro h
      cases code with
      | nil =>
        cases h
        exact .done rfl
      | cons tag behind =>
        -- By what reading the first instruction gives.
        cases hread : operands? tag behind with
        | error fault' =>
          rw [decode_cons_error hread] at h
          cases h
          exact .stuck (next?_eq_error.mpr ⟨tag, behind, rfl, hread⟩)
        | ok x =>
          obtain ⟨i, rest⟩ := x
          rw [decode_cons_ok hread] at h
          cases h
          have hshorter : rest.length < length := by
            rw [← hlength]
            exact Nat.lt_succ_of_le (operands?_length hread)
          exact .more (next?_eq_some.mpr ⟨tag, behind, rfl, hread⟩) (ih _ hshorter rfl rfl)

/-! ### Both directions -/

/-- All instructions of a sequence fit. -/
def AllFit (is : List Instruction) : Prop := ∀ i ∈ is, i.Fits

instance (is : List Instruction) : Decidable (AllFit is) := inferInstanceAs (Decidable (∀ _ ∈ _, _))

/-- No fitting instruction begins here, and the fault says why. -/
structure StopsAt (tag : UInt8) (behind : Bytes) (fault : ExecutionFault) : Prop where
  blames : Blames tag fault
  nowhere : ∀ i : Instruction, i.Fits → ¬ i.encode <+: tag :: behind

/-- What is left of a code when reading it has ended in some way. -/
inductive Leaves : Bytes → Option ExecutionFault → Prop
  | nothing : Leaves [] none
  | fault {tag : UInt8} {behind : Bytes} {fault : ExecutionFault}
      (h : StopsAt tag behind fault) : Leaves (tag :: behind) (some fault)

theorem encode_cons (i : Instruction) (is : List Instruction) :
    encode (i :: is) = i.encode ++ encode is := rfl

/-- The code of fitting instructions is read as those, and then what is behind it is read. -/
theorem decode_encode_append {is : List Instruction} (h : AllFit is) (rest : Bytes) :
    decode (encode is ++ rest) = (is ++ (decode rest).1, (decode rest).2) := by
  induction is with
  | nil => rfl
  | cons i is ih =>
    obtain ⟨tag, operands, hi⟩ := exists_encode i
    have hread : operands? tag (operands ++ (encode is ++ rest)) = .ok (i, encode is ++ rest) :=
      operands?_encode (h i List.mem_cons_self) hi _
    have hcode : encode (i :: is) ++ rest = tag :: (operands ++ (encode is ++ rest)) := by
      rw [encode_cons, hi, List.append_assoc, List.cons_append]
    rw [hcode, decode_cons_ok hread, ih fun j hj => h j (List.mem_cons_of_mem _ hj)]
    rfl

/-- Where reading fails, no instruction begins. -/
theorem stopsAt_of_error {tag : UInt8} {behind : Bytes} {fault : ExecutionFault}
    (h : operands? tag behind = .error fault) : StopsAt tag behind fault where
  blames := operands?_error h
  nowhere i hi := by
    rintro ⟨rest, hrest⟩
    obtain ⟨tag', operands, hcode⟩ := exists_encode i
    rw [hcode, List.cons_append] at hrest
    obtain ⟨rfl, rfl⟩ := List.cons.inj hrest
    cases h.symm.trans (operands?_encode hi hcode rest)

/-- **What has been read is the code** up to where reading ended. -/
theorem Reads.encode_eq {code : Bytes} {is : List Instruction} {fault : Option ExecutionFault}
    (h : Reads code is fault) :
    AllFit is ∧ ∃ left, code = encode is ++ left ∧ Leaves left fault := by
  induction h with
  | done h =>
    obtain rfl := next?_eq_none.mp h
    exact ⟨List.forall_mem_nil _, [], rfl, .nothing⟩
  | @more code rest i is fault h hrest ih =>
    obtain ⟨tag, behind, rfl, hread⟩ := next?_eq_some.mp h
    obtain ⟨hi, hcode⟩ := encode_operands? hread
    obtain ⟨his, left, rfl, hleft⟩ := ih
    refine ⟨List.forall_mem_cons.mpr ⟨hi, his⟩, left, ?_, hleft⟩
    rw [hcode, encode_cons, List.append_assoc]
  | stuck h =>
    obtain ⟨tag, behind, rfl, hread⟩ := next?_eq_error.mp h
    exact ⟨List.forall_mem_nil _, tag :: behind, rfl, .fault (stopsAt_of_error hread)⟩

/-- **Writing and reading are inverse.** Decoding a code is to ask for its next instruction over and
over. The code of fitting instructions is read as those instructions up to its end; code that is
read up to its end is the code of the instructions read, and these fit; and code that is not the
code of any fitting instructions is read as the longest sequence of them that it begins with, and
then stops at a fault. -/
theorem decode_inverse :
    (∀ code is fault, Reads code is fault ↔ decode code = (is, fault)) ∧
    (∀ is, AllFit is → decode (encode is) = (is, none)) ∧
    (∀ code is, decode code = (is, none) → AllFit is ∧ encode is = code) ∧
    (∀ code, (¬ ∃ is, AllFit is ∧ encode is = code) →
      ∃ is fault tag behind, decode code = (is, some fault) ∧ AllFit is ∧
        code = encode is ++ tag :: behind ∧ StopsAt tag behind fault) := by
  refine ⟨fun _ _ _ => reads_iff, fun is h => ?_, fun code is h => ?_, fun code hcode => ?_⟩
  · -- Reading gives back what was written, with nothing left.
    have hread := decode_encode_append h []
    rw [List.append_nil] at hread
    rw [hread]
    exact congrArg (·, none) (List.append_nil is)
  · -- What reads without a fault has been written so.
    obtain ⟨his, left, rfl, hleft⟩ := (reads_iff.mpr h).encode_eq
    cases hleft
    exact ⟨his, (List.append_nil _).symm⟩
  · -- What is left where the reading stops is not empty, or else the whole code would have been
    -- written.
    rcases h : decode code with ⟨is, fault⟩
    obtain ⟨his, left, rfl, hleft⟩ := (reads_iff.mpr h).encode_eq
    cases hleft with
    | nothing => exact absurd ⟨is, his, (List.append_nil _).symm⟩ hcode
    | fault hstop => exact ⟨is, _, _, _, rfl, his, rfl, hstop⟩

/-- A creation with code of its own as its byte string, and a tag that is none behind it. -/
example : let inner := encode [.output [1, 2], .stop]
    decode (encode [.create 5 0 inner, .recurse]) = ([.create 5 0 inner, .recurse], none) ∧
      decode (encode [.create 5 0 inner] ++ [0x0c]) =
        ([.create 5 0 inner], some (.invalidOpcode 0x0c)) := by
  decide +kernel

end Script

end MessageCall
