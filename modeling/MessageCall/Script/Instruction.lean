import MessageCall.Fault

/-!
# Scripted code

Code is a sequence of `Instruction`s. Each is a tag byte followed by its operands, all of them
big-endian and of fixed width, except that a byte string is preceded by its length in four bytes.

`Script.encode` writes a sequence and `Script.decode` reads one: it gives the instructions up to the
end or up to the first fault, and the fault. A fault is a tag that is none of the fourteen, or an
operand that the code is too short for.
-/

namespace MessageCall

/-- An instruction of scripted code. -/
inductive Instruction
  /-- End without output. -/
  | stop
  /-- End with the given output. -/
  | output (data : Bytes)
  /-- End with as many zero bytes. -/
  | outputZeros (count : UInt32)
  /-- Pay gas for nothing. -/
  | burn (gas : Gas)
  /-- Write a storage slot. -/
  | store (key : Hash) (value : Word)
  | call (target : Address) (gas : Gas) (value : Word)
  | callCode (target : Address) (gas : Gas) (value : Word)
  | delegateCall (target : Address) (gas : Gas)
  | create (gas : Gas) (value : Word) (initCode : Bytes)
  /-- Call the own account with the own input and all gas, while the frame is not as deep as the
  input says. -/
  | recurse
  /-- Note the own frame. -/
  | observe
  /-- Ask for a stop. -/
  | cancel
  /-- Fail. -/
  | revert
  /-- Fail as an unknown instruction. -/
  | invalid
  deriving DecidableEq, Inhabited

namespace Instruction

/-- A byte string behind its length. A length that does not fit is written as the largest one. -/
def encodeData (data : Bytes) : Bytes := bigEndian 4 (min data.length (UInt32.size - 1)) ++ data

/-- The bytes of an instruction. -/
def encode : Instruction → Bytes
  | stop => [0x00]
  | output data => 0x01 :: encodeData data
  | outputZeros count => 0x02 :: bigEndian 4 count.toNat
  | burn gas => 0x03 :: bigEndian 8 gas.toNat
  | store key value => 0x04 :: wordBytes key ++ wordBytes value
  | call target gas value =>
    0x05 :: addressBytes target ++ bigEndian 8 gas.toNat ++ wordBytes value
  | callCode target gas value =>
    0x06 :: addressBytes target ++ bigEndian 8 gas.toNat ++ wordBytes value
  | delegateCall target gas => 0x07 :: addressBytes target ++ bigEndian 8 gas.toNat
  | create gas value initCode =>
    0x08 :: bigEndian 8 gas.toNat ++ wordBytes value ++ encodeData initCode
  | recurse => [0x09]
  | observe => [0x0a]
  | cancel => [0x0b]
  | revert => [0xfd]
  | invalid => [0xfe]

/-! ### Reading one instruction -/

/-- The bytes of an operand and the code behind it. -/
def take? (width : Nat) (code : Bytes) : Except ExecutionFault (Bytes × Bytes) :=
  if width ≤ code.length then .ok (code.take width, code.drop width)
  else .error (.custom "truncated script")

/-- A number of the given width. -/
def number? (width : Nat) (code : Bytes) : Except ExecutionFault (Nat × Bytes) := do
  let (bytes, rest) ← take? width code
  return (ofBigEndian bytes, rest)

/-- A byte string behind its length. -/
def data? (code : Bytes) : Except ExecutionFault (Bytes × Bytes) := do
  let (length, rest) ← number? 4 code
  take? length rest

/-- A target, an amount of gas and a value. -/
def callOperands? (code : Bytes) : Except ExecutionFault ((Address × Gas × Word) × Bytes) := do
  let (target, rest) ← number? 20 code
  let (gas, rest) ← number? 8 rest
  let (value, rest) ← number? 32 rest
  return ((BitVec.ofNat 160 target, UInt64.ofNat gas, BitVec.ofNat 256 value), rest)

/-- Reads the operands of a tag. -/
def operands? (tag : UInt8) (code : Bytes) : Except ExecutionFault (Instruction × Bytes) :=
  match tag with
  | 0x00 => .ok (stop, code)
  | 0x01 => do
    let (data, rest) ← data? code
    return (output data, rest)
  | 0x02 => do
    let (count, rest) ← number? 4 code
    return (outputZeros (UInt32.ofNat count), rest)
  | 0x03 => do
    let (gas, rest) ← number? 8 code
    return (burn (UInt64.ofNat gas), rest)
  | 0x04 => do
    let (key, rest) ← number? 32 code
    let (value, rest) ← number? 32 rest
    return (store (BitVec.ofNat 256 key) (BitVec.ofNat 256 value), rest)
  | 0x05 => do
    let ((target, gas, value), rest) ← callOperands? code
    return (call target gas value, rest)
  | 0x06 => do
    let ((target, gas, value), rest) ← callOperands? code
    return (callCode target gas value, rest)
  | 0x07 => do
    let (target, rest) ← number? 20 code
    let (gas, rest) ← number? 8 rest
    return (delegateCall (BitVec.ofNat 160 target) (UInt64.ofNat gas), rest)
  | 0x08 => do
    let (gas, rest) ← number? 8 code
    let (value, rest) ← number? 32 rest
    let (initCode, rest) ← data? rest
    return (create (UInt64.ofNat gas) (BitVec.ofNat 256 value) initCode, rest)
  | 0x09 => .ok (recurse, code)
  | 0x0a => .ok (observe, code)
  | 0x0b => .ok (cancel, code)
  | 0xfd => .ok (revert, code)
  | 0xfe => .ok (invalid, code)
  | tag => .error (.invalidOpcode tag)

end Instruction

namespace Script

/-- The code of a sequence of instructions. -/
def encode (instructions : List Instruction) : Bytes := instructions.flatMap Instruction.encode

/-- Reads at most `count` instructions. -/
def decodeUpTo : (count : Nat) → Bytes → List Instruction × Option ExecutionFault
  | _, [] => ([], none)
  | 0, _ :: _ => ([], none)
  | count + 1, tag :: rest =>
    match Instruction.operands? tag rest with
    | .error fault => ([], some fault)
    | .ok (instruction, rest) =>
      let (instructions, fault) := decodeUpTo count rest
      (instruction :: instructions, fault)

/-- The instructions of a code, up to its end or to the first fault, and the fault. Every
instruction takes at least one byte, so there are no more of them than bytes. -/
def decode (code : Bytes) : List Instruction × Option ExecutionFault :=
  decodeUpTo code.length code

/-- The amount of gas that stands for all that a frame has left. -/
def allGas : Gas := 0xffffffffffffffff

/-- The input that tells `Instruction.recurse` how deep to go. -/
def recursionTarget (depth : UInt64) : Bytes := bigEndian 8 depth.toNat

end Script

end MessageCall
