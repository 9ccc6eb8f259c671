import MessageCall.Word

/-!
# The Keccak-256 digest

The sponge over twenty-five lanes of 64 bits, at a rate of seventeen lanes. A state is the list of
its lanes, lane `(x, y)` at position `x + 5 * y`. A round is the composition of the five step
mappings `theta`, `rho` with `pi`, `chi` and `iota`, and the permutation is twenty-four rounds that
differ in the constant of `iota` only.

A message is padded by a byte `0x01`, zeros, and the top bit of the last byte of the block, then
taken in block by block. The digest is the first four lanes, least significant byte first.
-/

namespace MessageCall

namespace Keccak

/-- Sixty-four bits of the state. -/
abbrev Lane := UInt64

/-- The twenty-five lanes of the sponge, lane `(x, y)` at position `x + 5 * y`. -/
abbrev State := List Lane

/-- The lane at a position. -/
def lane (s : State) (i : Nat) : Lane := s.getD i 0

/-- A lane turned left by `k` bits. -/
def turn (a : Lane) (k : Nat) : Lane :=
  if k = 0 then a else (a <<< UInt64.ofNat k) ||| (a >>> UInt64.ofNat (64 - k))

/-! ### The step mappings -/

/-- The parity of column `x`. -/
def parity (s : State) (x : Nat) : Lane :=
  lane s x ^^^ lane s (x + 5) ^^^ lane s (x + 10) ^^^ lane s (x + 15) ^^^ lane s (x + 20)

/-- Adds to every lane the parities of the columns beside it, one of them turned. -/
def theta (s : State) : State :=
  let c := (List.range 5).map (parity s)
  let d := (List.range 5).map fun x => lane c ((x + 4) % 5) ^^^ turn (lane c ((x + 1) % 5)) 1
  s.mapIdx fun i a => a ^^^ lane d (i % 5)

/-- By how many bits `rho` turns each lane. -/
def turns : List Nat :=
  [0, 1, 62, 28, 27, 36, 44, 6, 55, 20, 3, 10, 43, 25, 39, 41, 45, 15, 21, 8, 18, 2, 61, 56, 14]

/-- Where `pi` takes each lane from: lane `(x, y)` from `((x + 3 * y) mod 5, x)`. -/
def sources : List Nat :=
  (List.range 25).map fun i => (i % 5 + 3 * (i / 5)) % 5 + 5 * (i % 5)

/-- Turns every lane by its own amount, then moves it to its new place. -/
def rhoPi (s : State) : State :=
  let turned := s.zipWith turn turns
  sources.map (lane turned)

/-- Mixes every lane with the two to its right in its row. -/
def chi (s : State) : State :=
  s.mapIdx fun i a =>
    a ^^^ (~~~ lane s ((i + 1) % 5 + 5 * (i / 5)) &&& lane s ((i + 2) % 5 + 5 * (i / 5)))

/-- Adds a round's constant to the first lane. -/
def iota (constant : Lane) : State → State
  | [] => []
  | a :: rest => (a ^^^ constant) :: rest

/-- The constants of the twenty-four rounds. -/
def roundConstants : List Lane :=
  [0x0000000000000001, 0x0000000000008082, 0x800000000000808a, 0x8000000080008000,
   0x000000000000808b, 0x0000000080000001, 0x8000000080008081, 0x8000000000008009,
   0x000000000000008a, 0x0000000000000088, 0x0000000080008009, 0x000000008000000a,
   0x000000008000808b, 0x800000000000008b, 0x8000000000008089, 0x8000000000008003,
   0x8000000000008002, 0x8000000000000080, 0x000000000000800a, 0x800000008000000a,
   0x8000000080008081, 0x8000000000008080, 0x0000000080000001, 0x8000000080008008]

/-- One round. -/
def round (s : State) (constant : Lane) : State := iota constant (chi (rhoPi (theta s)))

/-- The **permutation** of the state: all rounds in order. -/
def permute (s : State) : State := roundConstants.foldl round s

/-! ### The sponge -/

/-- Bytes taken in between two permutations. -/
def rate : Nat := 136

/-- Eight bytes as a lane, least significant first. -/
def laneOfBytes (bytes : Bytes) : Lane :=
  UInt64.ofNat (ofBigEndian (bytes.take 8).reverse)

/-- The bytes of a lane, least significant first. -/
def bytesOfLane (a : Lane) : Bytes := (bigEndian 8 a.toNat).reverse

/-- The lanes of a block of bytes. -/
def lanesOfBlock (block : Bytes) : State :=
  (List.range 25).map fun i => if i < 17 then laneOfBytes (block.drop (8 * i)) else 0

/-- Takes a block in. -/
def absorb (s : State) (block : Bytes) : State :=
  permute (s.zipWith (· ^^^ ·) (lanesOfBlock block))

/-- The last, possibly empty, part of a message filled up to a block. -/
def pad (rest : Bytes) : Bytes :=
  -- With one byte to fill, that byte is both the first and the last of the padding.
  if rest.length + 1 = rate then rest ++ [0x81]
  else rest ++ 0x01 :: List.replicate (rate - 2 - rest.length) 0 ++ [0x80]

/-- Takes in `full` whole blocks of a message and then the padded rest. -/
def absorbAll : (full : Nat) → State → Bytes → State
  | 0, s, message => absorb s (pad message)
  | full + 1, s, message => absorbAll full (absorb s (message.take rate)) (message.drop rate)

/-- The state before anything is taken in. -/
def start : State := List.replicate 25 0

/-- The thirty-two bytes of a message's digest. -/
def digestBytes (message : Bytes) : Bytes :=
  ((absorbAll (message.length / rate) start message).take 4).flatMap bytesOfLane

end Keccak

/-- The Keccak-256 digest of a byte string. -/
def keccak (message : Bytes) : Hash := BitVec.ofNat 256 (ofBigEndian (Keccak.digestBytes message))

/-- The digest of the empty byte string, which marks an account without code. -/
def emptyCodeHash : Hash :=
  0xc5d2460186f7233c927e7db2dcc703c0e500b653ca82273b7bfad8045d85a470#256

/-- The root of an empty trie: the digest of the encoding of the empty string. -/
def emptyTrieHash : Hash :=
  0x56e81f171bcc55a6ff8345e692c0f86e5b48e01b996cadc001622fb5e363b421#256

end MessageCall
