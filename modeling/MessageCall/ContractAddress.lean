import MessageCall.Keccak

/-!
# Addresses of created contracts

A creation derives the new account's address from its creator and the creator's nonce: the last
twenty bytes of the digest of the pair, encoded as a list of two strings. The encoding is the
recursive length encoding: a string of one byte below `0x80` stands for itself, any other string
and every list is preceded by its length, and a number is the string of its bytes without leading
zeros, so zero is the empty string.
-/

namespace MessageCall

namespace Encoding

/-- A number's bytes without leading zeros. -/
def numberBytes (n : UInt64) : Bytes := (bigEndian 8 n.toNat).dropWhile (· == 0)

/-- The head of a payload of the given length. Up to fifty-five the length is part of the first
byte, beyond that the first byte gives the length's own length. -/
def head (offset : Nat) (length : Nat) : Bytes :=
  if length ≤ 55 then [UInt8.ofNat (offset + length)]
  else
    let digits := (bigEndian 8 length).dropWhile (· == 0)
    UInt8.ofNat (offset + 55 + digits.length) :: digits

/-- A string. -/
def string : Bytes → Bytes
  -- A small byte is its own encoding.
  | [b] => if b < 0x80 then [b] else head 0x80 1 ++ [b]
  | bytes => head 0x80 bytes.length ++ bytes

/-- A list of strings. -/
def list (items : List Bytes) : Bytes :=
  let payload := items.flatMap string
  head 0xc0 payload.length ++ payload

/-- A creator with its nonce. -/
def creator (sender : Address) (nonce : UInt64) : Bytes :=
  list [addressBytes sender, numberBytes nonce]

end Encoding

/-- The address of the contract that `sender` creates while its nonce is `nonce`, that is before
the creation counts the nonce up. -/
def contractAddress (sender : Address) (nonce : UInt64) : Address :=
  (keccak (Encoding.creator sender nonce)).setWidth 160

end MessageCall
