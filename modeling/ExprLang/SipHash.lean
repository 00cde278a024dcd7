/-!
# SipHash

A hash of bytes to a word of 64 bits. The bytes are taken in words of eight, the least significant
byte first; what is left over makes a last word, with the length of the whole in its top byte.
Each word is mixed into a state of four words by one round, and three more rounds end the hash.
The key is zero.
-/

namespace ExprLang

/-- The state of a hash. -/
structure SipState where
  v0 : UInt64
  v1 : UInt64
  v2 : UInt64
  v3 : UInt64

/-- The state before the first word. -/
def SipState.start : SipState :=
  ⟨0x736F6D6570736575, 0x646F72616E646F6D, 0x6C7967656E657261, 0x7465646279746573⟩

/-- A word turned to the left by `n` places, for `n` from 1 to 63. -/
def rotateLeft (w n : UInt64) : UInt64 :=
  (w <<< n) ||| (w >>> (64 - n))

/-- One round of mixing. -/
def SipState.round (s : SipState) : SipState :=
  let a := s.v0 + s.v1
  let b := rotateLeft s.v1 13 ^^^ a
  let c := s.v2 + s.v3
  let d := rotateLeft s.v3 16 ^^^ c
  let e := rotateLeft a 32 + d
  let f := c + b
  ⟨e, rotateLeft b 17 ^^^ f, rotateLeft f 32, rotateLeft d 21 ^^^ e⟩

/-- The state after a word was mixed in. -/
def SipState.absorb (s : SipState) (w : UInt64) : SipState :=
  let s := { s with v3 := s.v3 ^^^ w }.round
  { s with v0 := s.v0 ^^^ w }

/-- The word that a state comes to. -/
def SipState.finish (s : SipState) : UInt64 :=
  let s := { s with v2 := s.v2 ^^^ 0xFF }.round.round.round
  s.v0 ^^^ s.v1 ^^^ s.v2 ^^^ s.v3

/-- The word of some bytes, the least significant first. -/
def wordOfBytes (bytes : List UInt8) : UInt64 :=
  bytes.foldr (fun b w => (w <<< 8) ||| b.toUInt64) 0

/-- The eight bytes of a word, the least significant first. -/
def wordBytes (w : UInt64) : List UInt8 :=
  (List.range 8).map fun i => (w >>> UInt64.ofNat (8 * i)).toUInt8

/-- Mixes in the words of eight bytes, and the word that the bytes left over make with the length
of the whole. -/
def SipState.absorbBytes (length : Nat) (s : SipState) : List UInt8 → SipState
  | b0 :: b1 :: b2 :: b3 :: b4 :: b5 :: b6 :: b7 :: rest =>
    (s.absorb (wordOfBytes [b0, b1, b2, b3, b4, b5, b6, b7])).absorbBytes length rest
  | rest => s.absorb ((UInt64.ofNat length <<< 56) ||| wordOfBytes rest)

/-- The hash of some bytes. -/
def sipHash (bytes : List UInt8) : UInt64 :=
  (SipState.start.absorbBytes bytes.length bytes).finish

end ExprLang
