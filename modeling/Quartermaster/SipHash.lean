/-!
# Fingerprints

SipHash with a zero key, one round for each word of the input and three at the end. Lists of
bytes are hashed behind their length, so that two lists written one after the other cannot be
shifted into each other.
-/

namespace Quartermaster.SipHash

/-- The four words that are mixed. -/
structure State where
  v0 : UInt64
  v1 : UInt64
  v2 : UInt64
  v3 : UInt64
deriving DecidableEq

/-- The state before any input, for a zero key. -/
def initial : State :=
  ⟨0x736f6d6570736575, 0x646f72616e646f6d, 0x6c7967656e657261, 0x7465646279746573⟩

/-- A rotation to the left by fewer than 64 places. -/
def rotateLeft (x : UInt64) (n : UInt64) : UInt64 := (x <<< n) ||| (x >>> (64 - n))

def round (s : State) : State :=
  let v0 := s.v0 + s.v1
  let v1 := rotateLeft s.v1 13 ^^^ v0
  let v0 := rotateLeft v0 32
  let v2 := s.v2 + s.v3
  let v3 := rotateLeft s.v3 16 ^^^ v2
  let v0 := v0 + v3
  let v3 := rotateLeft v3 21 ^^^ v0
  let v2 := v2 + v1
  let v1 := rotateLeft v1 17 ^^^ v2
  let v2 := rotateLeft v2 32
  ⟨v0, v1, v2, v3⟩

/-- Mixes in one word. -/
def absorb (s : State) (word : UInt64) : State :=
  let s := round { s with v3 := s.v3 ^^^ word }
  { s with v0 := s.v0 ^^^ word }

/-- The word of at most eight bytes, the first the least significant. -/
def wordOf : List UInt8 → UInt64
  | [] => 0
  | b :: bs => b.toUInt64 + wordOf bs <<< 8

/-- Mixes in all full words and gives the bytes left over. -/
def absorbWords (s : State) : List UInt8 → State × List UInt8
  | a :: b :: c :: d :: e :: f :: g :: h :: rest =>
    absorbWords (absorb s (wordOf [a, b, c, d, e, f, g, h])) rest
  | rest => (s, rest)

/-- The fingerprint of a message. -/
def hash (message : List UInt8) : UInt64 :=
  let (s, rest) := absorbWords initial message
  let last := wordOf rest + (UInt64.ofNat (message.length % 256)) <<< 56
  let s := absorb s last
  let s := round (round (round { s with v2 := s.v2 ^^^ 0xff }))
  s.v0 ^^^ s.v1 ^^^ s.v2 ^^^ s.v3

end Quartermaster.SipHash
