import Quartermaster.Word

/-!
# Random numbers

A generator is the ChaCha key stream with twelve rounds, read in words of 64 bits. Its key is
expanded from a seed of 64 bits by a permuted congruential generator. The state is the key and
how many words were read, so that the n-th word is a function of the seed and n alone.

`Generator.below` draws evenly from an initial segment of the numbers by widening
multiplication, with one more word where the first leaves the answer open.
-/

namespace Quartermaster

/-! ## The key stream -/

namespace ChaCha

/-- The sixteen words of a block. -/
abbrev Block := Vector UInt32 16

/-- A rotation to the left by fewer than 32 places. -/
def rotateLeft (x : UInt32) (n : UInt32) : UInt32 := (x <<< n) ||| (x >>> (32 - n))

/-- Mixes four words of a block. -/
def quarterRound (a b c d : Fin 16) (v : Block) : Block :=
  let v := v.set a (v[a] + v[b])
  let v := v.set d (rotateLeft (v[d] ^^^ v[a]) 16)
  let v := v.set c (v[c] + v[d])
  let v := v.set b (rotateLeft (v[b] ^^^ v[c]) 12)
  let v := v.set a (v[a] + v[b])
  let v := v.set d (rotateLeft (v[d] ^^^ v[a]) 8)
  let v := v.set c (v[c] + v[d])
  v.set b (rotateLeft (v[b] ^^^ v[c]) 7)

/-- Mixes the columns of a block, then its diagonals. -/
def doubleRound (v : Block) : Block :=
  let v := quarterRound 0 4 8 12 v
  let v := quarterRound 1 5 9 13 v
  let v := quarterRound 2 6 10 14 v
  let v := quarterRound 3 7 11 15 v
  let v := quarterRound 0 5 10 15 v
  let v := quarterRound 1 6 11 12 v
  let v := quarterRound 2 7 8 13 v
  quarterRound 3 4 9 14 v

/-- Four constant words, the key, the number of the block in two words, and two zero words. -/
def start (key : Vector UInt32 8) (n : Nat) : Block :=
  #v[0x61707865, 0x3320646e, 0x79622d32, 0x6b206574,
    key[0], key[1], key[2], key[3], key[4], key[5], key[6], key[7],
    UInt32.ofNat n, UInt32.ofNat (n / wordValues 32), 0, 0]

/-- The block of this number, after six double rounds. -/
def block (key : Vector UInt32 8) (n : Nat) : Block :=
  let first := start key n
  let mixed := doubleRound (doubleRound (doubleRound
    (doubleRound (doubleRound (doubleRound first)))))
  Vector.zipWith (· + ·) first mixed

/-- The word of 64 bits at an index of the key stream: two words, the low one first. -/
def word (key : Vector UInt32 8) (i : Nat) : UInt64 :=
  let b := block key (i / 8)
  let low := 2 * (i % 8)
  (b.getD low 0).toUInt64 + (b.getD (low + 1) 0).toUInt64 <<< 32

end ChaCha

/-! ## Seeds -/

namespace Seed

/-- The state after this one. -/
def advance (state : UInt64) : UInt64 :=
  state * 6364136223846793005 + 11634580027462260723

/-- The word that a state gives: its high bits folded and turned by its highest. -/
def output (state : UInt64) : UInt32 :=
  let folded := (((state >>> 18) ^^^ state) >>> 27).toUInt32
  let turn := (state >>> 59).toUInt32
  (folded >>> turn) ||| (folded <<< ((32 - turn) &&& 31))

/-- The first words that a seed gives. -/
def words : Nat → UInt64 → List UInt32
  | 0, _ => []
  | n + 1, state =>
    let state := advance state
    output state :: words n state

/-- The key of a seed: its first eight words. -/
def key (seed : UInt64) : Vector UInt32 8 :=
  let ws := words 8 seed
  Vector.ofFn fun i => ws.getD i 0

end Seed

/-! ## Generators -/

/-- A key, and how many words of its stream were read. -/
structure Generator where
  key : Vector UInt32 8
  drawn : Nat := 0
deriving DecidableEq

namespace Generator

def ofSeed (seed : Nat) : Generator := { key := Seed.key (UInt64.ofNat seed) }

/-- The next word of the stream. -/
def next (g : Generator) : Nat × Generator :=
  ((ChaCha.word g.key g.drawn).toNat, { g with drawn := g.drawn + 1 })

/-- A number below a bound of at most 64 bits. The high part of a word times the bound is the
answer, unless the low part is so near its end that a second word may carry into it. -/
def below (bound : Nat) (g : Generator) : Nat × Generator :=
  let values := wordValues 64
  let (x, g) := g.next
  let high := x * bound / values
  let low := x * bound % values
  if values - bound < low then
    let (y, g) := g.next
    let carry := if values ≤ low + y * bound / values then 1 else 0
    (high + carry, g)
  else (high, g)

end Generator

end Quartermaster
