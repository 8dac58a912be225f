import Quartermaster.Word

/-!
# Fixed-point numbers

Scores and shares are signed numbers with 32 binary places, held as a whole number of steps of
2⁻³². The steps of a representable number fit 64 bits with sign; the checked operations give
nothing where their result does not fit. Quotients are cut toward zero, products toward
minus infinity.

`ratio` and `percentage` are the two quotients that planning uses. Both are total: a price of
zero or an empty total scores zero.
-/

namespace Quartermaster

/-- A number of steps of 2⁻³². -/
structure Fixed where
  bits : Int
deriving DecidableEq, Repr, Inhabited

namespace Fixed

/-- The steps in one whole. -/
def scale : Int := wordValues 32

def least : Int := -wordValues 63

def greatest : Int := wordValues 63 - 1

/-- Whether a number of steps is representable. -/
def Fits (n : Int) : Prop := least ≤ n ∧ n ≤ greatest

instance (n : Int) : Decidable (Fits n) := inferInstanceAs (Decidable (_ ∧ _))

/-- The number of these steps, if it is representable. -/
def ofBits? (n : Int) : Option Fixed := if Fits n then some ⟨n⟩ else none

def ofInt (n : Int) : Fixed := ⟨n * scale⟩

def zero : Fixed := ⟨0⟩

/-- The sum of all shares. -/
def hundred : Fixed := ofInt 100

instance : LT Fixed := ⟨fun a b => a.bits < b.bits⟩
instance : LE Fixed := ⟨fun a b => a.bits ≤ b.bits⟩
instance (a b : Fixed) : Decidable (a < b) := inferInstanceAs (Decidable (a.bits < b.bits))
instance (a b : Fixed) : Decidable (a ≤ b) := inferInstanceAs (Decidable (a.bits ≤ b.bits))

def add? (a b : Fixed) : Option Fixed := ofBits? (a.bits + b.bits)

/-- The product, cut toward minus infinity. -/
def mul? (a b : Fixed) : Option Fixed := ofBits? ((a.bits * b.bits).fdiv scale)

/-- The quotient, cut toward zero. -/
def div? (a b : Fixed) : Option Fixed :=
  if b.bits = 0 then none else ofBits? ((a.bits * scale).tdiv b.bits)

/-- The sum, or the nearest representable number. -/
def saturatingAdd (a b : Fixed) : Fixed := ⟨max least (min greatest (a.bits + b.bits))⟩

/-- The quotient of two whole numbers; zero for a zero denominator. -/
def ratio (numerator denominator : Int) : Fixed :=
  ((ofInt numerator).div? (ofInt denominator)).getD zero

/-- The share of a part in a total, scaled to a hundred; zero where the total is not positive. -/
def percentage (part total : Fixed) : Fixed :=
  if total ≤ zero then zero
  else ((part.div? total).bind fun share => share.mul? hundred).getD zero

/-! ## Decimal text

The text has as few decimals as tell the number from its neighbours, at most ten, and ends
early where the rest is lost in the rounding of the last step. The last decimal is rounded to
nearest, a half to the even digit.
-/

/-- The decimals of a fraction of `f` steps, most significant first, and the rest after them.
`tie` is half a unit of the last decimal that a step is worth, and zero before the first. -/
def decimals : Nat → Nat → Nat → List Nat × Nat
  | 0, _, f => ([], f)
  | more + 1, tie, f =>
    let digit := f * 10 / wordValues 32
    let rest := f * 10 % wordValues 32
    let gap := (wordValues 32 - rest) % wordValues 32
    let tie' := if tie = 0 then 5 else tie * 10
    if rest < 10 ∨ gap < 10 ∨ rest < tie' ∨ gap < tie' then ([digit], rest)
    else
      let (digits, last) := decimals more tie' rest
      (digit :: digits, last)

/-- Drops the zeros at the end of a fraction. -/
def dropTrailingZeros (digits : List Char) : List Char :=
  (digits.reverse.dropWhile (· = '0')).reverse

def toText (x : Fixed) : String :=
  let steps := x.bits.natAbs
  let (digits, rest) := decimals 10 0 (steps % wordValues 32)
  let places := digits.length
  let unit := Nat.pow 10 places
  let half := wordValues 31
  let scaled := digits.foldl (fun n d => n * 10 + d) 0
  let up := decide (half < rest) || (decide (rest = half) && decide (scaled % 2 = 1))
  let total := steps / wordValues 32 * unit + scaled + (if up then 1 else 0)
  let fraction := (toString (total % unit)).toList
  let padded := List.replicate (places - fraction.length) '0' ++ fraction
  let shown := dropTrailingZeros padded
  let sign := if x.bits < 0 then "-" else ""
  let whole := sign ++ toString (total / unit)
  if shown.isEmpty then whole else whole ++ "." ++ String.ofList shown

end Fixed

end Quartermaster
