import Quartermaster.Fixed

/-!
# Floating-point numbers

Means and frequencies are binary numbers of 64 bits: a mantissa of at most 53 bits times a power
of two, rounded to nearest with a half to the even mantissa. They are computed exactly, as
quotients of whole numbers that are then rounded once.

`shortest` finds the fewest decimal digits that read back as the same number; `toText` writes
them. Reading a decimal rounds twice: the digits first, then their quotient by a power of ten.
-/

namespace Quartermaster

/-- The number `mantissa * 2 ^ exponent`, with a sign. -/
structure Binary64 where
  negative : Bool
  mantissa : Nat
  exponent : Int
deriving DecidableEq, Repr

namespace Binary64

/-- The exponent of the smallest numbers. -/
def leastExponent : Int := -1074

/-- The first mantissa that is too large. -/
def mantissaBound : Nat := wordValues 53

def zero : Binary64 := ⟨false, 0, leastExponent⟩

instance : Inhabited Binary64 := ⟨zero⟩

/-- Two to a power, as a quotient of whole numbers. -/
def twoTo (e : Int) : Nat × Nat := (wordValues e.toNat, wordValues (-e).toNat)

/-- Ten to a power, as a quotient of whole numbers. -/
def tenTo (e : Int) : Nat × Nat := (Nat.pow 10 e.toNat, Nat.pow 10 (-e).toNat)

/-- The whole number nearest to a quotient, a half to the even one. -/
def roundQuotient (num den : Nat) : Nat :=
  let q := num / den
  let r := num % den
  if den < 2 * r ∨ (den = 2 * r ∧ q % 2 = 1) then q + 1 else q

/-- The number nearest to a quotient of whole numbers. -/
def ofQuotient (negative : Bool) (num den : Nat) : Binary64 :=
  if num = 0 then { zero with negative }
  else
    let guess : Int := (num.log2 : Int) - den.log2 - 52
    let scaled := fun e : Int => (num * (twoTo (-e)).1, den * (twoTo (-e)).2)
    let fits := decide (mantissaBound / 2 ≤ (scaled guess).1 / (scaled guess).2)
    let e := max (if fits then guess else guess - 1) leastExponent
    let m := roundQuotient (scaled e).1 (scaled e).2
    if m = mantissaBound then ⟨negative, mantissaBound / 2, e + 1⟩ else ⟨negative, m, e⟩

/-- The number nearest to a whole number. -/
def ofInt (n : Int) : Binary64 := ofQuotient (decide (n < 0)) n.natAbs 1

/-- The absolute value as a quotient of whole numbers. -/
def quotient (x : Binary64) : Nat × Nat :=
  (x.mantissa * (twoTo x.exponent).1, (twoTo x.exponent).2)

/-- The quotient of two numbers, the second of which is not zero. -/
def div (x y : Binary64) : Binary64 :=
  ofQuotient (x.negative != y.negative) (x.quotient.1 * y.quotient.2) (x.quotient.2 * y.quotient.1)

/-- The product with a whole number. -/
def scale (x : Binary64) (n : Nat) : Binary64 :=
  ofQuotient x.negative (x.quotient.1 * n) x.quotient.2

/-- The nearest fixed-point number, a half to the even one. -/
def toFixed (x : Binary64) : Fixed :=
  let steps : Int := roundQuotient (x.quotient.1 * wordValues 32) x.quotient.2
  ⟨if x.negative then -steps else steps⟩

/-- The 64 bits: sign, eleven bits of exponent, 52 bits of mantissa. -/
def toBits (x : Binary64) : Nat :=
  let sign := if x.negative then wordValues 63 else 0
  let hidden := mantissaBound / 2
  if x.mantissa < hidden then sign + x.mantissa
  else sign + (x.exponent - leastExponent + 1).toNat * hidden + (x.mantissa - hidden)

/-! ## Decimals -/

/-- How many digits stand before the point, negative for zeros right after it. -/
def pointPlace (num den : Nat) : Int :=
  if den ≤ num then (toString (num / den)).length
  else
    let zeros := (List.range 400).find? fun j => decide (den ≤ num * Nat.pow 10 (j + 1))
    .negOfNat (zeros.getD 0)

/-- Whether `c * 10 ^ k` is a number that rounds to `x`: it lies between the midpoints to the
neighbours of `x`, which count where the mantissa is even. -/
def readsBack (x : Binary64) (c : Nat) (k : Int) : Bool :=
  let below := if x.mantissa = mantissaBound / 2 ∧ leastExponent < x.exponent then 1 else 2
  let (un, ud) := twoTo (x.exponent - 2)
  let (tn, td) := tenTo k
  let decimal := c * tn * ud
  let low := (4 * x.mantissa - below) * un * td
  let high := (4 * x.mantissa + 2) * un * td
  if x.mantissa % 2 = 0 then decide (low ≤ decimal ∧ decimal ≤ high)
  else decide (low < decimal ∧ decimal < high)

/-- The digits of a decimal with `n` digits that reads back as `x`, and its power of ten: the
nearer of the two neighbours on that grid, the even one where they are equally near. -/
def withDigits? (x : Binary64) (n : Nat) : Option (Nat × Int) :=
  let (num, den) := x.quotient
  let k := pointPlace num den - n
  let (tn, td) := tenTo k
  let nearest := roundQuotient (num * td) (den * tn)
  let below := num * td / (den * tn)
  ([nearest, below, below + 1].find? fun c => x.readsBack c k).map fun c => (c, k)

/-- The fewest digits that read back, and the power of ten they are multiplied by. -/
def shortest (x : Binary64) : Nat × Int :=
  ((List.range 17).findSome? fun n => x.withDigits? (n + 1)).getD (0, 0)

/-- The shortest text: positional from 10⁻⁵ up to 10¹⁶ and always with a point, else with an
exponent. -/
def toText (x : Binary64) : String :=
  let sign := if x.negative then "-" else ""
  if x.mantissa = 0 then sign ++ "0.0"
  else
    let (c, k) := x.shortest
    let digits := (toString c).toList
    let point := digits.length + k
    let zeros := fun n : Int => List.replicate n.toNat '0'
    let body :=
      if 0 ≤ k ∧ point ≤ 16 then digits ++ zeros k ++ ".0".toList
      else if 0 < point ∧ point ≤ 16 then
        digits.take point.toNat ++ '.' :: digits.drop point.toNat
      else if -5 < point ∧ point ≤ 0 then "0.".toList ++ zeros (-point) ++ digits
      else
        let tail := digits.drop 1
        digits.take 1 ++ (if tail.isEmpty then [] else '.' :: tail) ++
          'e' :: (toString (point - 1)).toList
    sign ++ String.ofList body

/-- The text with one decimal, a half to the even digit. -/
def toTenths (x : Binary64) : String :=
  let (num, den) := x.quotient
  let tenths := roundQuotient (num * 10) den
  (if x.negative then "-" else "") ++ toString (tenths / 10) ++ "." ++ toString (tenths % 10)

/-- Reads digits times a power of ten. The digits are rounded to a number first. -/
def ofDecimal (negative : Bool) (digits : Nat) (power : Int) : Binary64 :=
  let (num, den) := (ofQuotient negative digits 1).quotient
  let (tn, td) := tenTo power
  ofQuotient negative (num * tn) (den * td)

end Binary64

end Quartermaster
