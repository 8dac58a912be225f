/-!
# Numbers of the text form

A whole number has an optional sign, an optional mark of its base (`0x`, `0o`, `0b`), and digits
among which underscores may stand, though not in front. A decimal number has a fraction or a
power of ten and no underscores.
-/

namespace Quartermaster.Archive

/-- The value of a digit in the largest base. -/
def digitValue? (c : Char) : Option Nat :=
  if '0' ≤ c ∧ c ≤ '9' then some (c.toNat - '0'.toNat)
  else if 'a' ≤ c ∧ c ≤ 'f' then some (c.toNat - 'a'.toNat + 10)
  else if 'A' ≤ c ∧ c ≤ 'F' then some (c.toNat - 'A'.toNat + 10)
  else none

/-- The number of digits in a base, after those read so far; underscores are passed over. -/
def foldDigits? (base : Nat) (n : Nat) : List Char → Option Nat
  | [] => some n
  | '_' :: cs => foldDigits? base n cs
  | c :: cs => do
    let d ← digitValue? c
    if d < base then foldDigits? base (n * base + d) cs else none

/-- The base that a token names, and its digits. -/
def splitBase : List Char → Nat × List Char
  | '0' :: 'x' :: cs => (16, cs)
  | '0' :: 'o' :: cs => (8, cs)
  | '0' :: 'b' :: cs => (2, cs)
  | cs => (10, cs)

/-- The natural number of a token without sign. -/
def naturalOf? (token : List Char) : Option Nat :=
  let (base, digits) := splitBase token
  match digits with
  | [] | '_' :: _ => none
  | _ => foldDigits? base 0 digits

/-- The whole number of a token. -/
def integerOf? : List Char → Option Int
  | '+' :: cs => (naturalOf? cs).map (↑·)
  | '-' :: cs => (naturalOf? cs).map fun n => -(n : Int)
  | cs => (naturalOf? cs).map (↑·)

/-- Drops a sign. -/
def dropSign : List Char → List Char
  | '+' :: cs => cs
  | '-' :: cs => cs
  | cs => cs

/-- Whether characters are a decimal number without sign: digits with or without a point among
them, and perhaps a power of ten. -/
def isDecimal (cs : List Char) : Bool :=
  let whole := cs.takeWhile Char.isDigit
  let rest := cs.dropWhile Char.isDigit
  let (fraction, rest) := match rest with
    | '.' :: rest => (rest.takeWhile Char.isDigit, rest.dropWhile Char.isDigit)
    | _ => ([], rest)
  let power := match rest with
    | [] => true
    | c :: rest =>
      let digits := dropSign rest
      (c == 'e' || c == 'E') && !digits.isEmpty && digits.all Char.isDigit
  !(whole.isEmpty && fraction.isEmpty) && power

/-- Whether a token is a number of either sort. -/
def isNumber (token : List Char) : Bool :=
  (integerOf? token).isSome || isDecimal (dropSign token)

/-- The characters that a number runs on with. -/
def isNumberChar (c : Char) : Bool :=
  (digitValue? c).isSome || c == '_' || c == '.' || c == '+' || c == '-' || c == 'x' || c == 'o'

end Quartermaster.Archive
