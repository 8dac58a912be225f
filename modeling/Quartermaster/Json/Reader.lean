import Quartermaster.Json.Value

/-!
# Reading JSON

Every reader gives what it found together with the text after it. A text is one value with
blanks around it. Brackets nest at most 128 deep. A number without point and exponent that fits
64 bits is a whole number; every other is rounded.
-/

namespace Quartermaster.Json

def isBlank (c : Char) : Bool := c == ' ' || c == '\n' || c == '\t' || c == '\r'

def skipBlanks (cs : List Char) : List Char := cs.dropWhile isBlank

/-- Reads these characters. -/
def expect : List Char → List Char → Option (List Char)
  | [], cs => some cs
  | e :: es, c :: cs => if e = c then expect es cs else none
  | _ :: _, [] => none

/-! ## Strings -/

def hexValue? (c : Char) : Option Nat :=
  if '0' ≤ c ∧ c ≤ '9' then some (c.toNat - '0'.toNat)
  else if 'a' ≤ c ∧ c ≤ 'f' then some (c.toNat - 'a'.toNat + 10)
  else if 'A' ≤ c ∧ c ≤ 'F' then some (c.toNat - 'A'.toNat + 10)
  else none

/-- The number of four hexadecimal digits. -/
def hex4 : List Char → Option (Nat × List Char)
  | a :: b :: c :: d :: rest => do
    let a ← hexValue? a
    let b ← hexValue? b
    let c ← hexValue? c
    let d ← hexValue? d
    return (((a * 16 + b) * 16 + c) * 16 + d, rest)
  | _ => none

/-- The character after a `\u`; a code above the first plane is written as two halves. -/
def unicode (cs : List Char) : Option (Char × List Char) := do
  let (n, rest) ← hex4 cs
  if 0xD800 ≤ n ∧ n < 0xDC00 then
    let rest ← expect ['\\', 'u'] rest
    let (m, rest) ← hex4 rest
    if 0xDC00 ≤ m ∧ m < 0xE000 then
      return (Char.ofNat (0x10000 + (n - 0xD800) * 0x400 + (m - 0xDC00)), rest)
    else none
  else if 0xDC00 ≤ n ∧ n < 0xE000 then none
  else return (Char.ofNat n, rest)

/-- The character after a backslash. -/
def escaped : List Char → Option (Char × List Char)
  | '"' :: rest => some ('"', rest)
  | '\\' :: rest => some ('\\', rest)
  | '/' :: rest => some ('/', rest)
  | 'b' :: rest => some ('\x08', rest)
  | 'f' :: rest => some ('\x0c', rest)
  | 'n' :: rest => some ('\n', rest)
  | 'r' :: rest => some ('\r', rest)
  | 't' :: rest => some ('\t', rest)
  | 'u' :: rest => unicode rest
  | _ => none

/-- The rest of a string up to its closing quote, with what was read so far in reverse. -/
def stringRest : Nat → List Char → List Char → Option (String × List Char)
  | 0, _, _ => none
  | _ + 1, _, [] => none
  | fuel + 1, acc, c :: cs =>
    if c = '"' then some (String.ofList acc.reverse, cs)
    else if c = '\\' then do
      let (e, rest) ← escaped cs
      stringRest fuel (e :: acc) rest
    else if c.toNat < 32 then none
    else stringRest fuel (c :: acc) cs

/-- A string whose opening quote has been read. -/
def string (cs : List Char) : Option (String × List Char) := stringRest (cs.length + 1) [] cs

/-! ## Numbers -/

/-- Appends digits to a number as long as it fits 64 bits; gives how many were taken. -/
def appendDigits (n : Nat) : List Char → Nat × Nat
  | [] => (n, 0)
  | c :: cs =>
    let m := n * 10 + (c.toNat - '0'.toNat)
    if m < wordValues 64 then
      let (r, taken) := appendDigits m cs
      (r, taken + 1)
    else (n, 0)

/-- The power of ten after an `e`, with its sign. -/
def exponentPart (cs : List Char) : Option (Int × List Char) := do
  let (negative, cs) := match cs with
    | '-' :: rest => (true, rest)
    | '+' :: rest => (false, rest)
    | _ => (false, cs)
  let digits := cs.takeWhile Char.isDigit
  if digits.isEmpty then none
  let n : Int := (String.ofList digits).toNat!
  return (if negative then -n else n, cs.dropWhile Char.isDigit)

/-- The fraction after the whole part, if there is one. -/
def fractionPart : List Char → Option (List Char × List Char)
  | '.' :: cs =>
    let digits := cs.takeWhile Char.isDigit
    if digits.isEmpty then none else some (digits, cs.dropWhile Char.isDigit)
  | cs => some ([], cs)

/-- The exponent after the fraction, if there is one. -/
def exponentOf : List Char → Option (Option Int × List Char)
  | c :: cs =>
    if c = 'e' ∨ c = 'E' then (exponentPart cs).map fun (n, rest) => (some n, rest)
    else some (none, c :: cs)
  | [] => some (none, [])

/-- Powers of ten that are too large to be written as a number. -/
def powerBound : Int := 400

/-- A rounded number from its digits before and after the point and its exponent. Digits that
64 bits cannot hold are dropped. -/
def realOf? (negative : Bool) (whole fraction : List Char) (power : Int) : Option Json :=
  let (n, takenWhole) := appendDigits 0 whole
  let dropped := whole.length - takenWhole
  let (n, takenFraction) := if dropped = 0 then appendDigits n fraction else (n, 0)
  let power := power + dropped - takenFraction
  if n = 0 ∨ power < -powerBound then some (.real { Binary64.zero with negative })
  else if powerBound < power then none
  else some (.real (.ofDecimal negative n power))

/-- A number. -/
def number (cs : List Char) : Option (Json × List Char) := do
  let (negative, cs) := match cs with
    | '-' :: rest => (true, rest)
    | _ => (false, cs)
  let whole := cs.takeWhile Char.isDigit
  if whole.isEmpty ∨ (1 < whole.length ∧ whole.head? = some '0') then none
  let (fraction, rest) ← fractionPart (cs.dropWhile Char.isDigit)
  let (power, rest) ← exponentOf rest
  let n := (appendDigits 0 whole).1
  let isWhole := fraction.isEmpty && power.isNone &&
    decide ((appendDigits 0 whole).2 = whole.length) &&
    (!negative || decide (0 < n ∧ n ≤ wordValues 63))
  if isWhole then return (.integer (if negative then -n else n), rest)
  else return (← realOf? negative whole fraction (power.getD 0), rest)

/-! ## Values -/

/-- Items between commas, up to a closing bracket; the opening one has been read, and at least
one item has to follow. -/
def items {α : Type} (item : List Char → Option (α × List Char)) (close : Char) :
    Nat → List Char → Option (List α × List Char)
  | 0, _ => none
  | fuel + 1, cs => do
    let (a, rest) ← item (skipBlanks cs)
    match skipBlanks rest with
    | c :: rest =>
      if c = ',' then do
        let (as, rest) ← items item close fuel rest
        return (a :: as, rest)
      else if c = close then return ([a], rest)
      else none
    | [] => none

/-- Items between brackets, the opening one of which has been read. -/
def listOf {α : Type} (item : List Char → Option (α × List Char)) (close : Char) (cs : List Char) :
    Option (List α × List Char) :=
  match skipBlanks cs with
  | c :: rest => if c = close then some ([], rest) else items item close cs.length (c :: rest)
  | [] => none

/-- A member of an object, its value read by `value`. -/
def memberOf (value : List Char → Option (Json × List Char)) :
    List Char → Option ((String × Json) × List Char)
  | '"' :: cs => do
    let (name, rest) ← string cs
    let rest ← expect [':'] (skipBlanks rest)
    let (j, rest) ← value (skipBlanks rest)
    return ((name, j), rest)
  | _ => none

/-- A value whose brackets nest at most so deep; no blanks stand before it. -/
def value : Nat → List Char → Option (Json × List Char)
  | _, 'n' :: cs => (expect ['u', 'l', 'l'] cs).map (.null, ·)
  | _, 't' :: cs => (expect ['r', 'u', 'e'] cs).map (.bool true, ·)
  | _, 'f' :: cs => (expect ['a', 'l', 's', 'e'] cs).map (.bool false, ·)
  | _, '"' :: cs => (string cs).map fun (s, rest) => (.text s, rest)
  | depth + 1, '[' :: cs => (listOf (value depth) ']' cs).map fun (js, rest) => (.array js, rest)
  | depth + 1, '\x7b' :: cs =>
    (listOf (memberOf (value depth)) '\x7d' cs).map fun (ms, rest) => (.object ms, rest)
  | _, cs => number cs

/-- How deep brackets may nest. -/
def depthLimit : Nat := 127

/-- The value that a text is. -/
def parse? (s : String) : Option Json := do
  let (j, rest) ← value depthLimit (skipBlanks s.toList)
  if (skipBlanks rest).isEmpty then return j else none

end Quartermaster.Json
