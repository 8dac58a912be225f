import Quartermaster.Word

/-!
# Numbers as bytes

Numbers are written in a fixed count of bytes, the least significant first; negative numbers as
their two's complement. A reader gives what it found with the bytes after it.
-/

namespace Quartermaster.Archive

/-- The count of values that so many bytes have. -/
def byteValues (width : Nat) : Nat := wordValues (8 * width)

/-- A natural number in so many bytes; what does not fit is cut off. -/
def writeNat : Nat → Nat → List UInt8
  | 0, _ => []
  | width + 1, n => UInt8.ofNat (n % 256) :: writeNat width (n / 256)

/-- A natural number from so many bytes. -/
def readNat : Nat → List UInt8 → Option (Nat × List UInt8)
  | 0, bytes => some (0, bytes)
  | _ + 1, [] => none
  | width + 1, b :: bytes => do
    let (n, rest) ← readNat width bytes
    return (b.toNat + 256 * n, rest)

/-- A whole number in so many bytes. -/
def writeInt (width : Nat) (n : Int) : List UInt8 :=
  writeNat width (n % (byteValues width : Int)).toNat

/-- A whole number from so many bytes; the upper half of the values stands for the negative
numbers. -/
def readInt (width : Nat) (bytes : List UInt8) : Option (Int × List UInt8) := do
  let (n, rest) ← readNat width bytes
  return (if 2 * n < byteValues width then (n : Int) else (n : Int) - byteValues width, rest)

/-- The width of a length, and of the larger numbers. -/
def wordWidth : Nat := 8

/-- So many values, one after the other. -/
def readMany {α : Type} (read : List UInt8 → Option (α × List UInt8)) :
    Nat → List UInt8 → Option (List α × List UInt8)
  | 0, bytes => some ([], bytes)
  | n + 1, bytes => do
    let (a, rest) ← read bytes
    let (as, rest) ← readMany read n rest
    return (a :: as, rest)

/-- Text as its length in bytes and then its encoding. -/
def writeString (s : String) : List UInt8 :=
  writeNat wordWidth s.utf8ByteSize ++ s.toUTF8.toList

/-- Text; bytes that encode none are refused. -/
def readString (bytes : List UInt8) : Option (String × List UInt8) := do
  let (n, rest) ← readNat wordWidth bytes
  if rest.length < n then none
  let s ← String.fromUTF8? ⟨(rest.take n).toArray⟩
  return (s, rest.drop n)

end Quartermaster.Archive
