/-!
# Words

A word of so many bits holds the numbers below a bound. Stored numbers, seeds, counts and the
steps of a fixed-point number are words.
-/

namespace Quartermaster

/-- How many values a word of so many bits has. -/
def wordValues (bits : Nat) : Nat := Nat.pow 2 bits

theorem wordValues_pos (bits : Nat) : 0 < wordValues bits :=
  Nat.pow_pos (by decide)

end Quartermaster
