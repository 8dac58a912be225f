import Quartermaster.Ident
import Quartermaster.SortedMap

/-!
# Holdings

Amounts of several currencies, as held by a player or asked by a price. A currency that has no
entry counts as zero; an entry of zero stays an entry.

Stored amounts are numbers of 32 bits with sign, but here they are reckoned exactly: no sum,
difference or multiple of holdings overflows, whatever it comes to. That is true to the words as
long as each result fits one (`FitsSigned`). A pass that starts with such amounts keeps to them if
no price is negative; a rule that pays its buyer may lead beyond.
-/

namespace Quartermaster

/-- An amount for each currency that has an entry. -/
structure Holdings where
  amounts : SortedMap ResourceId Int
deriving DecidableEq

namespace Holdings

def empty : Holdings := ⟨.empty⟩

instance : Inhabited Holdings := ⟨empty⟩

/-- Holdings of one currency. -/
def single (resource : ResourceId) (amount : Int) : Holdings :=
  ⟨SortedMap.empty.insert resource amount⟩

/-- The amount held of a currency. -/
def get (h : Holdings) (resource : ResourceId) : Int := (h.amounts.get? resource).getD 0

def set (h : Holdings) (resource : ResourceId) (amount : Int) : Holdings :=
  ⟨h.amounts.insert resource amount⟩

/-- The entries in currency order. -/
def entries (h : Holdings) : List (ResourceId × Int) := h.amounts.entries

/-- Adds to one currency, entering it if it is missing. -/
def credit (h : Holdings) (resource : ResourceId) (amount : Int) : Holdings :=
  ⟨h.amounts.update resource fun held => held.getD 0 + amount⟩

/-- Enters the pairs; those of one currency add up. -/
def ofList (pairs : List (ResourceId × Int)) : Holdings :=
  pairs.foldl (fun h p => h.credit p.1 p.2) empty

def add (h other : Holdings) : Holdings :=
  other.entries.foldl (fun h p => h.credit p.1 p.2) h

/-- Takes every amount away; amounts may become negative. -/
def subtract (h other : Holdings) : Holdings :=
  other.entries.foldl (fun h p => h.credit p.1 (-p.2)) h

def times (h : Holdings) (factor : Int) : Holdings := ⟨h.amounts.map (· * factor)⟩

/-- Whether every currency of a price is covered. -/
def covers (h price : Holdings) : Bool :=
  price.entries.all fun p => decide (p.2 ≤ h.get p.1)

/-- A currency of which a price asks more than there is. -/
structure Shortfall where
  resource : ResourceId
  required : Int
  available : Int
deriving DecidableEq, Repr

/-- The first currency that a price is short of. -/
def shortfall? (h price : Holdings) : Option Shortfall :=
  price.entries.findSome? fun p =>
    if h.get p.1 < p.2 then some ⟨p.1, p.2, h.get p.1⟩ else none

/-- Whether every amount is zero. -/
def isEmpty (h : Holdings) : Bool := h.amounts.values.all (· == 0)

def total (h : Holdings) : Int := h.amounts.values.foldr (· + ·) 0

end Holdings

end Quartermaster
