import Quartermaster.Offer

/-!
# Ledgers

The running budget of one planning pass. Money can be spent, given back, or set aside; what is
set aside counts as gone until it is either spent for good or released.
-/

namespace Quartermaster

structure Ledger where
  /-- What has not been spent. -/
  holdings : Holdings
  /-- What of it is set aside. -/
  reserved : Holdings := .empty
  spent : Holdings := .empty
deriving DecidableEq

namespace Ledger

/-- The ledger of a player at the start of a pass. -/
def ofPlayer (p : Player) : Ledger := { holdings := p.holdings }

/-- What can still be spent or set aside. -/
def remaining (l : Ledger) : Holdings := l.holdings.subtract l.reserved

/-- What can still be spent or set aside of one currency. -/
def remainingOf (l : Ledger) (resource : ResourceId) : Int :=
  l.holdings.get resource - l.reserved.get resource

/-- Whether a price can be paid. -/
def covers (l : Ledger) (price : Holdings) : Bool := l.remaining.covers price

/-- Whether the batch of an offer can be paid. -/
def affords (l : Ledger) (o : Offer) : Bool := l.covers o.costs

/-- Pays for a batch. -/
def purchase (l : Ledger) (o : Offer) : Except Fault Ledger :=
  match l.remaining.shortfall? o.costs with
  | some short => .error (.insufficientResources short.resource short.required short.available)
  | none => .ok
    { l with holdings := l.holdings.subtract o.costs, spent := l.spent.add o.costs }

/-- Gives back the price of a batch. -/
def refund (l : Ledger) (o : Offer) : Ledger :=
  { l with holdings := l.holdings.add o.costs, spent := l.spent.subtract o.costs }

/-- Sets the price of a batch aside, if it can be paid. -/
def reserve? (l : Ledger) (o : Offer) : Option Ledger :=
  if l.affords o then some { l with reserved := l.reserved.add o.costs } else none

/-- Spends for good all that is set aside. -/
def confirm (l : Ledger) : Ledger :=
  { holdings := l.holdings.subtract l.reserved
    reserved := .empty
    spent := l.spent.add l.reserved }

/-- Releases all that is set aside. -/
def release (l : Ledger) : Ledger := { l with reserved := .empty }

/-- Whether no currency has anything left. -/
def isEmpty (l : Ledger) : Bool := l.remaining.amounts.values.all fun n => decide (n ≤ 0)

end Ledger

end Quartermaster
