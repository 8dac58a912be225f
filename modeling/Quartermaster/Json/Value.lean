import Quartermaster.Binary64

/-!
# JSON values

Whole numbers and other numbers are told apart. The members of an object keep their order.
-/

namespace Quartermaster

inductive Json where
  | null
  | bool (b : Bool)
  | integer (n : Int)
  | real (x : Binary64)
  | text (s : String)
  | array (items : List Json)
  | object (members : List (String × Json))

namespace Json

instance : Inhabited Json := ⟨null⟩

/-- The value of a member; of several with one name the last. -/
def member? (name : String) (members : List (String × Json)) : Option Json :=
  (members.reverse.find? fun m => m.1 == name).map Prod.snd

def natural (n : Nat) : Json := .integer n

/-- A value or `null`. -/
def optional {α : Type} (f : α → Json) : Option α → Json
  | some a => f a
  | none => .null

end Json

end Quartermaster
