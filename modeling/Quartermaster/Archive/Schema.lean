import Quartermaster.Archive.Bytes
import Quartermaster.Archive.Text.Node
import Quartermaster.Archive.Text.Number
import Quartermaster.Ident
import Quartermaster.Json.Value
import Quartermaster.SortedMap

/-!
# Schemas

A schema says how the values of a type are stored, in three forms at once: as bytes, as JSON, and
as nodes of the text form. In each form it has a writer and a reader. Schemas of larger types are
put together from those of their parts, so that one description serves all three forms.

Bytes carry no names: the fields of a record follow each other, and a reader leaves the bytes
after the value. In JSON and in text a record may leave out fields that have a default and may
have fields that nobody asks for; in text a field may not be given twice. JSON may also list the
fields of a record in order, without names.
-/

namespace Quartermaster.Archive

/-- Writers and readers of a type's three stored forms. -/
structure Schema (α : Type) where
  toBytes : α → List UInt8
  ofBytes : List UInt8 → Option (α × List UInt8)
  toJson : α → Json
  ofJson : Json → Option α
  toNode : α → Node
  ofNode : Dialect → Node → Option α

/-- A schema of keys, which are names in JSON objects. -/
structure KeySchema (κ : Type) extends Schema κ where
  toName : κ → String
  ofName : String → Option κ

namespace Schema

variable {α β κ : Type}

/-! ## Numbers, truth values, text -/

/-- Natural numbers of so many bytes. -/
def natural (width : Nat) : Schema Nat where
  toBytes := writeNat width
  ofBytes := readNat width
  toJson n := .integer n
  ofJson
    | .integer n => if 0 ≤ n ∧ n < byteValues width then some n.toNat else none
    | _ => none
  toNode n := .number (toString n)
  ofNode _
    | .number token => do
      let n ← naturalOf? token.toList
      if n < byteValues width then some n else none
    | _ => none

/-- Whether a whole number fits so many bytes. -/
def fitsInt (width : Nat) (n : Int) : Bool :=
  decide (-(byteValues width : Int) ≤ 2 * n ∧ 2 * n < byteValues width)

/-- Whole numbers of so many bytes. -/
def integer (width : Nat) : Schema Int where
  toBytes := writeInt width
  ofBytes := readInt width
  toJson := .integer
  ofJson
    | .integer n => if fitsInt width n then some n else none
    | _ => none
  toNode n := .number (toString n)
  ofNode _
    | .number token => do
      let n ← integerOf? token.toList
      if fitsInt width n then some n else none
    | _ => none

/-- Truth values, one byte each. -/
def bool : Schema Bool where
  toBytes b := [if b then 1 else 0]
  ofBytes
    | 0 :: rest => some (false, rest)
    | 1 :: rest => some (true, rest)
    | _ => none
  toJson := .bool
  ofJson
    | .bool b => some b
    | _ => none
  toNode b := .word (if b then "true" else "false")
  ofNode _
    | .word "true" => some true
    | .word "false" => some false
    | _ => none

def text : Schema String where
  toBytes := writeString
  ofBytes := readString
  toJson := .text
  ofJson
    | .text s => some s
    | _ => none
  toNode := .text
  ofNode _
    | .text s => some s
    | _ => none

/-! ## Collections -/

/-- A value that may be absent. -/
def optional (s : Schema α) : Schema (Option α) where
  toBytes
    | none => [0]
    | some a => 1 :: s.toBytes a
  ofBytes
    | 0 :: rest => some (none, rest)
    | 1 :: rest => (s.ofBytes rest).map fun (a, rest) => (some a, rest)
    | _ => none
  toJson
    | none => .null
    | some a => s.toJson a
  ofJson
    | .null => some none
    | j => (s.ofJson j).map some
  toNode
    | none => .word "None"
    | some a => .tuple (some "Some") [s.toNode a]
  ofNode d
    | .word "None" => some none
    | .tuple (some "Some") [n] => (s.ofNode d n).map some
    | n => if d.bareOptions then (s.ofNode d n).map some else none

/-- Values one after the other, behind their count. -/
def list (s : Schema α) : Schema (List α) where
  toBytes as := writeNat wordWidth as.length ++ as.flatMap s.toBytes
  ofBytes bytes := do
    let (n, rest) ← readNat wordWidth bytes
    readMany s.ofBytes n rest
  toJson as := .array (as.map s.toJson)
  ofJson
    | .array js => js.mapM s.ofJson
    | _ => none
  toNode as := .list (as.map s.toNode)
  ofNode d
    | .list ns => ns.mapM (s.ofNode d)
    | _ => none

/-- The same stored forms for another type with the same values. -/
def via (s : Schema α) (view : α → β) (of : β → α) : Schema β where
  toBytes b := s.toBytes (of b)
  ofBytes bytes := (s.ofBytes bytes).map fun (a, rest) => (view a, rest)
  toJson b := s.toJson (of b)
  ofJson j := (s.ofJson j).map view
  toNode b := s.toNode (of b)
  ofNode d n := (s.ofNode d n).map view

/-- Sets, in ascending order; members that are read twice are one. -/
def set [Key κ] (s : Schema κ) : Schema (SortedSet κ) :=
  (list s).via SortedSet.ofList SortedSet.toList

/-- Two values, one after the other. -/
def pair (s : Schema α) (t : Schema β) : Schema (α × β) where
  toBytes p := s.toBytes p.1 ++ t.toBytes p.2
  ofBytes bytes := do
    let (a, rest) ← s.ofBytes bytes
    let (b, rest) ← t.ofBytes rest
    return ((a, b), rest)
  toJson p := .array [s.toJson p.1, t.toJson p.2]
  ofJson
    | .array [a, b] => do return (← s.ofJson a, ← t.ofJson b)
    | _ => none
  toNode p := .tuple none [s.toNode p.1, t.toNode p.2]
  ofNode d
    | .tuple none [a, b] => do return (← s.ofNode d a, ← t.ofNode d b)
    | _ => none

/-- Maps, in ascending order of keys; of two entries with one key the later stays. -/
def map [Key κ] (k : KeySchema κ) (s : Schema β) : Schema (SortedMap κ β) where
  toBytes m := (list (pair k.toSchema s)).toBytes m.entries
  ofBytes bytes :=
    ((list (pair k.toSchema s)).ofBytes bytes).map fun (es, rest) => (.ofList es, rest)
  toJson m := .object (m.entries.map fun e => (k.toName e.1, s.toJson e.2))
  ofJson
    | .object members => do
      return .ofList (← members.mapM fun e => do return (← k.ofName e.1, ← s.ofJson e.2))
    | _ => none
  toNode m := .map (m.entries.map fun e => (k.toNode e.1, s.toNode e.2))
  ofNode d
    | .map entries => do
      return .ofList (← entries.mapM fun e => do return (← k.ofNode d e.1, ← s.ofNode d e.2))
    | _ => none

/-! ## Wrappers and choices -/

/-- Whether a group may stand for a type: it has no name, or the type's. -/
def accepts (typeName : String) (name : Option String) : Bool := name.all (· == typeName)

/-- A value in a wrapper, which only the text form shows. -/
def wrapped (typeName : String) (s : Schema α) : Schema α :=
  { s with
    toNode := fun a => .tuple none [s.toNode a]
    ofNode := fun d n =>
      if d.bareWrappers then s.ofNode d n
      else match n with
        | .tuple name [inner] => if accepts typeName name then s.ofNode d inner else none
        | _ => none }

/-- One of the forms of a value: a name alone, or a name with a count. -/
inductive Variant (α : Type) where
  | plain (name : String) (value : α)
  | counted (name : String) (build : Nat → α)

def Variant.name : Variant α → String
  | .plain name _ => name
  | .counted name _ => name

/-- The width of a variant's index and of its count. -/
def variantWidth : Nat := 4

/-- Counts of variants. -/
def variantCount : Schema Nat := natural variantWidth

/-- The variant with a name. -/
def variant? (variants : List (Variant α)) (name : String) : Option (Variant α) :=
  variants.find? fun v => v.name == name

/-- Values of one of several forms. `index` and `count` take a value apart. -/
def choice (variants : List (Variant α)) (index count : α → Nat) : Schema α where
  toBytes a :=
    writeNat variantWidth (index a) ++
      match variants[index a]? with
      | some (.counted _ _) => variantCount.toBytes (count a)
      | _ => []
  ofBytes bytes := do
    let (i, rest) ← readNat variantWidth bytes
    match ← variants[i]? with
    | .plain _ a => return (a, rest)
    | .counted _ build => (variantCount.ofBytes rest).map fun (n, rest) => (build n, rest)
  toJson a :=
    match variants[index a]? with
    | some (.plain name _) => .text name
    | some (.counted name _) => .object [(name, variantCount.toJson (count a))]
    | none => .null
  ofJson
    | .text name =>
      match variant? variants name with
      | some (.plain _ a) => some a
      | _ => none
    | .object [(name, j)] =>
      match variant? variants name, j with
      | some (.plain _ a), .null => some a
      | some (.counted _ build), j => (variantCount.ofJson j).map build
      | _, _ => none
    | _ => none
  toNode a :=
    match variants[index a]? with
    | some (.plain name _) => .word name
    | some (.counted name _) => .tuple (some name) [variantCount.toNode (count a)]
    | none => .word ""
  ofNode d
    | .word name =>
      match variant? variants name with
      | some (.plain _ a) => some a
      | _ => none
    | .tuple (some name) [n] =>
      match variant? variants name with
      | some (.counted _ build) => (variantCount.ofNode d n).map build
      | _ => none
    | _ => none

end Schema

/-! ## Records -/

/-- Writers and readers of the fields of a record, as nested pairs. -/
structure Fields (α : Type) where
  names : List String
  toBytes : α → List UInt8
  ofBytes : List UInt8 → Option (α × List UInt8)
  toJson : α → List (String × Json)
  ofJson : List (String × Json) → Option α
  /-- From values in order; the values left over come with it. -/
  ofItems : List Json → Option (α × List Json)
  toNodes : α → List (String × Node)
  ofNodes : Dialect → List (String × Node) → Option α

namespace Fields

variable {α β : Type}

/-- No fields. -/
def done : Fields Unit where
  names := []
  toBytes _ := []
  ofBytes bytes := some ((), bytes)
  toJson _ := []
  ofJson _ := some ()
  ofItems js := some ((), js)
  toNodes _ := []
  ofNodes _ _ := some ()

/-- The field of a name, read by `read`, or the default of a field that is not there. -/
def readOr {γ δ : Type} (read : γ → Option δ) (default : Option δ) : Option γ → Option δ
  | some g => read g
  | none => default

/-- One more field in front. -/
def add (name : String) (s : Schema α) (default : Option α) (rest : Fields β) :
    Fields (α × β) where
  names := name :: rest.names
  toBytes x := s.toBytes x.1 ++ rest.toBytes x.2
  ofBytes bytes := do
    let (a, bytes) ← s.ofBytes bytes
    let (b, bytes) ← rest.ofBytes bytes
    return ((a, b), bytes)
  toJson x := (name, s.toJson x.1) :: rest.toJson x.2
  ofJson members := do
    return (← readOr s.ofJson default (Json.member? name members), ← rest.ofJson members)
  ofItems js := do
    let a ← readOr s.ofJson default js.head?
    let (b, js) ← rest.ofItems js.tail
    return ((a, b), js)
  toNodes x := (name, s.toNode x.1) :: rest.toNodes x.2
  ofNodes d nodes := do
    return (← readOr (s.ofNode d) default (nodes.lookup name), ← rest.ofNodes d nodes)

/-- A field that has to be there. -/
def field (name : String) (s : Schema α) (rest : Fields β) : Fields (α × β) :=
  add name s none rest

/-- A field with a default. -/
def fieldOr (name : String) (s : Schema α) (default : α) (rest : Fields β) : Fields (α × β) :=
  add name s (some default) rest

end Fields

/-- Whether a name stands at most once in a list of named nodes. -/
def atMostOnce (nodes : List (String × Node)) (name : String) : Bool :=
  decide ((nodes.countP fun n => n.1 == name) ≤ 1)

/-- Records with these fields. -/
def Schema.record {α : Type} (typeName : String) (fs : Fields α) : Schema α where
  toBytes := fs.toBytes
  ofBytes := fs.ofBytes
  toJson a := .object (fs.toJson a)
  ofJson
    | .object members => fs.ofJson members
    | .array items =>
      match fs.ofItems items with
      | some (a, []) => some a
      | _ => none
    | _ => none
  toNode a := .record none (fs.toNodes a)
  ofNode d
    | .record name nodes =>
      if Schema.accepts typeName name && fs.names.all (atMostOnce nodes) then fs.ofNodes d nodes
      else none
    | .tuple name [] => if Schema.accepts typeName name then fs.ofNodes d [] else none
    | _ => none

/-! ## Types with one schema -/

/-- Types whose values are stored in one way. -/
class Stored (α : Type) where
  schema : Schema α

namespace Stored

variable {α β : Type}

instance : Stored Bool := ⟨.bool⟩
instance : Stored String := ⟨.text⟩
instance [Stored α] : Stored (List α) := ⟨.list schema⟩
instance [Stored α] : Stored (Option α) := ⟨.optional schema⟩
instance [Stored α] [Stored β] : Stored (α × β) := ⟨.pair schema schema⟩

def toJson [Stored α] (a : α) : Json := Schema.toJson schema a

def ofJson? [Stored α] (j : Json) : Option α := Schema.ofJson schema j

end Stored

/-! ## Identifiers -/

/-- The number that a name in a JSON object is: digits only, and none in front that says
nothing. -/
def naturalName? (width : Nat) (name : String) : Option Nat :=
  let digits := name.toList
  if digits.isEmpty || !digits.all Char.isDigit ||
      (decide (1 < digits.length) && digits.head? == some '0') then none
  else do
    let n ← foldDigits? 10 0 digits
    if n < byteValues width then some n else none

/-- Identifiers of a sort, as numbers of so many bytes. -/
def identSchema (typeName : String) (noun : Noun) (width : Nat) : KeySchema (Ident noun) where
  toSchema := (Schema.wrapped typeName (Schema.natural width)).via Ident.mk Ident.number
  toName i := toString i.number
  ofName name := (naturalName? width name).map Ident.mk

end Quartermaster.Archive
