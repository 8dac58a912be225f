import Quartermaster.Json.Value

/-!
# Writing JSON

`render` writes a value on one line without spaces. `pretty` gives every item and member a line
of its own, two spaces deeper than the brackets around it.
-/

namespace Quartermaster.Json

/-- A hexadecimal digit in lower case. -/
def hexDigit (n : Nat) : Char := (Nat.digitChar n).toLower

/-- The shortest escape of a character in a string; most stand for themselves. -/
def escape (c : Char) : List Char :=
  if c = '"' then ['\\', '"']
  else if c = '\\' then ['\\', '\\']
  else if c = '\n' then ['\\', 'n']
  else if c = '\r' then ['\\', 'r']
  else if c = '\t' then ['\\', 't']
  else if c = '\x08' then ['\\', 'b']
  else if c = '\x0c' then ['\\', 'f']
  else if c.toNat < 32 then ['\\', 'u', '0', '0', hexDigit (c.toNat / 16), hexDigit (c.toNat % 16)]
  else [c]

def quote (s : String) : String := "\"" ++ String.ofList (s.toList.flatMap escape) ++ "\""

mutual

/-- A value on one line. -/
def render : Json → String
  | .null => "null"
  | .bool b => if b then "true" else "false"
  | .integer n => toString n
  | .real x => x.toText
  | .text s => quote s
  | .array items => "[" ++ String.intercalate "," (renderItems items) ++ "]"
  | .object members => "\x7b" ++ String.intercalate "," (renderMembers members) ++ "\x7d"

def renderItems : List Json → List String
  | [] => []
  | j :: js => render j :: renderItems js

def renderMembers : List (String × Json) → List String
  | [] => []
  | (name, j) :: ms => (quote name ++ ":" ++ render j) :: renderMembers ms

end

/-- Brackets around lines, which are indented one level; none leaves the brackets together. -/
def bracket (left right indent : String) (lines : List String) : String :=
  if lines.isEmpty then left ++ right
  else
    let inner := "\n" ++ indent ++ "  "
    left ++ inner ++ String.intercalate ("," ++ inner) lines ++ "\n" ++ indent ++ right

mutual

/-- A value over several lines, the first of which is already indented. -/
def prettyAt (indent : String) : Json → String
  | .array items => bracket "[" "]" indent (prettyItems (indent ++ "  ") items)
  | .object members => bracket "\x7b" "\x7d" indent (prettyMembers (indent ++ "  ") members)
  | .null => "null"
  | .bool b => if b then "true" else "false"
  | .integer n => toString n
  | .real x => x.toText
  | .text s => quote s

def prettyItems (indent : String) : List Json → List String
  | [] => []
  | j :: js => prettyAt indent j :: prettyItems indent js

def prettyMembers (indent : String) : List (String × Json) → List String
  | [] => []
  | (name, j) :: ms => (quote name ++ ": " ++ prettyAt indent j) :: prettyMembers indent ms

end

def pretty (j : Json) : String := prettyAt "" j

end Quartermaster.Json
