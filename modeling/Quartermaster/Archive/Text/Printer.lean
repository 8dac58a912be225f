import Quartermaster.Archive.Text.Hidden
import Quartermaster.Archive.Text.Node

/-!
# Writing the text form

Every field, entry and item of a list has a line of its own, four spaces deeper than the bracket
around it, with a comma at its end. A plain group is written on the line it begins on, so that a
wrapped map keeps its indentation.
-/

namespace Quartermaster.Archive.Text

/-- The hexadecimal digits of a number, in lower case. -/
def hexDigits (n : Nat) : List Char := Nat.toDigits 16 n

/-- A character inside quotes. -/
def escape (c : Char) : List Char :=
  if c = '"' then ['\\', '"']
  else if c = '\'' then ['\\', '\'']
  else if c = '\\' then ['\\', '\\']
  else if c = '\n' then ['\\', 'n']
  else if c = '\r' then ['\\', 'r']
  else if c = '\t' then ['\\', 't']
  else if c = '\x00' then ['\\', '0']
  else if isHidden c then ['\\', 'u', '\x7b'] ++ hexDigits c.toNat ++ ['\x7d']
  else [c]

def quote (s : String) : List Char := '"' :: s.toList.flatMap escape ++ ['"']

/-- The blanks at the start of a line at a depth. -/
def indent (depth : Nat) : List Char := List.replicate (4 * depth) ' '

/-- Lines between brackets, one level deeper; none leaves the brackets together. -/
def block (left right : Char) (depth : Nat) (lines : List (List Char)) : List Char :=
  if lines.isEmpty then [left, right]
  else
    left :: '\n' :: lines.flatMap (fun l => indent (depth + 1) ++ l ++ [',', '\n']) ++
      indent depth ++ [right]

/-- The name before a group. -/
def label (name : Option String) : List Char := (name.getD "").toList

/-- Items on one line. -/
def joinItems : List (List Char) → List Char
  | [] => []
  | [item] => item
  | item :: items => item ++ [',', ' '] ++ joinItems items

mutual

/-- A node whose line begins at a depth. -/
def render (depth : Nat) : Node → List Char
  | .word name => name.toList
  | .number token => token.toList
  | .text s => quote s
  | .character c => '\'' :: escape c ++ ['\'']
  | .record name fields => label name ++ block '(' ')' depth (renderFields (depth + 1) fields)
  | .tuple name items => label name ++ '(' :: joinItems (renderItems depth items) ++ [')']
  | .list items => block '[' ']' depth (renderItems (depth + 1) items)
  | .map entries => block '\x7b' '\x7d' depth (renderEntries (depth + 1) entries)

def renderItems (depth : Nat) : List Node → List (List Char)
  | [] => []
  | n :: ns => render depth n :: renderItems depth ns

def renderFields (depth : Nat) : List (String × Node) → List (List Char)
  | [] => []
  | (name, n) :: fs => (name.toList ++ [':', ' '] ++ render depth n) :: renderFields depth fs

def renderEntries (depth : Nat) : List (Node × Node) → List (List Char)
  | [] => []
  | (k, n) :: es => (render depth k ++ [':', ' '] ++ render depth n) :: renderEntries depth es

end

/-- The text of a node. -/
def print (n : Node) : String := String.ofList (render 0 n)

end Quartermaster.Archive.Text
