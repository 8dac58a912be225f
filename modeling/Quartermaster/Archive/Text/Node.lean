/-!
# Nodes of the text form

The text form of stored data has words, numbers, strings, characters, lists, maps, and groups in
parentheses. A group may have a name before it; its items are either all named or all plain.
What a node stands for is decided by the reader of the value, not by the text alone.
-/

namespace Quartermaster.Archive

inductive Node where
  /-- A name alone. -/
  | word (name : String)
  /-- A number as it is written. -/
  | number (token : String)
  | text (s : String)
  | character (c : Char)
  /-- A group of named items. -/
  | record (name : Option String) (fields : List (String × Node))
  /-- A group of plain items. -/
  | tuple (name : Option String) (items : List Node)
  | list (items : List Node)
  | map (entries : List (Node × Node))

/-- Shorthands that a text may switch on for itself. -/
structure Dialect where
  /-- A value that may be absent is written without the word that says it is there. -/
  bareOptions : Bool := false
  /-- A wrapped value is written without its wrapping. -/
  bareWrappers : Bool := false
deriving DecidableEq, Repr, Inhabited

end Quartermaster.Archive
