import Quartermaster.Archive.Text.Node
import Quartermaster.Archive.Text.Number

/-!
# Reading the text form

Between tokens stand blanks, comments to the end of the line, and comments in `/*` and `*/`,
which nest. Items are separated by commas, and one more comma may follow the last. A text begins
with the shorthands it switches on, and is one value.

Every reader gives what it found together with the text after it. Brackets nest at most 128
deep.
-/

namespace Quartermaster.Archive.Text

/-! ## Blanks and comments -/

def isBlank (c : Char) : Bool := c == ' ' || c == '\n' || c == '\t' || c == '\r'

/-- The text after a comment in which so many are open. -/
def closeComment : Nat → List Char → Option (List Char)
  | level, '/' :: '*' :: cs => closeComment (level + 1) cs
  | level, '*' :: '/' :: cs => if level ≤ 1 then some cs else closeComment (level - 1) cs
  | level, _ :: cs => closeComment level cs
  | _, [] => none

/-- Passes over blanks and at most so many comments. -/
def skipFrom : Nat → List Char → Option (List Char)
  | 0, _ => none
  | fuel + 1, cs =>
    match cs.dropWhile isBlank with
    | '/' :: '/' :: rest => skipFrom fuel (rest.dropWhile (· != '\n'))
    | '/' :: '*' :: rest => (closeComment 1 rest).bind (skipFrom fuel)
    | '/' :: _ => none
    | rest => some rest

/-- Passes over blanks and comments. A stroke that begins no comment, or a comment without end,
is refused. -/
def skip (cs : List Char) : Option (List Char) := skipFrom (cs.length + 1) cs

/-- Reads these characters. -/
def expect : List Char → List Char → Option (List Char)
  | [], cs => some cs
  | e :: es, c :: cs => if e = c then expect es cs else none
  | _ :: _, [] => none

/-! ## Names -/

def isLetter (c : Char) : Bool := c.isAlpha || c == '_'

def isNameChar (c : Char) : Bool := c.isAlphanum || c == '_'

/-- The characters of a name that is marked as raw. -/
def isRawChar (c : Char) : Bool := isNameChar c || c == '.' || c == '+' || c == '-'

/-- A name that is not marked; a character that only a raw name can have may not follow. -/
def plainName (cs : List Char) : Option (String × List Char) :=
  let rest := cs.dropWhile isNameChar
  if rest.head?.any isRawChar then none
  else some (String.ofList (cs.takeWhile isNameChar), rest)

/-- A name. -/
def name : List Char → Option (String × List Char)
  | 'r' :: '#' :: c :: cs =>
    if isRawChar c then
      some (String.ofList ((c :: cs).takeWhile isRawChar), (c :: cs).dropWhile isRawChar)
    else none
  | 'r' :: '#' :: [] => none
  | 'r' :: '"' :: _ => none
  | c :: cs => if isLetter c then plainName (c :: cs) else none
  | [] => none

/-! ## Strings -/

/-- The number of the hexadecimal digits up to a closing brace, at most six, after those read so
far. -/
def bracedHex (n : Nat) : Nat → List Char → Option (Nat × List Char)
  | _, '\x7d' :: cs => some (n, cs)
  | 0, _ => none
  | _, [] => none
  | more + 1, c :: cs => do
    let d ← digitValue? c
    bracedHex (n * 16 + d) more cs

/-- The character of a code. -/
def characterOf? (n : Nat) : Option Char :=
  if n.isValidChar then some (Char.ofNat n) else none

/-- The character after a backslash. -/
def escaped : List Char → Option (Char × List Char)
  | '\'' :: cs => some ('\'', cs)
  | '"' :: cs => some ('"', cs)
  | '\\' :: cs => some ('\\', cs)
  | 'n' :: cs => some ('\n', cs)
  | 'r' :: cs => some ('\r', cs)
  | 't' :: cs => some ('\t', cs)
  | '0' :: cs => some ('\x00', cs)
  | 'x' :: a :: b :: cs => do
    return (Char.ofNat ((← digitValue? a) * 16 + (← digitValue? b)), cs)
  | 'u' :: '\x7b' :: c :: cs =>
    if c = '\x7d' then none
    else do
      let (n, rest) ← bracedHex 0 6 (c :: cs)
      return (← characterOf? n, rest)
  | _ => none

/-- The rest of a string up to its closing quote, with what was read so far in reverse. -/
def stringRest : Nat → List Char → List Char → Option (String × List Char)
  | 0, _, _ => none
  | _ + 1, _, [] => none
  | fuel + 1, acc, c :: cs =>
    if c = '"' then some (String.ofList acc.reverse, cs)
    else if c = '\\' then do
      let (e, rest) ← escaped cs
      stringRest fuel (e :: acc) rest
    else stringRest fuel (c :: acc) cs

/-- The rest of a raw string up to a quote with so many marks after it. -/
def rawRest (marks : List Char) (acc : List Char) : List Char → Option (String × List Char)
  | [] => none
  | c :: cs =>
    match if c = '"' then expect marks cs else none with
    | some rest => some (String.ofList acc.reverse, rest)
    | none => rawRest marks (c :: acc) cs

/-- A raw string after its `r`. -/
def rawString (cs : List Char) : Option (String × List Char) :=
  let marks := cs.takeWhile (· == '#')
  match cs.dropWhile (· == '#') with
  | '"' :: rest => rawRest marks [] rest
  | _ => none

/-- A character after its opening quote. -/
def characterRest : List Char → Option (Char × List Char)
  | '\\' :: cs => do
    let (c, rest) ← escaped cs
    return (c, ← expect ['\''] rest)
  | c :: '\'' :: cs => if c = '\'' then none else some (c, cs)
  | _ => none

/-! ## Values -/

/-- Items up to a closing bracket. -/
def items {α : Type} (item : List Char → Option (α × List Char)) (close : Char) :
    Nat → List Char → Option (List α × List Char)
  | 0, _ => none
  | fuel + 1, cs => do
    match ← skip cs with
    | [] => none
    | c :: rest =>
      if c = close then return ([], rest)
      else
        let (a, rest) ← item (c :: rest)
        match ← skip rest with
        | [] => none
        | c :: rest =>
          if c = ',' then
            let (as, rest) ← items item close fuel rest
            return (a :: as, rest)
          else if c = close then return ([a], rest)
          else none

/-- A colon and what `value` reads after it. -/
def afterColon {α : Type} (value : List Char → Option (α × List Char)) (cs : List Char) :
    Option (α × List Char) := do
  let rest ← expect [':'] (← skip cs)
  value (← skip rest)

/-- A named item. -/
def field {α : Type} (value : List Char → Option (α × List Char)) (cs : List Char) :
    Option ((String × α) × List Char) := do
  let (n, rest) ← name cs
  let (a, rest) ← afterColon value rest
  return ((n, a), rest)

/-- An entry of a map. -/
def entry {α : Type} (value : List Char → Option (α × List Char)) (cs : List Char) :
    Option ((α × α) × List Char) := do
  let (k, rest) ← value cs
  let (a, rest) ← afterColon value rest
  return ((k, a), rest)

/-- Whether the items of a group are named: a name and a colon come first. -/
def startsField (cs : List Char) : Option Bool :=
  match name cs with
  | none => some false
  | some (_, rest) => do
    match ← skip rest with
    | [] => none
    | c :: _ => return c == ':'

/-- The words that stand for values and take no group. -/
def isValueWord (n : String) : Bool :=
  n == "None" || n == "true" || n == "false" || n == "inf" || n == "NaN"

/-- A group with the name before it; the word for a present value takes exactly one item. -/
def named? (n : String) : Node → Option Node
  | .record _ fields =>
    if isValueWord n || n == "Some" then none else some (.record (some n) fields)
  | .tuple _ items =>
    if isValueWord n || (n == "Some" && items.length != 1) then none
    else some (.tuple (some n) items)
  | _ => none

/-- A group whose opening bracket has been read. -/
def group (value : List Char → Option (Node × List Char)) (cs : List Char) :
    Option (Node × List Char) := do
  let cs ← skip cs
  if ← startsField cs then
    let (fields, rest) ← items (field value) ')' (cs.length + 1) cs
    return (.record none fields, rest)
  else
    let (nodes, rest) ← items value ')' (cs.length + 1) cs
    return (.tuple none nodes, rest)

/-- A number. -/
def number (cs : List Char) : Option (Node × List Char) :=
  let token := cs.takeWhile isNumberChar
  if isNumber token then some (.number (String.ofList token), cs.dropWhile isNumberChar) else none

/-- A value that begins with a name. `inner` reads a group; at the deepest level there is none. -/
def worded (inner : List Char → Option (Node × List Char)) (cs : List Char) :
    Option (Node × List Char) := do
  let (n, rest) ← name cs
  let rest ← skip rest
  match rest with
  | '(' :: cs =>
    let (node, rest) ← inner cs
    return (← named? n node, rest)
  | _ => if n = "Some" then none else return (.word n, rest)

/-- A value that no mark begins: a word, perhaps before a group, a raw string or a number. -/
def unmarked (inner : List Char → Option (Node × List Char)) (cs : List Char) :
    Option (Node × List Char) :=
  match worded inner cs with
  | some found => some found
  | none =>
    match cs with
    | 'r' :: rest => (rawString rest).map fun (s, rest) => (.text s, rest)
    | _ => number cs

/-- A value whose brackets nest at most so deep; no blanks stand before it. -/
def value : Nat → List Char → Option (Node × List Char)
  | _, '"' :: cs => (stringRest (cs.length + 1) [] cs).map fun (s, rest) => (.text s, rest)
  | _, '\'' :: cs => (characterRest cs).map fun (c, rest) => (.character c, rest)
  | depth + 1, '(' :: cs => group (value depth) cs
  | depth + 1, '[' :: cs =>
    (items (value depth) ']' (cs.length + 1) cs).map fun (ns, rest) => (.list ns, rest)
  | depth + 1, '\x7b' :: cs =>
    (items (entry (value depth)) '\x7d' (cs.length + 1) cs).map fun (es, rest) => (.map es, rest)
  | 0, cs => unmarked (fun _ => none) cs
  | depth + 1, cs => unmarked (group (value depth)) cs

/-- How deep brackets may nest. -/
def depthLimit : Nat := 128

/-! ## Whole texts -/

/-- Switches a shorthand on by its name. -/
def enable? (d : Dialect) (n : String) : Option Dialect :=
  if n = "implicit_some" then some { d with bareOptions := true }
  else if n = "unwrap_newtypes" then some { d with bareWrappers := true }
  else none

/-- The names in an attribute, up to its closing bracket. -/
def enabled : Nat → Dialect → List Char → Option (Dialect × List Char)
  | 0, _, _ => none
  | fuel + 1, d, cs => do
    let (n, rest) ← name cs
    let d ← enable? d n
    let rest ← skip rest
    match rest with
    | ',' :: rest =>
      let rest ← skip rest
      if rest.head?.any isNameChar then enabled fuel d rest else return (d, rest)
    | _ => return (d, rest)

/-- Reads these tokens with blanks after each. -/
def expectAll : List String → List Char → Option (List Char)
  | [], cs => some cs
  | t :: ts, cs => do
    expectAll ts (← skip (← expect t.toList cs))

/-- The attributes at the start of a text, at most so many. -/
def attributes : Nat → Dialect → List Char → Option (Dialect × List Char)
  | 0, _, _ => none
  | fuel + 1, d, cs => do
    let cs ← skip cs
    match cs with
    | '#' :: _ =>
      let rest ← expectAll ["#", "!", "[", "enable", "("] cs
      let (d, rest) ← enabled (rest.length + 1) d rest
      attributes fuel d (← expectAll [")", "]"] rest)
    | _ => return (d, cs)

/-- The shorthands of a text and its value. -/
def parse? (s : String) : Option (Dialect × Node) := do
  let cs := s.toList
  let (d, rest) ← attributes (cs.length + 1) {} cs
  let (node, rest) ← value depthLimit rest
  if (← skip rest).isEmpty then return (d, node) else none

end Quartermaster.Archive.Text
