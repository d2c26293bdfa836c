import Adl.Json.Basic
import Adl.Number.Numeral

/-!
# Node — the structure of a JSON text

`Node.parse?` reads a text into a tree whose leaves are not yet judged: a number is kept as
written, and a string whose surrogates are not paired is kept as a string without value.  Whoever
looks at a leaf decides what it needs of it, so a member that nobody looks at may hold a number
beyond all ranges.
-/

namespace Adl.Json

/-- A JSON text as a tree. -/
inductive Node where
  | null
  | bool (b : Bool)
  | number (n : Numeral)
  | string (s : Option String)
  | array (items : List Node)
  | object (members : List (Option String × Node))

namespace Node

/-! ### Reading -/

/-- The blanks of JSON texts. -/
def isBlank (c : Char) : Bool := c == ' ' || c == '\n' || c == '\t' || c == '\r'

/-- The text behind its leading blanks. -/
def skipBlanks (cs : List Char) : List Char := cs.dropWhile isBlank

/-- Cuts off the characters of a quoted text, closing quote included, behind its opening quote. -/
def scanQuoted : List Char → Option (List Char × List Char)
  | [] => none
  | '"' :: rest => some (['"'], rest)
  | '\\' :: 'u' :: a :: b :: c :: d :: rest =>
    match Text.unit? a b c d with
    | some _ =>
      (scanQuoted rest).map fun (s, r) => ('\\' :: 'u' :: a :: b :: c :: d :: s, r)
    | none => none
  | '\\' :: c :: rest =>
    match Text.shortEscape? c with
    | some _ => (scanQuoted rest).map fun (s, r) => ('\\' :: c :: s, r)
    | none => none
  | c :: rest =>
    if c.toNat < 32 ∨ c = '\\' then none else (scanQuoted rest).map fun (s, r) => (c :: s, r)

/-- Reads a string behind its opening quote. -/
def parseString (cs : List Char) : Option (Option String × List Char) :=
  (scanQuoted cs).map fun (raw, rest) =>
    match Text.unquoteRest 1 raw with
    | .ok (s, _) => (some (String.ofList s), rest)
    | .error _ => (none, rest)

/-- Reads a number; a leading zero has no digit behind it. -/
def parseNumber (cs : List Char) : Option (Node × List Char) :=
  match Numeral.scan? Text.isAsciiDigit cs with
  | some (n, rest) =>
    if n.whole.head? = some '0' ∧ n.whole.length ≠ 1 then none else some (number n, rest)
  | none => none

mutual

/-- Reads a value without leading blanks. -/
def parseValue : Nat → List Char → Option (Node × List Char)
  | 0, _ => none
  | _, 'n' :: 'u' :: 'l' :: 'l' :: rest => some (null, rest)
  | _, 't' :: 'r' :: 'u' :: 'e' :: rest => some (bool true, rest)
  | _, 'f' :: 'a' :: 'l' :: 's' :: 'e' :: rest => some (bool false, rest)
  | _, '"' :: rest => (parseString rest).map fun (s, r) => (string s, r)
  | fuel + 1, '[' :: rest =>
    match skipBlanks rest with
    | ']' :: rest => some (array [], rest)
    | rest => (parseItems fuel rest).map fun (items, r) => (array items, r)
  | fuel + 1, '\x7b' :: rest =>
    match skipBlanks rest with
    | '\x7d' :: rest => some (object [], rest)
    | rest => (parseMembers fuel rest).map fun (members, r) => (object members, r)
  | _, cs => parseNumber cs

/-- Reads the items of an array up to its closing bracket. -/
def parseItems : Nat → List Char → Option (List Node × List Char)
  | 0, _ => none
  | fuel + 1, cs => do
    let (item, rest) ← parseValue fuel cs
    match skipBlanks rest with
    | ']' :: rest => return ([item], rest)
    | ',' :: rest =>
      let (items, rest) ← parseItems fuel (skipBlanks rest)
      return (item :: items, rest)
    | _ => none

/-- Reads the members of an object up to its closing brace. -/
def parseMembers : Nat → List Char → Option (List (Option String × Node) × List Char)
  | 0, _ => none
  | fuel + 1, cs => do
    let '"' :: rest := cs | none
    let (key, rest) ← parseString rest
    let ':' :: rest := skipBlanks rest | none
    let (value, rest) ← parseValue fuel (skipBlanks rest)
    match skipBlanks rest with
    | '\x7d' :: rest => return ([(key, value)], rest)
    | ',' :: rest =>
      let (members, rest) ← parseMembers fuel (skipBlanks rest)
      return ((key, value) :: members, rest)
    | _ => none

end

/-- Reads a text that holds one value and nothing else. -/
def parse? (text : String) : Option Node := do
  let cs := text.toList
  let (node, rest) ← parseValue (cs.length + 1) (skipBlanks cs)
  if (skipBlanks rest).isEmpty then return node else none

end Node

end Adl.Json
