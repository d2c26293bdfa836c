import Adl.Number.Layout
import Adl.Text.Quoted

/-!
# Json — data texts

`Json` is the data that texts in JSON denote: objects keep the order in which their members are
written.  `Json.sorted` builds the object of a finite map, its keys in increasing order, where the
last of several members with one key counts.  `Json.compact` and `Json.pretty` write a value; a
number that is not finite is written as `null`.
-/

namespace Adl

/-- A JSON value. -/
inductive Json where
  | null
  | bool (b : Bool)
  | integer (i : Int)
  | double (d : Double)
  | string (s : String)
  | array (items : List Json)
  | object (members : List (String × Json))

namespace Json

instance : Inhabited Json := ⟨.null⟩

/-! ### Objects of finite maps -/

/-- Puts a member into a list sorted by key, in place of one with the same key. -/
def insertSorted (key : String) (value : Json) : List (String × Json) → List (String × Json)
  | [] => [(key, value)]
  | (k, v) :: rest =>
    if key < k then (key, value) :: (k, v) :: rest
    else if key = k then (key, value) :: rest
    else (k, v) :: insertSorted key value rest

/-- The members in increasing order of keys; the last one of each key is kept. -/
def sortMembers (members : List (String × Json)) : List (String × Json) :=
  members.foldl (fun sorted (k, v) => insertSorted k v sorted) []

/-- The object of a finite map given by its members. -/
def sorted (members : List (String × Json)) : Json := .object (sortMembers members)

/-! ### Writing -/

/-- The text of a number; JSON has no text for an infinite one. -/
def doubleText (d : Double) : String := if d.isFinite then Layout.data.text d else "null"

mutual

/-- The text of a value without blanks. -/
def compact : Json → String
  | null => "null"
  | bool b => if b then "true" else "false"
  | integer i => toString i
  | double d => doubleText d
  | string s => Text.quote s
  | array items => "[" ++ compactItems items ++ "]"
  | object members => "\x7b" ++ compactMembers members ++ "\x7d"

/-- The items of an array, separated by commas. -/
def compactItems : List Json → String
  | [] => ""
  | [item] => compact item
  | item :: items => compact item ++ "," ++ compactItems items

/-- The members of an object, separated by commas. -/
def compactMembers : List (String × Json) → String
  | [] => ""
  | [(key, value)] => Text.quote key ++ ":" ++ compact value
  | (key, value) :: members =>
    Text.quote key ++ ":" ++ compact value ++ "," ++ compactMembers members

end

/-- A line break followed by two blanks for each level. -/
def newline (level : Nat) : String := "\n" ++ String.ofList (List.replicate (2 * level) ' ')

mutual

/-- The text of a value over several lines, at a level of nesting. -/
def prettyAt (level : Nat) : Json → String
  | array [] => "[]"
  | array items => "[" ++ prettyItems (level + 1) items ++ newline level ++ "]"
  | object [] => "\x7b\x7d"
  | object members => "\x7b" ++ prettyMembers (level + 1) members ++ newline level ++ "\x7d"
  | scalar => compact scalar

/-- The items of an array, each on a line of its own. -/
def prettyItems (level : Nat) : List Json → String
  | [] => ""
  | [item] => newline level ++ prettyAt level item
  | item :: items => newline level ++ prettyAt level item ++ "," ++ prettyItems level items

/-- The members of an object, each on a line of its own. -/
def prettyMembers (level : Nat) : List (String × Json) → String
  | [] => ""
  | [(key, value)] => newline level ++ Text.quote key ++ ": " ++ prettyAt level value
  | (key, value) :: members =>
    newline level ++ Text.quote key ++ ": " ++ prettyAt level value ++ "," ++
      prettyMembers level members

end

/-- The text of a value over several lines. -/
def pretty (j : Json) : String := prettyAt 0 j

end Json

end Adl
