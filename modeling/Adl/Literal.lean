import Adl.Json.Basic

/-!
# Literal — values as they are written in a schema

The values of annotations and defaults.  Objects keep the order and the repetitions of their
entries; `Literal.toJson` forgets both, while `Literal.tagged` is a faithful record of the
literal.  Two literals are the `same` if they differ at most in the sign of zeros.
-/

namespace Adl

/-- A written value. -/
inductive Literal where
  | null
  | integer (i : Int)
  | double (d : Double)
  | string (s : String)
  | boolean (b : Bool)
  | array (items : List Literal)
  | object (entries : List (String × Literal))

namespace Literal

instance : Inhabited Literal := ⟨.null⟩

/-! ### Equality -/

mutual

/-- Equality of literals, where numbers are compared as numbers. -/
def same : Literal → Literal → Bool
  | null, null => true
  | integer i, integer j => i == j
  | double d, double e => d.sameNumber e
  | string s, string t => s == t
  | boolean b, boolean c => b == c
  | array xs, array ys => sameItems xs ys
  | object xs, object ys => sameEntries xs ys
  | _, _ => false

/-- Equality of lists of literals. -/
def sameItems : List Literal → List Literal → Bool
  | [], [] => true
  | x :: xs, y :: ys => same x y && sameItems xs ys
  | _, _ => false

/-- Equality of lists of entries. -/
def sameEntries : List (String × Literal) → List (String × Literal) → Bool
  | [], [] => true
  | (k, x) :: xs, (l, y) :: ys => k == l && same x y && sameEntries xs ys
  | _, _ => false

end

/-! ### Encodings -/

mutual

/-- The JSON value that a literal looks like: keys in order, the last entry of each key. -/
def toJson : Literal → Json
  | null => .null
  | integer i =>
    if -0x8000000000000000 ≤ i ∧ i < 0x10000000000000000 then .integer i
    else .double (Double.ofInt i)
  | double d => if d.isFinite then .double d else .null
  | string s => .string s
  | boolean b => .bool b
  | array items => .array (itemsToJson items)
  | object entries => .sorted (entriesToJson entries)

/-- The JSON values of a list of literals. -/
def itemsToJson : List Literal → List Json
  | [] => []
  | item :: items => toJson item :: itemsToJson items

/-- The JSON values of a list of entries. -/
def entriesToJson : List (String × Literal) → List (String × Json)
  | [] => []
  | (key, value) :: entries => (key, toJson value) :: entriesToJson entries

end

/-- An object with a tag and a value. -/
def tag (kind : String) (value : Json) : Json :=
  .object [("kind", .string kind), ("value", value)]

mutual

/-- The record of a literal: its kind and, except for `null`, its value. -/
def tagged : Literal → Json
  | null => .object [("kind", .string "null")]
  | integer i => tag "integer" (.integer i)
  | double d => tag "double" (.double d)
  | string s => tag "string" (.string s)
  | boolean b => tag "boolean" (.bool b)
  | array items => tag "array" (.array (taggedItems items))
  | object entries => tag "object" (.array (taggedEntries entries))

/-- The records of a list of literals. -/
def taggedItems : List Literal → List Json
  | [] => []
  | item :: items => tagged item :: taggedItems items

/-- The records of a list of entries, pairs of key and literal. -/
def taggedEntries : List (String × Literal) → List Json
  | [] => []
  | (key, value) :: entries =>
    .object [("v1", .string key), ("v2", tagged value)] :: taggedEntries entries

end

end Literal

end Adl
