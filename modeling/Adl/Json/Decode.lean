import Adl.Json.Node

/-!
# Decode — reading records from JSON texts

A record is an object with a member for each of its fields, in any order and among others, or the
array of its fields in order.  A tagged value is an object with a `kind` and a `value`, or the
array of the two.  The `kind` is the tag, or an object that maps the tag to nothing; in an array
only the tag itself will do.  Containers nest at most `maxDepth` deep.

When the value stands before its tag, it has to be kept until the tag is known.  A kept value is
read completely, members that nobody looks at included, and its numbers are then those of
`toNumber?`: integers in it cannot be read as such any more (`Reading.kept`).  In an array that was
kept, the tag may be its place among all tags.
-/

namespace Adl.Json

/-- How many containers may be nested. -/
def maxDepth : Nat := 127

/-- The state of a reader: how many containers may still be entered, and whether the node was kept
while its tag was not known. -/
structure Reading where
  depth : Nat
  kept : Bool

/-- The reader of a whole text. -/
def Reading.start : Reading := ⟨maxDepth, false⟩

/-- The reader inside a container; there is none at the greatest depth.  What is kept has been
measured before. -/
def Reading.enter (r : Reading) : Option Reading :=
  if r.kept then some r
  else match r.depth with
    | 0 => none
    | depth + 1 => some { r with depth }

namespace Node

/-! ### Leaves -/

/-- The value of a written number: an integer if it is written as one and fits a 64-bit word, else
the nearest floating point number.  Negative zero is no integer. -/
def toNumber? (n : Numeral) : Option Json :=
  if n.isInteger then
    let i := n.toInt
    if n.negative ∧ i < 0 ∧ -0x8000000000000000 ≤ i then some (.integer i)
    else if ¬ n.negative ∧ i ≤ Numeral.maxWord then some (.integer i)
    else (n.toDoubleByWord?).map .double
  else (n.toDoubleByWord?).map .double

mutual

/-- The value of a tree all of whose leaves have one, nested at most `depth` deep. -/
def toJson? (depth : Nat) : Node → Option Json
  | null => some .null
  | bool b => some (.bool b)
  | number n => toNumber? n
  | string s => s.map .string
  | array items =>
    match depth with
    | 0 => none
    | depth + 1 => (toItems? depth items).map .array
  | object members =>
    match depth with
    | 0 => none
    | depth + 1 => (toMembers? depth members).map .sorted

/-- The values of the items of an array. -/
def toItems? (depth : Nat) : List Node → Option (List Json)
  | [] => some []
  | item :: items => do return (← toJson? depth item) :: (← toItems? depth items)

/-- The values of the members of an object. -/
def toMembers? (depth : Nat) : List (Option String × Node) → Option (List (String × Json))
  | [] => some []
  | (key, value) :: members => do
    return (← key, ← toJson? depth value) :: (← toMembers? depth members)

end

/-- Any value. -/
def asJson (r : Reading) (node : Node) : Option Json :=
  if r.kept then node.toJson? maxDepth else node.toJson? r.depth

/-- A string. -/
def asString : Node → Option String
  | string s => s
  | _ => none

/-- A truth value. -/
def asBool : Node → Option Bool
  | bool b => some b
  | _ => none

/-- An integer of 128 bits, which only a node that was not kept can be. -/
def asInteger (r : Reading) : Node → Option Int
  | number n =>
    let i := n.toInt
    if ¬ r.kept ∧ n.isInteger ∧ -0x8000_0000_0000_0000_0000_0000_0000_0000 ≤ i ∧
        i < 0x8000_0000_0000_0000_0000_0000_0000_0000 then some i
    else none
  | _ => none

/-- A natural number of 32 bits. -/
def asWord32 : Node → Option Nat
  | number n =>
    match toNumber? n with
    | some (.integer i) => if 0 ≤ i ∧ i < 0x100000000 then some i.toNat else none
    | _ => none
  | _ => none

/-- A floating point number, which may be written as an integer. -/
def asDouble : Node → Option Double
  | number n =>
    match toNumber? n with
    | some (.integer i) => some (Double.ofInt i)
    | some (.double d) => some d
    | _ => none
  | _ => none

/-! ### Containers -/

/-- The items of an array, with the reader for them. -/
def asArray (r : Reading) : Node → Option (Reading × List Node)
  | array items => do return (← r.enter, items)
  | _ => none

/-- The values of the named members, `none` for a missing one; a name must not occur twice. -/
def selectMembers (names : List String) (members : List (Option String × Node)) :
    Option (List (Option Node)) :=
  if members.any (·.1.isNone) then none
  else names.mapM fun name =>
    match members.filter (·.1 == some name) with
    | [] => some none
    | [(_, node)] => some (some node)
    | _ => none

/-- The fields of a record in the order of their names, `none` for a missing one. -/
def asFields (names : List String) (r : Reading) : Node → Option (Reading × List (Option Node))
  | object members => do return (← r.enter, ← selectMembers names members)
  | array items => do
    let r ← r.enter
    if names.length < items.length then none
    else return (r, items.map some ++ List.replicate (names.length - items.length) none)
  | _ => none

/-- The fields of a record that lacks none. -/
def asRecord (names : List String) (r : Reading) (node : Node) :
    Option (Reading × List Node) := do
  let (r, fields) ← node.asFields names r
  return (r, ← fields.mapM id)

/-- Whether a node denotes nothing; a kept one may also be an empty object. -/
def isNothing (r : Reading) : Node → Bool
  | null => true
  | object [] => r.kept
  | _ => false

/-- The tag of an object. -/
def asTag (r : Reading) : Node → Option String
  | string s => s
  | object [(key, value)] => do
    let _ ← r.enter
    if value.isNothing r then key else none
  | _ => none

/-- The tag of an array, which is one of `tags` or, in an array that was kept, its place there. -/
def asPlacedTag (tags : List String) (r : Reading) : Node → Option String
  | string s => s
  | number n =>
    match toNumber? n with
    | some (.integer i) => if r.kept ∧ 0 ≤ i then tags[i.toNat]? else none
    | _ => none
  | _ => none

/-- Whether the first member named `kind` or `value` is named `value`. -/
def valueFirst (members : List (Option String × Node)) : Bool :=
  match members.find? fun (key, _) => key == some "kind" || key == some "value" with
  | some (key, _) => key == some "value"
  | none => false

/-- The tag and the value of a tagged value, with the reader for the value; `tags` are all tags
that it may have. -/
def asTagged (tags : List String) (r : Reading) : Node → Option (Reading × String × Option Node)
  | object members => do
    let r ← r.enter
    let fields ← selectMembers ["kind", "value"] members
    let [some tag, value] := fields | none
    let tag ← tag.asTag r
    match value with
    | none => return (r, tag, none)
    | some node =>
      if valueFirst members ∧ ¬ r.kept then
        let _ ← node.toJson? r.depth
        return (⟨0, true⟩, tag, some node)
      else return (r, tag, some node)
  | array [tag, value] => do
    let r ← r.enter
    return (r, ← tag.asPlacedTag tags r, some value)
  | _ => none

end Node

end Adl.Json
