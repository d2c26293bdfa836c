import Adl.Model.Basic

/-!
# Value — what literals denote

A value knows which declaration, member and alternative every part of it belongs to.
`Value.toLiteral` is its canonical literal: all fields of a struct are present, in the order of
their declaration; an alternative without payload and a label are bare strings; a newtype does not
show.
-/

namespace Adl

/-- A typed value. -/
inductive Value where
  | void
  | bool (b : Bool)
  | int (i : Int)
  | word (n : Nat)
  | float (d : Double)
  | string (s : String)
  | bytes (bytes : List UInt8)
  | json (l : Literal)
  | vector (items : List Value)
  | stringMap (entries : List (String × Value))
  | absent
  | present (v : Value)
  | struct (decl : DeclId) (fields : List Value)
  | union (decl : DeclId) (alternative : Nat) (v : Value)
  | enum (decl : DeclId) (label : Nat)
  | newtype (decl : DeclId) (v : Value)

namespace Value

instance : Inhabited Value := ⟨.void⟩

/-- Whether a value carries nothing. -/
def isVoid : Value → Bool
  | void => true
  | _ => false

/-- The serialized name of a member of a declaration. -/
def memberName (set : ModuleSet) (decl : DeclId) (index : Nat) : String :=
  ((set.decl decl).members[index]?.map Member.serializedName).getD ""

mutual

/-- The canonical literal of a value. -/
def toLiteral (set : ModuleSet) : Value → Literal
  | void => .null
  | bool b => .boolean b
  | int i => .integer i
  | word n => .integer n
  | float d => .double d
  | string s => .string s
  | bytes b => .string (Base64.encode b)
  | json l => l
  | vector items => .array (toLiterals set items)
  | stringMap entries => .object (toEntries set entries)
  | absent => .null
  | present v => toLiteral set v
  | struct decl fields =>
    .object (((set.decl decl).members.map Member.serializedName).zip (toLiterals set fields))
  | union decl alternative v =>
    if v.isVoid then .string (memberName set decl alternative)
    else .object [(memberName set decl alternative, toLiteral set v)]
  | enum decl label => .string (memberName set decl label)
  | newtype _ v => toLiteral set v

/-- The canonical literals of a list of values. -/
def toLiterals (set : ModuleSet) : List Value → List Literal
  | [] => []
  | v :: vs => toLiteral set v :: toLiterals set vs

/-- The canonical literals of a list of entries. -/
def toEntries (set : ModuleSet) : List (String × Value) → List (String × Literal)
  | [] => []
  | (key, v) :: entries => (key, toLiteral set v) :: toEntries set entries

end

end Value

end Adl
