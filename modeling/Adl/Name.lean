/-!
# Name — names of modules and declarations

A declaration is named by its module and its own name.  A written name splits at its last dot:
everything before it is the module.
-/

namespace Adl

/-- The text before the last dot of a list of characters and the text behind it. -/
def splitLastDot : List Char → Option (List Char × List Char)
  | [] => none
  | c :: cs =>
    match splitLastDot cs with
    | some (front, back) => some (c :: front, back)
    | none => if c = '.' then some ([], cs) else none

/-- A written name split at its last dot, if it has one. -/
def splitName (name : String) : Option String × String :=
  match splitLastDot name.toList with
  | some (front, back) => (some (String.ofList front), String.ofList back)
  | none => (none, name)

/-- The first name that occurs earlier in a list, or is among those seen before it. -/
def firstRepeated (seen : List String) : List String → Option String
  | [] => none
  | name :: names => if name ∈ seen then some name else firstRepeated (name :: seen) names

/-- The name of a declaration together with that of its module. -/
structure ScopedName where
  module : String
  name : String
  deriving DecidableEq, Repr, Hashable

namespace ScopedName

/-- The dotted text of a name. -/
def text (n : ScopedName) : String := n.module ++ "." ++ n.name

/-- The order of names: by module, then by name. -/
def before (a b : ScopedName) : Bool :=
  a.module < b.module || (a.module == b.module && a.name < b.name)

/-- The name that a dotted text denotes; without a dot the module is empty. -/
def ofText (text : String) : ScopedName :=
  match splitName text with
  | (module, name) => ⟨module.getD "", name⟩

end ScopedName

end Adl
