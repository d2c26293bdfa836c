import Adl.Literal
import Adl.Name
import Adl.Token.Basic

/-!
# Module — schema modules as written

The tree of a schema text before any name is looked up.  Every type, member, declaration and
imported module knows where it was written.
-/

namespace Adl.Source

/-- A type as written: a name, perhaps qualified by a module, with arguments. -/
inductive TypeExpr where
  | mk (name : String) (args : List TypeExpr) (position : Position)

namespace TypeExpr

/-- The name as written. -/
def name : TypeExpr → String
  | mk name _ _ => name

/-- The arguments. -/
def args : TypeExpr → List TypeExpr
  | mk _ args _ => args

mutual

/-- The modules that qualify names in a type, at any depth. -/
def qualifiers : TypeExpr → List String
  | mk name args _ => (splitName name).1.toList ++ qualifiersOf args

/-- The modules that qualify names in a list of types. -/
def qualifiersOf : List TypeExpr → List String
  | [] => []
  | t :: ts => t.qualifiers ++ qualifiersOf ts

end

end TypeExpr

/-- An annotation: a name as written and a value. -/
structure AnnotationEntry where
  name : String
  value : Literal

/-- What an import brings into scope: all declarations of a module, or one. -/
inductive ImportKind where
  | all
  | name (name : String)
  deriving DecidableEq, Repr

/-- An import of a module. -/
structure Import where
  module : String
  kind : ImportKind
  position : Position
  deriving DecidableEq, Repr

/-- A field of a struct, an alternative of a union, or a label of an enum, which has type
`Void`. -/
structure Member where
  name : String
  serializedName : String
  type : TypeExpr
  default : Option Literal
  annotations : List AnnotationEntry
  position : Position

/-- The body of a declaration. -/
inductive Body where
  | struct (members : List Member)
  | union (members : List Member)
  | enum (members : List Member)
  | alias (target : TypeExpr)
  | newtype (target : TypeExpr) (default : Option Literal)

/-- A declaration. -/
structure Decl where
  name : String
  typeParams : List String
  annotations : List AnnotationEntry
  body : Body
  position : Position

namespace Decl

/-- The members of a declaration, in order. -/
def members (d : Decl) : List Member :=
  match d.body with
  | .struct ms => ms
  | .union ms => ms
  | .enum ms => ms
  | .alias _ => []
  | .newtype _ _ => []

/-- The types of the members of a declaration, or its target. -/
def types (d : Decl) : List TypeExpr :=
  match d.body with
  | .struct ms => ms.map Member.type
  | .union ms => ms.map Member.type
  | .enum ms => ms.map Member.type
  | .alias target => [target]
  | .newtype target _ => [target]

end Decl

/-- A module. -/
structure Module where
  name : String
  imports : List Import
  decls : List Decl
  annotations : List AnnotationEntry

namespace Module

/-- The imported modules in the order of their imports. -/
def imported (m : Module) : List String := m.imports.map Import.module

/-- Puts a text into a sorted list without repetitions. -/
def insertName (name : String) : List String → List String
  | [] => [name]
  | n :: ns =>
    if name < n then name :: n :: ns
    else if name = n then n :: ns
    else n :: insertName name ns

/-- The modules named in qualified types, sorted and without repetitions. -/
def referenced (m : Module) : List String :=
  (m.decls.flatMap fun d => d.types.flatMap TypeExpr.qualifiers).foldl
    (fun names n => insertName n names) []

end Module

end Adl.Source
