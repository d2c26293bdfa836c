import Adl.Literal
import Adl.Name
import Adl.Text.Escaped

/-!
# Decl — self-contained records of declarations

The form in which a checked declaration leaves the compiler: names are spelled out, types refer to
declarations by name, defaults are canonical literals and annotations are JSON.
-/

namespace Adl.Schema

/-- What a type expression applies. -/
inductive TypeRef where
  | primitive (name : String)
  | typeParam (name : String)
  | reference (name : ScopedName)
  deriving DecidableEq, Repr

/-- A type expression: a head applied to parameters. -/
inductive TypeExpr where
  | mk (head : TypeRef) (parameters : List TypeExpr)

namespace TypeExpr

instance : Inhabited TypeExpr := ⟨mk (.primitive "Void") []⟩

/-- The head of a type expression. -/
def head : TypeExpr → TypeRef
  | mk head _ => head

/-- The parameters of a type expression. -/
def parameters : TypeExpr → List TypeExpr
  | mk _ parameters => parameters

end TypeExpr

/-- Annotations: JSON values under scoped names. -/
abbrev Annotations := List (ScopedName × Json)

/-- A field of a struct, or an alternative of a union. -/
structure Field where
  annotations : Annotations
  serializedName : String
  default : Option Literal
  name : String
  typeExpr : TypeExpr

/-- The body of a declaration. -/
inductive Body where
  | struct (typeParams : List String) (fields : List Field)
  | union (typeParams : List String) (fields : List Field)
  | alias (typeParams : List String) (target : TypeExpr)
  | newtype (typeParams : List String) (target : TypeExpr) (default : Option Literal)

/-- The type parameters of a declaration. -/
def Body.typeParams : Body → List String
  | .struct ps _ => ps
  | .union ps _ => ps
  | .alias ps _ => ps
  | .newtype ps _ _ => ps

/-- A declaration with the module it belongs to. -/
structure Decl where
  module : String
  annotations : Annotations
  body : Body
  name : String
  version : Option UInt32

/-- The name of a declaration. -/
def Decl.scopedName (d : Decl) : ScopedName := ⟨d.module, d.name⟩

/-! ### Types in words -/

/-- The text of a head for reading by people. -/
def TypeRef.describe : TypeRef → String
  | primitive name => "Primitive(" ++ Text.escaped name ++ ")"
  | typeParam name => "TypeParam(" ++ Text.escaped name ++ ")"
  | reference n =>
    "Reference(ScopedName \x7b module_name: " ++ Text.escaped n.module ++ ", name: " ++
      Text.escaped n.name ++ " \x7d)"

mutual

/-- The text of a type expression for reading by people. -/
def TypeExpr.describe : TypeExpr → String
  | .mk head parameters =>
    "TypeExpr \x7b type_ref: " ++ head.describe ++ ", parameters: [" ++
      describeAll parameters ++ "] \x7d"

/-- The texts of type expressions, separated by commas. -/
def describeAll : List TypeExpr → String
  | [] => ""
  | [t] => t.describe
  | t :: ts => t.describe ++ ", " ++ describeAll ts

end

end Adl.Schema
