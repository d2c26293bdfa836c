import Adl.Schema.Decl

/-!
# Handle — type expressions tied to types

A `TypeHandle α` is a type expression whose values are those of `α`, so that generic code which
takes a handle and a value cannot be given the wrong pair.
-/

namespace Adl.Schema

/-- The name of the declaration of a type. -/
structure DeclHandle (α : Type) where
  name : ScopedName
  deriving DecidableEq

/-- The text of a handle for reading by people. -/
def DeclHandle.describe {α : Type} (h : DeclHandle α) : String := "TypeRef(" ++ h.name.text ++ ")"

/-- A type expression for a type. -/
structure TypeHandle (α : Type) where
  expr : TypeExpr

namespace TypeHandle

instance {α : Type} : Inhabited (TypeHandle α) := ⟨⟨default⟩⟩

/-- The text of a handle for reading by people. -/
def describe {α : Type} (h : TypeHandle α) : String := "ATypeExpr(" ++ h.expr.describe ++ ")"

/-- A declared type applied to parameters. -/
def reference (α : Type) (name : ScopedName) (parameters : List TypeExpr) : TypeHandle α :=
  ⟨.mk (.reference name) parameters⟩

/-- A type that stands for a parameter. -/
def typeParam (α : Type) (name : String) : TypeHandle α := ⟨.mk (.typeParam name) []⟩

/-- A primitive type without parameters. -/
def ground (α : Type) (name : String) : TypeHandle α := ⟨.mk (.primitive name) []⟩

/-- The handle of the unit type. -/
def void : TypeHandle Unit := ground Unit "Void"

/-- The handle of truth values. -/
def bool : TypeHandle Bool := ground Bool "Bool"

/-- The handle of 32-bit integers. -/
def int32 : TypeHandle Int32 := ground Int32 "Int32"

/-- The handle of 64-bit integers. -/
def int64 : TypeHandle Int64 := ground Int64 "Int64"

/-- The handle of floating point numbers. -/
def double : TypeHandle Double := ground Double "Double"

/-- The handle of strings. -/
def string : TypeHandle String := ground String "String"

/-- The handle of byte sequences. -/
def bytes : TypeHandle (List UInt8) := ground (List UInt8) "ByteVector"

/-- The handle of JSON values. -/
def json : TypeHandle Json := ground Json "Json"

/-- The handle of lists. -/
def vector {α : Type} (element : TypeHandle α) : TypeHandle (List α) :=
  ⟨.mk (.primitive "Vector") [element.expr]⟩

/-- The handle of maps from strings. -/
def stringMap {α : Type} (value : TypeHandle α) : TypeHandle (List (String × α)) :=
  ⟨.mk (.primitive "StringMap") [value.expr]⟩

/-- The handle of values that may be absent. -/
def nullable {α : Type} (value : TypeHandle α) : TypeHandle (Option α) :=
  ⟨.mk (.primitive "Nullable") [value.expr]⟩

end TypeHandle

end Adl.Schema
