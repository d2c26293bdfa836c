/-!
# Primitive — the types that every schema knows
-/

namespace Adl

/-- The primitive types. -/
inductive Primitive where
  | void
  | bool
  | int8
  | int16
  | int32
  | int64
  | word8
  | word16
  | word32
  | word64
  | float
  | double
  | json
  | byteVector
  | string
  | vector
  | stringMap
  | nullable
  | typeToken
  deriving DecidableEq, Repr

namespace Primitive

/-- All primitive types. -/
def all : List Primitive :=
  [void, bool, int8, int16, int32, int64, word8, word16, word32, word64, float, double, json,
    byteVector, string, vector, stringMap, nullable, typeToken]

/-- The name of a primitive type. -/
def name : Primitive → String
  | void => "Void"
  | bool => "Bool"
  | int8 => "Int8"
  | int16 => "Int16"
  | int32 => "Int32"
  | int64 => "Int64"
  | word8 => "Word8"
  | word16 => "Word16"
  | word32 => "Word32"
  | word64 => "Word64"
  | float => "Float"
  | double => "Double"
  | json => "Json"
  | byteVector => "ByteVector"
  | string => "String"
  | vector => "Vector"
  | stringMap => "StringMap"
  | nullable => "Nullable"
  | typeToken => "TypeToken"

/-- The primitive type of a name. -/
def ofName? (name : String) : Option Primitive := all.find? (·.name = name)

/-- The number of type arguments that a primitive type takes. -/
def arity : Primitive → Nat
  | vector | stringMap | nullable | typeToken => 1
  | _ => 0

/-- The least and the greatest value of an integer type. -/
def range? : Primitive → Option (Int × Int)
  | int8 => some (-0x80, 0x7F)
  | int16 => some (-0x8000, 0x7FFF)
  | int32 => some (-0x80000000, 0x7FFFFFFF)
  | int64 => some (-0x8000000000000000, 0x7FFFFFFFFFFFFFFF)
  | word8 => some (0, 0xFF)
  | word16 => some (0, 0xFFFF)
  | word32 => some (0, 0xFFFFFFFF)
  | word64 => some (0, 0xFFFFFFFFFFFFFFFF)
  | _ => none

end Primitive

end Adl
