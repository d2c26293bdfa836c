import Adl.Json.Decode
import Adl.Schema.Decl

/-!
# Decode — declarations from JSON texts

`Decl.ofText?` reads what `Decl.toText` writes, and besides it every text whose records hold the
right members in any order or as arrays.
-/

namespace Adl.Schema

open Json (Node Reading)

/-! ### Parts -/

/-- A scoped name. -/
def decodeName (r : Reading) (node : Node) : Option ScopedName := do
  match ← node.asRecord ["moduleName", "name"] r with
  | (_, [module, name]) => return ⟨← module.asString, ← name.asString⟩
  | _ => none

/-- A list of names. -/
def decodeStrings (r : Reading) (node : Node) : Option (List String) := do
  let (_, items) ← node.asArray r
  items.mapM Node.asString

/-- An annotation. -/
def decodeAnnotationEntry (r : Reading) (node : Node) : Option (ScopedName × Json) := do
  match ← node.asRecord ["v1", "v2"] r with
  | (r, [key, value]) => return (← decodeName r key, ← value.asJson r)
  | _ => none

/-- A list of annotations. -/
def decodeAnnotations (r : Reading) (node : Node) : Option Annotations := do
  let (r, items) ← node.asArray r
  items.mapM (decodeAnnotationEntry r)

/-- An optional value. -/
def decodeOption {α : Type} (decode : Reading → Node → Option α) (r : Reading) (node : Node) :
    Option (Option α) := do
  match ← node.asTagged ["nothing", "just"] r with
  | (_, "nothing", none) => return none
  | (r, "nothing", some value) => if value.isNothing ⟨r.depth, false⟩ then return none else none
  | (r, "just", some value) => return some (← decode r value)
  | _ => none

/-- The head of a type. -/
def TypeRef.decode (r : Reading) (node : Node) : Option TypeRef := do
  match ← node.asTagged ["primitive", "typeParam", "reference"] r with
  | (_, "primitive", some value) => return .primitive (← value.asString)
  | (_, "typeParam", some value) => return .typeParam (← value.asString)
  | (r, "reference", some value) => return .reference (← decodeName r value)
  | _ => none

/-! ### Types and literals -/

/-- A type expression; `fuel` bounds its nesting. -/
def TypeExpr.decode (r : Reading) : Nat → Node → Option TypeExpr
  | 0, _ => none
  | fuel + 1, node => do
    match ← node.asRecord ["typeRef", "parameters"] r with
    | (r, [head, parameters]) =>
      let head ← TypeRef.decode r head
      let (r, items) ← parameters.asArray r
      return .mk head (← items.mapM (TypeExpr.decode r fuel))
    | _ => none

/-- An entry of an object literal. -/
def decodeEntry (decode : Reading → Node → Option Literal) (r : Reading) (node : Node) :
    Option (String × Literal) := do
  match ← node.asRecord ["v1", "v2"] r with
  | (r, [key, value]) => return (← key.asString, ← decode r value)
  | _ => none

/-- The kinds of literals. -/
def literalKinds : List String :=
  ["null", "integer", "double", "string", "boolean", "array", "object"]

/-- A literal; `fuel` bounds its nesting. -/
def decodeLiteral : Nat → Reading → Node → Option Literal
  | 0, _, _ => none
  | fuel + 1, r, node => do
    match ← node.asTagged literalKinds r with
    | (_, "null", none) => return .null
    | (r, "null", some value) => if value.isNothing ⟨r.depth, false⟩ then return .null else none
    | (r, "integer", some value) => return .integer (← value.asInteger r)
    | (_, "double", some value) => return .double (← value.asDouble)
    | (_, "string", some value) => return .string (← value.asString)
    | (_, "boolean", some value) => return .boolean (← value.asBool)
    | (r, "array", some value) =>
      let (r, items) ← value.asArray r
      return .array (← items.mapM (decodeLiteral fuel r))
    | (r, "object", some value) =>
      let (r, items) ← value.asArray r
      return .object (← items.mapM (decodeEntry (decodeLiteral fuel) r))
    | _ => none

/-- More nesting than a text can have. -/
def nestingFuel : Nat := Json.maxDepth + 1

/-! ### Declarations -/

/-- A field. -/
def Field.decode (r : Reading) (node : Node) : Option Field := do
  match ← node.asRecord ["annotations", "serializedName", "default", "name", "typeExpr"] r with
  | (r, [annotations, serializedName, default, name, typeExpr]) =>
    return {
      annotations := ← decodeAnnotations r annotations
      serializedName := ← serializedName.asString
      default := ← decodeOption (decodeLiteral nestingFuel) r default
      name := ← name.asString
      typeExpr := ← TypeExpr.decode r nestingFuel typeExpr }
  | _ => none

/-- The type parameters and fields of a struct or union. -/
def decodeFields (r : Reading) (node : Node) : Option (List String × List Field) := do
  match ← node.asRecord ["typeParams", "fields"] r with
  | (r, [params, fields]) =>
    let params ← decodeStrings r params
    let (r, items) ← fields.asArray r
    return (params, ← items.mapM (Field.decode r))
  | _ => none

/-- The body of a declaration. -/
def Body.decode (r : Reading) (node : Node) : Option Body := do
  match ← node.asTagged ["struct_", "union_", "type_", "newtype_"] r with
  | (r, "struct_", some value) =>
    let (params, fields) ← decodeFields r value
    return .struct params fields
  | (r, "union_", some value) =>
    let (params, fields) ← decodeFields r value
    return .union params fields
  | (r, "type_", some value) =>
    match ← value.asRecord ["typeParams", "typeExpr"] r with
    | (r, [params, target]) =>
      return .alias (← decodeStrings r params) (← TypeExpr.decode r nestingFuel target)
    | _ => none
  | (r, "newtype_", some value) =>
    match ← value.asRecord ["typeParams", "typeExpr", "default"] r with
    | (r, [params, target, default]) =>
      return .newtype (← decodeStrings r params) (← TypeExpr.decode r nestingFuel target)
        (← decodeOption (decodeLiteral nestingFuel) r default)
    | _ => none
  | _ => none

/-- A version number. -/
def decodeVersion (_ : Reading) (node : Node) : Option UInt32 := node.asWord32.map UInt32.ofNat

/-- A declaration of a module. -/
def Decl.decode (r : Reading) (node : Node) : Option Decl := do
  match ← node.asRecord ["moduleName", "decl"] r with
  | (r, [module, decl]) =>
    match ← decl.asRecord ["annotations", "type_", "name", "version"] r with
    | (r, [annotations, body, name, version]) =>
      return {
        module := ← module.asString
        annotations := ← decodeAnnotations r annotations
        body := ← Body.decode r body
        name := ← name.asString
        version := ← decodeOption decodeVersion r version }
    | _ => none
  | _ => none

/-- Reads the text of a declaration. -/
def Decl.ofText? (text : String) : Option Decl := do
  Decl.decode Reading.start (← Node.parse? text)

end Adl.Schema
