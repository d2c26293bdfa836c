import Adl.Schema.Decl

/-!
# Encode — records of declarations as JSON texts

The members of every record stand in a fixed order, and a choice is an object with its `kind` and
its `value`, so equal records have equal texts.
-/

namespace Adl.Schema

/-- The record of a scoped name. -/
def encodeName (n : ScopedName) : Json :=
  .object [("moduleName", .string n.module), ("name", .string n.name)]

/-- The record of an optional value. -/
def encodeOption : Option Json → Json
  | none => .object [("kind", .string "nothing")]
  | some j => Literal.tag "just" j

/-- The record of a list of names. -/
def encodeStrings (names : List String) : Json := .array (names.map .string)

/-- The record of annotations: pairs of name and value. -/
def encodeAnnotations (annotations : Annotations) : Json :=
  .array (annotations.map fun (k, v) => .object [("v1", encodeName k), ("v2", v)])

/-- The record of the head of a type. -/
def TypeRef.encode : TypeRef → Json
  | primitive name => Literal.tag "primitive" (.string name)
  | typeParam name => Literal.tag "typeParam" (.string name)
  | reference name => Literal.tag "reference" (encodeName name)

mutual

/-- The record of a type expression. -/
def TypeExpr.encode : TypeExpr → Json
  | .mk head parameters =>
    .object [("typeRef", head.encode), ("parameters", .array (encodeTypes parameters))]

/-- The records of type expressions. -/
def encodeTypes : List TypeExpr → List Json
  | [] => []
  | t :: ts => t.encode :: encodeTypes ts

end

/-- The record of a field. -/
def Field.encode (f : Field) : Json :=
  .object [("annotations", encodeAnnotations f.annotations),
    ("serializedName", .string f.serializedName),
    ("default", encodeOption (f.default.map Literal.tagged)),
    ("name", .string f.name),
    ("typeExpr", f.typeExpr.encode)]

/-- The record of a body. -/
def Body.encode : Body → Json
  | .struct params fields =>
    Literal.tag "struct_"
      (.object [("typeParams", encodeStrings params), ("fields", .array (fields.map Field.encode))])
  | .union params fields =>
    Literal.tag "union_"
      (.object [("typeParams", encodeStrings params), ("fields", .array (fields.map Field.encode))])
  | .alias params target =>
    Literal.tag "type_"
      (.object [("typeParams", encodeStrings params), ("typeExpr", target.encode)])
  | .newtype params target default =>
    Literal.tag "newtype_"
      (.object [("typeParams", encodeStrings params), ("typeExpr", target.encode),
        ("default", encodeOption (default.map Literal.tagged))])

/-- The record of a declaration. -/
def Decl.encode (d : Decl) : Json :=
  .object [("moduleName", .string d.module),
    ("decl", .object [("annotations", encodeAnnotations d.annotations),
      ("type_", d.body.encode),
      ("name", .string d.name),
      ("version", encodeOption (d.version.map fun v => .integer v.toNat))])]

/-- The text of a declaration. -/
def Decl.toText (d : Decl) : String := d.encode.compact

end Adl.Schema
