import Adl.Target.Containment
import Adl.Target.RustItem
import Adl.Target.Unit

/-!
# RustUnit — modules as Rust source

Every declaration becomes an item, followed by two functions that give its name and its type
expression at run time; the records of the declarations may follow.  Members that would make a type
contain itself are boxed, and type parameters that no member mentions are marked as used.
-/

namespace Adl.Rust

open Target (Options Embedded)

/-- What the code of a unit is relative to: the module it is for, the support library, the path
below which modules are mounted, and what holds what. -/
structure Context where
  set : ModuleSet
  module : String
  runtime : String
  root : String
  containment : Containment

namespace Context

/-- The usual support library. -/
def standardRuntime : String := "adl_runtime"

/-- The usual path of modules. -/
def standardRoot : String := "crate"

/-- The context of the unit of a module. -/
def ofOptions (set : ModuleSet) (module : String) (options : Options) : Context :=
  ⟨set, module, options.runtime.getD standardRuntime, options.moduleRoot.getD standardRoot,
    .ofSet set⟩

/-! ### Types -/

/-- The path of a module. -/
def modulePath (ctx : Context) (module : String) : String :=
  ctx.root ++ "::" ++ "::".intercalate ((Text.split '.' module).map identifier)

/-- The path of a declared type, which is its name inside its own module. -/
def typePath (ctx : Context) (id : DeclId) : String :=
  let d := ctx.set.decl id
  if d.module = ctx.module then typeIdent d.name
  else ctx.modulePath d.module ++ "::" ++ typeIdent d.name

/-- The path of byte sequences. -/
def bytesPath (ctx : Context) : String := ctx.runtime ++ "::ByteVector"

/-- The type of a primitive type applied to types. -/
def primitive (ctx : Context) (p : Primitive) (args : List Ty) : Ty :=
  let arg := args.head?.getD .unit
  match p with
  | .void => .unit
  | .bool => .apply "bool" []
  | .int8 => .apply "i8" []
  | .int16 => .apply "i16" []
  | .int32 => .apply "i32" []
  | .int64 => .apply "i64" []
  | .word8 => .apply "u8" []
  | .word16 => .apply "u16" []
  | .word32 => .apply "u32" []
  | .word64 => .apply "u64" []
  | .float => .apply "f32" []
  | .double => .apply "f64" []
  | .json => .apply "serde_json::Value" []
  | .byteVector => .apply ctx.bytesPath []
  | .string => .apply "String" []
  | .vector => .apply "Vec" [arg]
  | .stringMap => .apply "std::collections::HashMap" [.apply "String" [], arg]
  | .nullable => .apply "Option" [arg]
  | .typeToken => .apply Ty.markerPath [arg]

mutual

/-- The type that a type becomes. -/
def type (ctx : Context) : TypeExpr → Ty
  | .mk (.primitive p) args => ctx.primitive p (types ctx args)
  | .mk (.typeParam name) _ => .apply name []
  | .mk (.decl id) args => .apply (ctx.typePath id) (types ctx args)

/-- The types that types become. -/
def types (ctx : Context) : List TypeExpr → List Ty
  | [] => []
  | t :: ts => type ctx t :: types ctx ts

end

/-- The type of a member of a declaration. -/
def memberType (ctx : Context) (owner : DeclId) (m : Member) : Ty :=
  let t := ctx.type m.type
  if ctx.containment.needsBox m.type owner then t.boxed else t

/-! ### Type parameters that are not used -/

mutual

/-- Whether a type mentions a type parameter. -/
def mentions (param : String) : TypeExpr → Bool
  | .mk (.typeParam name) args => name == param || anyMentions param args
  | .mk (.primitive _) args => anyMentions param args
  | .mk (.decl _) args => anyMentions param args

/-- Whether one of several types mentions a type parameter. -/
def anyMentions (param : String) : List TypeExpr → Bool
  | [] => false
  | t :: ts => mentions param t || anyMentions param ts

end

/-- The type parameters of a declaration that its body does not mention. -/
def unused (d : Decl) : List String := d.typeParams.filter fun p => !anyMentions p d.types

/-- Whether the item of a declaration has a marker. -/
def marked (d : Decl) : Bool := !(unused d).isEmpty

/-! ### Values -/

/-- The value of a member of a declaration, boxed if its type is. -/
def memberExpr (ctx : Context) (owner : DeclId) (m : Member) (e : Expr) : Expr :=
  if ctx.containment.needsBox m.type owner then .boxed e else e

mutual

/-- The expression that builds a value. -/
def expr (ctx : Context) : Value → Expr
  | .void => .unit
  | .bool b => .verbatim (if b then "true" else "false")
  | .int i => .verbatim (toString i)
  | .word n => .verbatim (toString n)
  | .float d => .verbatim (Layout.source.text d)
  | .string s => .string s
  | .bytes b => .bytes ctx.bytesPath b
  | .json l => .json l.toJson.compact
  | .vector items => .vector (exprs ctx items)
  | .stringMap entries => .map (entryExprs ctx entries)
  | .absent => .absent
  | .present v => .present (expr ctx v)
  | .struct id fields =>
    let d := ctx.set.decl id
    .record (ctx.typePath id) (fieldExprs ctx id d.members fields) (marked d)
  | .union id alternative v =>
    let m := (ctx.set.decl id).member alternative
    if v.isVoid then .label (ctx.typePath id) (typeIdent m.name)
    else .variant (ctx.typePath id) (typeIdent m.name) (ctx.memberExpr id m (expr ctx v))
  | .enum id label => .label (ctx.typePath id) (typeIdent ((ctx.set.decl id).member label).name)
  | .newtype id v => .wrapped (ctx.typePath id) (expr ctx v) (marked (ctx.set.decl id))

/-- The expressions that build a list of values. -/
def exprs (ctx : Context) : List Value → List Expr
  | [] => []
  | v :: vs => expr ctx v :: exprs ctx vs

/-- The expressions that build the values of a map. -/
def entryExprs (ctx : Context) : List (String × Value) → List (String × Expr)
  | [] => []
  | (key, v) :: entries => (key, expr ctx v) :: entryExprs ctx entries

/-- The expressions that build the fields of a declaration. -/
def fieldExprs (ctx : Context) (owner : DeclId) :
    List Member → List Value → List (String × Expr)
  | m :: ms, v :: vs =>
    (fieldIdent m.name, ctx.memberExpr owner m (expr ctx v)) :: fieldExprs ctx owner ms vs
  | [], _ => []
  | _ :: _, [] => []

end

/-! ### Items -/

/-- The name of the function that gives the default of a field. -/
def defaultName (m : Member) : String := "def_" ++ Text.snakeCase m.name

/-- A field with its default. -/
def field (ctx : Context) (owner : DeclId) (m : Member) (default : Option Value) : Field :=
  let name := fieldIdent m.name
  { doc := docText? m.annotations
    name := name
    rename := if unmarked name = m.serializedName then none else some m.serializedName
    type := ctx.memberType owner m
    default := default.map fun v => ⟨defaultName m, ctx.memberExpr owner m (ctx.expr v)⟩ }

/-- A variant, which has a payload unless its type is `Void`. -/
def variant (ctx : Context) (owner : DeclId) (m : Member) : Variant :=
  { doc := docText? m.annotations
    name := typeIdent m.name
    rename := m.serializedName
    payload :=
      if m.type.head = .primitive .void then none else some (ctx.memberType owner m) }

/-- The item of a declaration. -/
def item (ctx : Context) (d : Decl) (defaults : Defaults) : Item :=
  let doc := docText? d.annotations
  let name := typeIdent d.name
  match d.body with
  | .struct ms =>
    .record ⟨doc, name, d.typeParams,
      ms.zipIdx.map fun (m, i) => ctx.field d.id m (defaults.member? i), unused d⟩
  | .union ms => .sum ⟨doc, name, d.typeParams, false, ms.map (ctx.variant d.id), unused d⟩
  | .enum ms => .sum ⟨doc, name, d.typeParams, true, ms.map (ctx.variant d.id), unused d⟩
  | .alias t => .alias ⟨doc, name, d.typeParams, ctx.type t⟩
  | .newtype t _ =>
    .newtype ⟨doc, name, d.typeParams, ctx.type t, unused d, defaults.newtype.map ctx.expr⟩

end Context

/-! ### Names and type expressions at run time -/

/-- The name of the function that gives the name of a declaration. -/
def refName (name : String) : String := "ref_" ++ Text.snakeCase name

/-- The name of the function, or of its parameter, that gives a type expression. -/
def typeExprName (name : String) : String := "texpr_" ++ Text.snakeCase name

/-- The lines of the functions that give the name and the type expression of a declaration. -/
def handleLines (runtime : String) (name : ScopedName) (params : List String) : List String :=
  let self := typeIdent name.name ++ Text.angled params
  let quoted := Text.escaped name.module ++ ", " ++ Text.escaped name.name
  let param (p : String) := typeExprName p ++ ": " ++ runtime ++ "::ATypeExpr<" ++ p ++ ">"
  let value (p : String) := typeExprName p ++ ".value"
  ["pub fn " ++ refName name.name ++ Text.angled params ++ "() -> " ++ runtime ++ "::TypeRef<" ++
      self ++ "> \x7b",
    "    " ++ runtime ++ "::TypeRef::new(" ++ quoted ++ ")",
    "\x7d", "",
    "pub fn " ++ typeExprName name.name ++ Text.angled params ++ "(" ++
      Text.listed (params.map param) ++ ") -> " ++ runtime ++ "::ATypeExpr<" ++ self ++
      "> \x7b",
    "    " ++ runtime ++ "::ATypeExpr::reference(" ++ quoted ++ ", vec![" ++
      Text.listed (params.map value) ++ "])",
    "\x7d"]

/-! ### Embedded records -/

/-- The name of the constant that holds the record of a declaration. -/
def constName (name : String) : String := "AST_" ++ Text.upperCase (Text.snakeCase name)

/-- The lines of the constants that hold the records of a module. -/
def embeddedLines (records : List Embedded) : List String :=
  records.flatMap (fun r =>
    ["pub const " ++ constName r.name.name ++ ": &str = " ++ rawString r.json ++ ";", ""]) ++
  ["/// Serialized declarations of this module, keyed by qualified name.",
    "pub const AST_MAP: &[(&str, &str)] = &["] ++
  records.map (fun r =>
    "    (" ++ Text.escaped r.name.text ++ ", " ++ constName r.name.name ++ "),") ++
  ["];"]

/-! ### Units -/

/-- The first lines of a unit. -/
def headLines (module : String) : List String :=
  ["// @generated by adlc from module \x60" ++ module ++ "\x60. Do not edit.",
    "#![allow(dead_code, non_camel_case_types, clippy::all)]", "",
    "use serde::\x7bDeserialize, Serialize\x7d;"]

/-- The lines of a declaration. -/
def declLines (ctx : Context) (d : Decl) (defaults : Defaults) : List String :=
  [""] ++ (ctx.item d defaults).lines ++ [""] ++ handleLines ctx.runtime d.scopedName d.typeParams

/-- The lines of the unit of a module, the last of which is empty. -/
def unitLines (c : Compilation) (m : Module) (options : Options) : List String :=
  let ctx := Context.ofOptions c.set m.name options
  headLines m.name ++
    m.decls.flatMap (fun id => declLines ctx (c.set.decl id) (c.defaultsOf id)) ++
    (if options.includeAst then "" :: embeddedLines (Target.embedded c m) else []) ++ [""]

end Adl.Rust
