import Adl.Target.TypeScriptItem
import Adl.Target.Unit

/-!
# TypeScriptUnit — modules as TypeScript source

Every declaration becomes an item, followed by its name and by functions that give the name and the
type expression at run time; the records of the declarations may follow.  A unit imports the
support library and every other module that its items refer to.
-/

namespace Adl.TypeScript

open Target (Options Embedded)

/-- What the code of a unit is relative to: the module it is for. -/
structure Context where
  set : ModuleSet
  module : String

namespace Context

/-! ### Types -/

/-- The name of a declaration, qualified outside its own module. -/
def ref (ctx : Context) (id : DeclId) : Ref :=
  let d := ctx.set.decl id
  ⟨if d.module = ctx.module then none else some d.module, d.name⟩

/-- The type of a primitive type applied to types. -/
def primitive (p : Primitive) (args : List Ty) : Ty :=
  let arg := args.head?.getD (.named "unknown")
  match p with
  | .void => .named "null"
  | .bool => .named "boolean"
  | .int8 | .int16 | .int32 | .int64 | .word8 | .word16 | .word32 | .word64 | .float | .double =>
    .named "number"
  | .json => .named "\x7b\x7d|null"
  | .byteVector => .named "Uint8Array"
  | .string => .named "string"
  | .vector => .array arg
  | .stringMap => .map arg
  | .nullable => .orNull arg
  | .typeToken => .handle arg

mutual

/-- The type that a type becomes. -/
def type (ctx : Context) : TypeExpr → Ty
  | .mk (.primitive p) args => primitive p (types ctx args)
  | .mk (.typeParam name) _ => .named name
  | .mk (.decl id) args => .apply (ctx.ref id) (types ctx args)

/-- The types that types become. -/
def types (ctx : Context) : List TypeExpr → List Ty
  | [] => []
  | t :: ts => type ctx t :: types ctx ts

end

/-! ### Values -/

mutual

/-- The expression that builds a value.  It looks like the serialized form of the value, except
that the alternatives of a union are tagged. -/
def expr (ctx : Context) : Value → Expr
  | .void => .verbatim "null"
  | .bool b => .verbatim (if b then "true" else "false")
  | .int i => .verbatim (toString i)
  | .word n => .verbatim (toString n)
  | .float d => .verbatim (Layout.plain.text d)
  | .string s => .string s
  | .bytes b => .bytes b
  | .json l => .verbatim l.toJson.compact
  | .vector items => .array (exprs ctx items)
  | .stringMap entries => .map (entryExprs ctx entries)
  | .absent => .verbatim "null"
  | .present v => expr ctx v
  | .struct id fields => .record (fieldExprs ctx (ctx.set.decl id).members fields)
  | .union id alternative v =>
    let m := (ctx.set.decl id).member alternative
    if v.isVoid then .kind m.serializedName else .variant m.serializedName (expr ctx v)
  | .enum id label => .label (ctx.ref id) ((ctx.set.decl id).member label).name
  | .newtype _ v => expr ctx v

/-- The expressions that build a list of values. -/
def exprs (ctx : Context) : List Value → List Expr
  | [] => []
  | v :: vs => expr ctx v :: exprs ctx vs

/-- The expressions that build the values of a map. -/
def entryExprs (ctx : Context) : List (String × Value) → List (String × Expr)
  | [] => []
  | (key, v) :: entries => (key, expr ctx v) :: entryExprs ctx entries

/-- The expressions that build the fields of a struct. -/
def fieldExprs (ctx : Context) : List Member → List Value → List (String × Expr)
  | m :: ms, v :: vs => (m.serializedName, expr ctx v) :: fieldExprs ctx ms vs
  | [], _ => []
  | _ :: _, [] => []

end

/-! ### Items -/

/-- A field with its default. -/
def field (ctx : Context) (m : Member) (default : Option Value) : Field :=
  ⟨docText? m.annotations, m.serializedName, ctx.type m.type, default.map ctx.expr⟩

/-- A variant, which carries a value unless its type is `Void`. -/
def variant (ctx : Context) (d : Decl) (m : Member) : Variant :=
  ⟨docText? m.annotations, d.name ++ "_" ++ Text.pascalCase m.name, m.serializedName,
    ctx.type m.type, m.type.head ≠ .primitive .void⟩

/-- A label. -/
def label (m : Member) : Label := ⟨docText? m.annotations, m.name, m.serializedName⟩

/-- The item of a declaration. -/
def item (ctx : Context) (d : Decl) (defaults : Defaults) : Item :=
  let doc := docText? d.annotations
  match d.body with
  | .struct ms =>
    .record ⟨doc, d.name, d.typeParams,
      ms.zipIdx.map fun (m, i) => ctx.field m (defaults.member? i)⟩
  | .union ms => .sum ⟨doc, d.name, d.typeParams, ms.map (ctx.variant d)⟩
  | .enum ms => .enumeration ⟨doc, d.name, ms.map label⟩
  | .alias t | .newtype t _ =>
    .alias ⟨doc, d.name, d.typeParams, ctx.type t, defaults.newtype.map ctx.expr⟩

end Context

/-! ### Imports -/

mutual

/-- The modules of the declarations that a type mentions. -/
def typeModules (set : ModuleSet) : TypeExpr → List String
  | .mk (.decl id) args => (set.decl id).module :: typesModules set args
  | .mk (.primitive _) args => typesModules set args
  | .mk (.typeParam _) args => typesModules set args

/-- The same for a list of types. -/
def typesModules (set : ModuleSet) : List TypeExpr → List String
  | [] => []
  | t :: ts => typeModules set t ++ typesModules set ts

end

mutual

/-- The modules of the enumerations whose labels are in a value: no other part of an expression
names a declaration. -/
def valueModules (set : ModuleSet) : Value → List String
  | .vector items => valuesModules set items
  | .stringMap entries => entriesModules set entries
  | .present v => valueModules set v
  | .newtype _ v => valueModules set v
  | .struct _ fields => valuesModules set fields
  | .union _ _ v => valueModules set v
  | .enum id _ => [(set.decl id).module]
  | _ => []

/-- The same for a list of values. -/
def valuesModules (set : ModuleSet) : List Value → List String
  | [] => []
  | v :: vs => valueModules set v ++ valuesModules set vs

/-- The same for the values of a map. -/
def entriesModules (set : ModuleSet) : List (String × Value) → List String
  | [] => []
  | (_, v) :: entries => valueModules set v ++ entriesModules set entries

end

/-- The modules that a declaration and its defaults refer to. -/
def declModules (set : ModuleSet) (d : Decl) (defaults : Defaults) : List String :=
  typesModules set d.types ++ valuesModules set defaults.values

/-- The other modules that a module refers to, in increasing order. -/
def importedModules (c : Compilation) (m : Module) : List String :=
  let found := m.decls.flatMap fun id => declModules c.set (c.set.decl id) (c.defaultsOf id)
  (found.foldl (fun names n => Source.Module.insertName n names) []).filter (· ≠ m.name)

/-! ### Names and type expressions at run time -/

/-- The lines that give the name and the type expression of a declaration. -/
def handleLines (name : ScopedName) (params : List String) : List String :=
  let n := name.name
  let self := n ++ Text.angled params
  let param (p : String) := "texpr" ++ p ++ ": ADL.ATypeExpr<" ++ p ++ ">"
  let value (p : String) := "texpr" ++ p ++ ".value"
  ["const sn" ++ n ++ ": ADL.ScopedName = \x7bmoduleName: " ++ Text.quote name.module ++
      ", name: " ++ Text.quote n ++ "\x7d;",
    "",
    "export function ref" ++ self ++ "(): ADL.TypeRef<" ++ self ++ "> \x7b",
    "  return \x7bvalue: sn" ++ n ++ "\x7d;", "\x7d", "",
    "export function texpr" ++ self ++ "(" ++ Text.listed (params.map param) ++
      "): ADL.ATypeExpr<" ++ self ++ "> \x7b",
    "  return \x7bvalue: \x7btypeRef: \x7bkind: \"reference\", value: sn" ++ n ++
      "\x7d, parameters: [" ++ Text.listed (params.map value) ++ "]\x7d\x7d;",
    "\x7d"]

/-! ### Embedded records -/

/-- The lines of the constants that hold the records of a module. -/
def embeddedLines (records : List Embedded) : List String :=
  records.flatMap (fun r =>
    ["export const " ++ r.name.name ++ "_AST: ADL.ScopedDecl =", "  " ++ r.json ++ ";", ""]) ++
  ["export const _AST_MAP: \x7b [key: string]: ADL.ScopedDecl \x7d = \x7b"] ++
  records.map (fun r => "  " ++ Text.quote r.name.text ++ ": " ++ r.name.name ++ "_AST,") ++
  ["\x7d;"]

/-! ### Units -/

/-- The usual place of the support library below the output directory. -/
def standardRuntime : String := "runtime/adl"

/-- The line that imports a file under a name. -/
def importLine (name path : String) : String := "import * as " ++ name ++ " from '" ++ path ++ "';"

/-- The first lines of a unit. -/
def headLines (module runtime : String) (imported : List String) : List String :=
  ["/* @generated by adlc from module " ++ module ++ ". Do not edit. */", "",
    importLine "ADL" (relativeToRoot module runtime)] ++
  imported.map fun other => importLine (moduleAlias other) (relativeImport module other)

/-- The lines of a declaration. -/
def declLines (ctx : Context) (d : Decl) (defaults : Defaults) : List String :=
  [""] ++ (ctx.item d defaults).lines ++ [""] ++ handleLines d.scopedName d.typeParams

/-- The lines of the unit of a module, the last of which is empty. -/
def unitLines (c : Compilation) (m : Module) (options : Options) : List String :=
  let ctx : Context := ⟨c.set, m.name⟩
  headLines m.name (options.runtime.getD standardRuntime) (importedModules c m) ++
    m.decls.flatMap (fun id => declLines ctx (c.set.decl id) (c.defaultsOf id)) ++
    (if options.includeAst then "" :: embeddedLines (Target.embedded c m) else []) ++ [""]

end Adl.TypeScript
