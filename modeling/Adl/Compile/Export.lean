import Adl.Schema.Encode
import Adl.Value.Defaults

/-!
# Export — declarations as self-contained records

`ModuleSet.exportDecl` spells out the names in a declaration and puts the canonical literals of its
checked defaults in place of the written ones.
-/

namespace Adl.ModuleSet

variable (set : ModuleSet)

mutual

/-- A type with the names of declarations spelled out. -/
def exportType : TypeExpr → Schema.TypeExpr
  | .mk (.primitive p) args => .mk (.primitive p.name) (exportTypes args)
  | .mk (.typeParam name) _ => .mk (.typeParam name) []
  | .mk (.decl id) args => .mk (.reference (set.scopedName id)) (exportTypes args)

/-- Types with the names of declarations spelled out. -/
def exportTypes : List TypeExpr → List Schema.TypeExpr
  | [] => []
  | t :: ts => exportType t :: exportTypes ts

end

theorem exportTypes_eq_map (ts : List TypeExpr) : set.exportTypes ts = ts.map set.exportType := by
  induction ts with
  | nil => rfl
  | cons t ts ih => rw [exportTypes, ih, List.map_cons]

/-- Annotations as JSON. -/
def exportAnnotations (annotations : Annotations) : Schema.Annotations :=
  annotations.map fun (key, value) => (key, value.toJson)

/-- The record of a member with its checked default. -/
def exportMember (m : Member) (default : Option Value) : Schema.Field :=
  ⟨exportAnnotations m.annotations, m.serializedName, default.map (·.toLiteral set), m.name,
    set.exportType m.type⟩

/-- The records of members with their checked defaults, as far as there are any. -/
def exportMembers : List Member → List (Option Value) → List Schema.Field
  | [], _ => []
  | m :: ms, [] => set.exportMember m none :: exportMembers ms []
  | m :: ms, d :: ds => set.exportMember m d :: exportMembers ms ds

/-- The record of a body. -/
def exportBody (d : Decl) (defaults : Defaults) : Schema.Body :=
  match d.body with
  | .struct ms => .struct d.typeParams (set.exportMembers ms defaults.fields)
  | .union ms => .union d.typeParams (set.exportMembers ms defaults.fields)
  | .enum ms => .union d.typeParams (set.exportMembers ms defaults.fields)
  | .alias t => .alias d.typeParams (set.exportType t)
  | .newtype t _ =>
    .newtype d.typeParams (set.exportType t) (defaults.newtype.map (·.toLiteral set))

/-- The record of a declaration. -/
def exportDecl (id : DeclId) (defaults : Defaults) : Schema.Decl :=
  let d := set.decl id
  ⟨d.module, exportAnnotations d.annotations, set.exportBody d defaults, d.name, none⟩

/-- The records of the declarations of a module, none if the module is not in the set. -/
def exportModule (module : String) (defaults : List Defaults) : List Schema.Decl :=
  match set.module? module with
  | some m => m.decls.map fun id => set.exportDecl id (defaults[id]?.getD .empty)
  | none => []

end Adl.ModuleSet
