import Adl.Model.Basic
import Adl.Model.Imports

/-!
# Resolve — looking up the names of a list of modules

All declarations are numbered first, so every name is looked up in the complete table.  An
unqualified name is a type parameter, a primitive type, a declaration of the same module, or the
one declaration that the imports supply, in this order.  Each module reports its first error, and
the errors of all modules are collected.
-/

namespace Adl

/-- The names of all declarations with their places. -/
abbrev NameTable := List (ScopedName × DeclId)

namespace Resolve

/-! ### Scopes -/

/-- What a name is looked up in, and where. -/
structure Scope where
  table : NameTable
  module : Source.Module
  typeParams : List String
  location : Location

namespace Scope

/-- The declaration of a module. -/
def declOf (scope : Scope) (module name : String) : Option DeclId :=
  scope.table.lookup ⟨module, name⟩

/-- Whether an import brings a name into scope, if its module declares it. -/
def supplies (i : Source.Import) (name : String) : Bool :=
  match i.kind with
  | .all => true
  | .name n => n == name

/-- Adds the declaration that an import supplies for a name, unless it is there already. -/
def addImported (scope : Scope) (name : String) (found : List (DeclId × ScopedName))
    (i : Source.Import) : List (DeclId × ScopedName) :=
  if supplies i name then
    match scope.declOf i.module name with
    | some id => if found.any (·.1 = id) then found else found ++ [(id, ⟨i.module, name⟩)]
    | none => found
  else found

/-- The declarations that the imports supply for a name, in the order of the imports. -/
def imported (scope : Scope) (name : String) : List (DeclId × ScopedName) :=
  scope.module.imports.foldl (scope.addImported name) []

/-- What a written name refers to. -/
def resolveName (scope : Scope) (written : String) : Except Error TypeRef :=
  let unknown := .error (.unknownReference scope.location written)
  match splitName written with
  | (some module, name) =>
    match scope.declOf module name with
    | some id => .ok (.decl id)
    | none => unknown
  | (none, name) =>
    if name ∈ scope.typeParams then .ok (.typeParam name)
    else
      match Primitive.ofName? name, scope.declOf scope.module.name name with
      | some p, _ => .ok (.primitive p)
      | none, some id => .ok (.decl id)
      | none, none =>
        match scope.imported name with
        | [] => unknown
        | [(id, _)] => .ok (.decl id)
        | candidates =>
          .error (.ambiguousReference scope.location name (candidates.map (·.2.text)))

mutual

/-- A written type with its names looked up, the head before the arguments. -/
def resolveType (scope : Scope) : Source.TypeExpr → Except Error TypeExpr
  | .mk name args _ => do
    let head ← scope.resolveName name
    return .mk head (← resolveTypes scope args)

/-- Written types with their names looked up. -/
def resolveTypes (scope : Scope) : List Source.TypeExpr → Except Error (List TypeExpr)
  | [] => return []
  | t :: ts => do
    let first ← resolveType scope t
    return first :: (← resolveTypes scope ts)

end

/-! ### Annotations -/

/-- The module of annotations that are neither qualified nor declared. -/
def annotationModule : String := "sys.annotations"

/-- The scoped name of an annotation as written. -/
def annotationKey (scope : Scope) (written : String) : ScopedName :=
  match splitName written with
  | (some module, name) => ⟨module, name⟩
  | (none, name) =>
    match scope.declOf scope.module.name name, scope.imported name with
    | some _, _ => ⟨scope.module.name, name⟩
    | none, [(_, key)] => key
    | _, _ => ⟨annotationModule, name⟩

end Scope

/-- Puts an annotation into a list sorted by name, in place of one with the same name. -/
def insertKey (key : ScopedName) (value : Literal) : Annotations → Annotations
  | [] => [(key, value)]
  | (k, v) :: rest =>
    if key.before k then (key, value) :: (k, v) :: rest
    else if key = k then (key, value) :: rest
    else (k, v) :: insertKey key value rest

/-- Annotations under their scoped names, sorted; the last one of each name is kept. -/
def Scope.resolveAnnotations (scope : Scope) (written : List Source.AnnotationEntry) :
    Annotations :=
  written.foldl (fun found a => insertKey (scope.annotationKey a.name) a.value found) []

/-! ### Declarations -/

/-- The first member whose name or serialized name an earlier member has: its own name, and the
name that is repeated. -/
def repeatedMember (names serialized : List String) : List Source.Member → Option (String × String)
  | [] => none
  | m :: ms =>
    if m.name ∈ names then some (m.name, m.name)
    else if m.serializedName ∈ serialized then some (m.name, m.serializedName)
    else repeatedMember (m.name :: names) (m.serializedName :: serialized) ms

/-- Rejects repeated names of members and of type parameters. -/
def checkNames (module : String) (d : Source.Decl) : Except Error Unit :=
  match repeatedMember [] [] d.members with
  | some (member, name) => .error (.duplicateMember (.ofMember module d.name member) name)
  | none =>
    match firstRepeated [] d.typeParams with
    | some param => .error (.duplicateMember (.ofMember module d.name param) param)
    | none => .ok ()

/-- A member with its names looked up. -/
def resolveMember (scope : Scope) (m : Source.Member) : Except Error Member := do
  let scope := { scope with location := scope.location.within m.name }
  let type ← scope.resolveType m.type
  return ⟨m.name, m.serializedName, type, m.default, scope.resolveAnnotations m.annotations⟩

/-- A body with its names looked up. -/
def resolveBody (scope : Scope) : Source.Body → Except Error Body
  | .struct ms => return .struct (← ms.mapM (resolveMember scope))
  | .union ms => return .union (← ms.mapM (resolveMember scope))
  | .enum ms => return .enum (← ms.mapM (resolveMember scope))
  | .alias target => return .alias (← scope.resolveType target)
  | .newtype target default => return .newtype (← scope.resolveType target) default

/-- The declaration that gets the place `id`. -/
def resolveDecl (table : NameTable) (m : Source.Module) (id : DeclId) (d : Source.Decl) :
    Except Error Decl := do
  let scope : Scope := ⟨table, m, d.typeParams, .ofDecl m.name d.name⟩
  checkNames m.name d
  let body ← resolveBody scope d.body
  return ⟨id, m.name, d.name, d.typeParams, scope.resolveAnnotations d.annotations, body⟩

/-- The declarations of a module, the first of which gets the place `id`. -/
def resolveDecls (table : NameTable) (m : Source.Module) :
    DeclId → List Source.Decl → Except Error (List Decl)
  | _, [] => return []
  | id, d :: ds => do
    let first ← resolveDecl table m id d
    return first :: (← resolveDecls table m (id + 1) ds)

/-! ### Module sets -/

/-- The first declaration of a module whose name is taken, by an earlier one or by a primitive
type. -/
def takenName (seen : List String) : List Source.Decl → Option String
  | [] => none
  | d :: ds =>
    if d.name ∈ seen ∨ (Primitive.ofName? d.name).isSome then some d.name
    else takenName (d.name :: seen) ds

/-- The error of a module with a declaration whose name is taken. -/
def takenError (m : Source.Module) : Option Error :=
  (takenName [] m.decls).map fun name => .duplicateDecl (.ofDecl m.name name) name

/-- All declared names in the order of modules and declarations. -/
def declNames (modules : List Source.Module) : List ScopedName :=
  modules.flatMap fun m => m.decls.map fun d => ⟨m.name, d.name⟩

/-- The modules with the place of their first declarations. -/
def numbered : DeclId → List Source.Module → List (DeclId × Source.Module)
  | _, [] => []
  | id, m :: ms => (id, m) :: numbered (id + m.decls.length) ms

/-- The errors of a list of results. -/
def errorsOf {α : Type} (results : List (Except Error α)) : List Error :=
  results.filterMap fun
    | .ok _ => none
    | .error e => some e

/-- The values of a list of results. -/
def valuesOf {α : Type} (results : List (Except Error α)) : List α :=
  results.filterMap fun
    | .ok a => some a
    | .error _ => none

/-- The module whose first declaration has the place `id`. -/
def resolveModule (table : NameTable) (id : DeclId) (m : Source.Module) : Module :=
  let scope : Scope := ⟨table, m, [], .ofModule m.name⟩
  ⟨m.name, m.imported, List.range' id m.decls.length, scope.resolveAnnotations m.annotations⟩

/-- The set of modules with the given table of names, if all names can be looked up. -/
def resolveWith (table : NameTable) (modules : List (DeclId × Source.Module)) :
    Except (List Error) ModuleSet :=
  let results := modules.map fun (id, m) => resolveDecls table m id m.decls
  match errorsOf results with
  | [] =>
    .ok ⟨modules.map fun (id, m) => resolveModule table id m, (valuesOf results).flatten, table⟩
  | errors => .error errors

end Resolve

/-- The closed set of a list of modules. -/
def ModuleSet.resolve (modules : List Source.Module) : Except (List Error) ModuleSet :=
  match firstRepeated [] (modules.map (·.name)) with
  | some name => .error [.duplicateModule name]
  | none =>
    match Imports.errors modules with
    | [] =>
      match modules.filterMap Resolve.takenError with
      | [] =>
        Resolve.resolveWith (Resolve.declNames modules).zipIdx (Resolve.numbered 0 modules)
      | errors => .error errors
    | errors => .error errors

end Adl
