import Adl.Compile.Export
import Adl.Compile.Library
import Adl.Model.Resolve

/-!
# Compilation — checked module sets

Compiling looks up all names, checks all types, then all defaults; each phase runs only if the one
before found nothing, and reports the errors of all modules.
-/

namespace Adl

/-- A checked module set with the defaults and the records of its declarations, in order. -/
structure Compilation where
  set : ModuleSet
  defaults : List Defaults
  records : List Schema.Decl

namespace Compilation

/-- Checks a list of modules, which must contain all modules that it mentions. -/
def ofModules (modules : List Source.Module) : Except Error Compilation := do
  let set ← (ModuleSet.resolve modules).mapError Error.ofList
  set.checkAll.mapError Error.ofList
  let results : Except (List Error) (List Defaults) := (Graph.plain set).allDefaults
  let defaults ← results.mapError Error.ofList
  let records := set.decls.map fun d => set.exportDecl d.id (defaults[d.id]?.getD .empty)
  return ⟨set, defaults, records⟩

/-- The modules of numbered texts, the first of which has the given number. -/
def parseSources : Nat → List String → Except Error (List Source.Module)
  | _, [] => return []
  | i, text :: texts => do
    let first ← Source.ofText ("<source " ++ toString i ++ ">") text
    return first :: (← parseSources (i + 1) texts)

/-- Checks the modules of a list of texts, completed by those of the prelude. -/
def ofSources (texts : List String) : Except Error Compilation := do
  ofModules (← Library.complete (← parseSources 0 texts))

variable (c : Compilation)

/-- The record of the declaration of a name. -/
def record? (name : ScopedName) : Option Schema.Decl := do
  c.records[← c.set.lookup name]?

/-- The module of a name. -/
def module (name : String) : Except Error Module :=
  match c.set.module? name with
  | some m => .ok m
  | none => .error (.moduleNotFound name)

/-- The records of the declarations of a module. -/
def moduleRecords (name : String) : Except Error (List Schema.Decl) := do
  let m ← c.module name
  return m.decls.filterMap (c.records[·]?)

/-- The defaults of the declaration at a place. -/
def defaultsOf (id : DeclId) : Defaults := c.defaults[id]?.getD .empty

/-- The value of a literal at a type. -/
def value (t : TypeExpr) (l : Literal) : Except Error Value :=
  let location :=
    match t.head with
    | .decl id => (c.set.decl id).location
    | _ => .ofModule ""
  (Graph.plain c.set).normalize l t location

/-- The canonical literal of a literal at a type. -/
def canonicalLiteral (t : TypeExpr) (l : Literal) : Except Error Literal :=
  return (← c.value t l).toLiteral c.set

end Compilation

end Adl
