import Adl.Error

/-!
# Imports — the import graph of a list of modules

Every import must name a module of the list, and a declaration of it if it names one, and the
imports must not lead from a module back to itself.  `findCycle` searches depth first and gives
the first cycle it meets.
-/

namespace Adl.Imports

open Source (Import)

/-- The module of a name. -/
def find? (modules : List Source.Module) (name : String) : Option Source.Module :=
  modules.find? (·.name = name)

/-! ### Unknown imports -/

/-- The error of an import of module `m`, if it names nothing. -/
def unknown? (modules : List Source.Module) (m : Source.Module) (i : Import) : Option Error :=
  match find? modules i.module with
  | none => some (.unknownReference (.ofModule m.name) i.module)
  | some target =>
    match i.kind with
    | .all => none
    | .name name =>
      if target.decls.any (·.name = name) then none
      else some (.unknownReference (.ofModule m.name) (i.module ++ "." ++ name))

/-- The errors of all imports that name nothing. -/
def unknowns (modules : List Source.Module) : List Error :=
  modules.flatMap fun m => m.imports.filterMap (unknown? modules m)

/-! ### Cycles -/

/-- Searches from a module; `path` leads to it, and `done` are the modules from which no cycle is
reached.  The error is a cycle, the answer the modules that are done afterwards. -/
def visit (modules : List Source.Module) :
    Nat → List String → List String → String → Except (List String) (List String)
  | fuel, path, done, name =>
    if name ∈ path then .error (path.dropWhile (· ≠ name) ++ [name])
    else if name ∈ done then .ok done
    else
      match find? modules name, fuel with
      | none, _ => .ok done
      | _, 0 => .ok done
      | some m, fuel + 1 => do
        let done ← m.imported.foldlM (visit modules fuel (path ++ [name])) done
        return name :: done

/-- The first cycle of imports, if there is one. -/
def findCycle (modules : List Source.Module) : Option (List String) :=
  match (modules.map (·.name)).foldlM (visit modules modules.length []) [] with
  | .ok _ => none
  | .error cycle => some cycle

/-- The errors of the imports of a list of modules: those that name nothing, then a cycle. -/
def errors (modules : List Source.Module) : List Error :=
  unknowns modules ++ ((findCycle modules).map Error.cyclicImport).toList

end Adl.Imports
