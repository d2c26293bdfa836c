import Adl.Error
import Adl.Prelude

/-!
# Library — adding the modules that need no file

A list of modules is completed by the modules of the prelude that it depends on and does not
supply itself.  Other missing modules are left alone: looking up names reports them.
-/

namespace Adl

namespace Source.Module

/-- The modules that a module depends on: the imported ones, then those of qualified types. -/
def dependencies (m : Module) : List String :=
  m.imported ++ m.referenced.filter (· ∉ m.imported)

end Source.Module

namespace Library

/-- Rejects two modules of one name. -/
def checkDistinct (modules : List Source.Module) : Except Error Unit :=
  match firstRepeated [] (modules.map (·.name)) with
  | some name => .error (.duplicateModule name)
  | none => .ok ()

/-- Adds the prelude module of a name if some module depends on it and none has its name. -/
def addMissing (modules : List Source.Module) (name : String) :
    Except Error (List Source.Module) :=
  if modules.any (·.name = name) then .ok modules
  else if modules.any (name ∈ ·.dependencies) then
    match Prelude.text? name with
    | some text => return modules ++ [← Source.ofText name text]
    | none => .ok modules
  else .ok modules

/-- The modules with those of the prelude that they depend on. -/
def complete (modules : List Source.Module) : Except Error (List Source.Module) := do
  checkDistinct modules
  Prelude.names.foldlM addMissing modules

end Library

end Adl
