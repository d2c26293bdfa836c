import Adl.Compile.Compilation
import Adl.Model.Doc
import Adl.Target.Options

/-!
# Unit — what a target makes of a module

A source unit is a file that is generated from one module.  Every target builds it from a checked
module set, the defaults of its declarations, and their records.
-/

namespace Adl.Target

/-- A generated file: its path below the output directory and its contents. -/
structure SourceUnit where
  path : String
  contents : String
  deriving DecidableEq, Repr

/-- The text that consists of the given lines, the last of which is not ended. -/
def joinLines (lines : List String) : String := "\n".intercalate lines

/-- The record of a declaration with its name, as it is put into generated code. -/
structure Embedded where
  name : ScopedName
  json : String

/-- The records of the declarations of a module. -/
def embedded (c : Compilation) (m : Module) : List Embedded :=
  m.decls.filterMap fun id =>
    c.records[id]?.map fun r => ⟨(c.set.decl id).scopedName, r.toText⟩

end Adl.Target
