import Adl.Proofs.Model.ImportErrors
import Adl.Proofs.Model.Names
import Adl.Proofs.Source.Dependencies
import Adl.Proofs.Source.RoundTrip

/-!
# Outline — what is read of a module before its declarations

Names and imports are checked, and names are looked up, by the outline of the modules: their names,
their imports without places, and the names of their declarations.  So modules with the same
outlines are resolved alike if each of their declarations is (`resolve_eq_of_outlines`).
-/

namespace Adl

/-- The declaration without anything but its name. -/
def Source.Decl.outline (d : Source.Decl) : Source.Decl := ⟨d.name, [], [], .struct [], .start⟩

/-- The module without anything but its name, its imports and the names of its declarations. -/
def Source.Module.outline (m : Source.Module) : Source.Module :=
  ⟨m.name, m.imports.map Source.Import.unplaced, m.decls.map Source.Decl.outline, []⟩

theorem imported_outline (m : Source.Module) : m.outline.imported = m.imported := by
  rw [Source.Module.imported, Source.Module.outline, List.map_map]
  rfl

/-! ### Looking up -/

namespace Resolve.Scope

/-- The scope with the outline of its module. -/
def outlined (scope : Scope) : Scope := { scope with module := scope.module.outline }

theorem imported_outlined (scope : Scope) (name : String) :
    scope.outlined.imported name = scope.imported name := by
  rw [imported, outlined, Source.Module.outline, List.foldl_map]
  rfl

theorem resolveName_outlined (scope : Scope) (written : String) :
    scope.outlined.resolveName written = scope.resolveName written := by
  unfold resolveName
  simp only [imported_outlined]
  rfl

theorem annotationKey_outlined (scope : Scope) (written : String) :
    scope.outlined.annotationKey written = scope.annotationKey written := by
  unfold annotationKey
  simp only [imported_outlined]
  rfl

variable {scope scope' : Scope}

/-- The places in a type are not read when it is resolved. -/
theorem resolveType_unplaced (h : ∀ written, scope.resolveName written = scope'.resolveName written)
    (t : Source.TypeExpr) : scope.resolveType t.unplaced = scope'.resolveType t := by
  induction t with
  | mk name args position ih =>
    have hargs : scope.resolveTypes (args.map Source.TypeExpr.unplaced) =
        scope'.resolveTypes args := by
      clear position
      induction args with
      | nil => rfl
      | cons t ts ihs =>
        obtain ⟨ht, hts⟩ := List.forall_mem_cons.mp ih
        rw [List.map_cons, resolveTypes, resolveTypes, ht, ihs hts]
    rw [Source.TypeExpr.unplaced, Source.TypeExpr.unplacedAll_eq_map, resolveType, resolveType,
      h, hargs]

section

variable (h : scope.outlined = scope'.outlined)

include h

theorem resolveName_eq_of_outlined (written : String) :
    scope.resolveName written = scope'.resolveName written := by
  rw [← resolveName_outlined scope, h, resolveName_outlined]

theorem annotationKey_eq_of_outlined (written : String) :
    scope.annotationKey written = scope'.annotationKey written := by
  rw [← annotationKey_outlined scope, h, annotationKey_outlined]

theorem resolveType_eq_of_outlined {t t' : Source.TypeExpr} (ht : t.unplaced = t'.unplaced) :
    scope.resolveType t = scope'.resolveType t' := by
  rw [← resolveType_unplaced (fun _ => rfl) t, ht,
    resolveType_unplaced (resolveName_eq_of_outlined h) t']

end

end Resolve.Scope

/-! ### Checks -/

section

variable (modules : List Source.Module)

theorem find?_outline (name : String) :
    Imports.find? (modules.map Source.Module.outline) name =
      (Imports.find? modules name).map Source.Module.outline := by
  rw [Imports.find?, List.find?_map]
  rfl

theorem unknown?_outline (m : Source.Module) (i : Source.Import) :
    Imports.unknown? (modules.map Source.Module.outline) m.outline i.unplaced =
      Imports.unknown? modules m i := by
  unfold Imports.unknown?
  rw [Source.Import.unplaced, find?_outline]
  cases Imports.find? modules i.module with
  | none => rfl
  | some target =>
    cases i.kind with
    | all => rfl
    | name name =>
      have hany : target.outline.decls.any (·.name = name) = target.decls.any (·.name = name) := by
        rw [Source.Module.outline, List.any_map]
        rfl
      dsimp only [Option.map_some]
      rw [hany]
      rfl

theorem importErrors_outline :
    Imports.errors (modules.map Source.Module.outline) = Imports.errors modules := by
  have himports : (modules.map Source.Module.outline).map (fun m => (m.name, m.imported)) =
      modules.map fun m => (m.name, m.imported) := by
    rw [List.map_map]
    exact List.map_congr_left fun m _ => congrArg (Prod.mk m.name) (imported_outline m)
  have hunknowns : Imports.unknowns (modules.map Source.Module.outline) =
      Imports.unknowns modules := by
    rw [Imports.unknowns, Imports.unknowns, List.flatMap_map]
    congr 1
    funext m
    rw [Source.Module.outline, List.filterMap_map]
    exact congrArg (m.imports.filterMap ·) (funext fun i => unknown?_outline modules m i)
  rw [Imports.errors, Imports.errors, hunknowns, Imports.findCycle_congr himports]

theorem takenName_outline (seen : List String) (ds : List Source.Decl) :
    Resolve.takenName seen (ds.map Source.Decl.outline) = Resolve.takenName seen ds := by
  induction ds generalizing seen with
  | nil => rfl
  | cons d ds ih =>
    rw [List.map_cons, Resolve.takenName, Resolve.takenName]
    exact if_congr Iff.rfl rfl (ih _)

theorem takenErrors_outline :
    (modules.map Source.Module.outline).filterMap Resolve.takenError =
      modules.filterMap Resolve.takenError := by
  rw [List.filterMap_map]
  congr 1
  funext m
  exact congrArg (Option.map _) (takenName_outline [] m.decls)

theorem declNames_outline :
    Resolve.declNames (modules.map Source.Module.outline) = Resolve.declNames modules := by
  rw [Resolve.declNames, Resolve.declNames, List.flatMap_map]
  congr 1
  funext m
  rw [Source.Module.outline, List.map_map]
  rfl

end

/-! ### Resolving -/

section

variable {table : NameTable} {modules modules' : List Source.Module}

/-- What is made of a module is the same as of another one with the same outline, wherever their
declarations stand. -/
structure ResolvedAlike (table : NameTable) (m m' : Source.Module) : Prop where
  outline_eq : m.outline = m'.outline
  decls_eq : ∀ id, Resolve.resolveDecls table m id m.decls =
    Resolve.resolveDecls table m' id m'.decls
  module_eq : ∀ id, Resolve.resolveModule table id m = Resolve.resolveModule table id m'

theorem ResolvedAlike.length_eq {m m' : Source.Module} (h : ResolvedAlike table m m') :
    m.decls.length = m'.decls.length := by
  simpa only [Source.Module.outline, List.length_map] using
    congrArg (fun m : Source.Module => m.decls.length) h.outline_eq

theorem resolveWith_eq (h : List.Forall₂ (ResolvedAlike table) modules modules') (k : DeclId) :
    Resolve.resolveWith table (Resolve.numbered k modules) =
      Resolve.resolveWith table (Resolve.numbered k modules') := by
  have hnumbered := Resolve.forall₂_numbered (fun _ _ hm => hm.length_eq) h k
  have hdecls : (Resolve.numbered k modules).map (fun p =>
        Resolve.resolveDecls table p.2 p.1 p.2.decls) =
      (Resolve.numbered k modules').map fun p =>
        Resolve.resolveDecls table p.2 p.1 p.2.decls := by
    refine map_eq_of_forall₂ (hnumbered.imp ?_)
    rintro ⟨id, m⟩ ⟨_, m'⟩ ⟨rfl, hm⟩
    exact hm.decls_eq id
  have hmodules : (Resolve.numbered k modules).map (fun p =>
        Resolve.resolveModule table p.1 p.2) =
      (Resolve.numbered k modules').map fun p => Resolve.resolveModule table p.1 p.2 := by
    refine map_eq_of_forall₂ (hnumbered.imp ?_)
    rintro ⟨id, m⟩ ⟨_, m'⟩ ⟨rfl, hm⟩
    exact hm.module_eq id
  unfold Resolve.resolveWith
  dsimp only
  rw [hdecls, hmodules]

/-- Modules with the same outlines, whose declarations are resolved alike, are resolved alike. -/
theorem resolve_eq_of_outlines (h : List.Forall₂
    (ResolvedAlike (Resolve.declNames modules).zipIdx) modules modules') :
    ModuleSet.resolve modules = ModuleSet.resolve modules' := by
  have houtlines : modules.map Source.Module.outline = modules'.map Source.Module.outline :=
    map_eq_of_forall₂ (h.imp fun _ _ hm => hm.outline_eq)
  have hnames : modules.map (·.name) = modules'.map (·.name) :=
    map_eq_of_forall₂ (h.imp fun _ _ hm => congrArg (·.name) hm.outline_eq)
  have himports : Imports.errors modules = Imports.errors modules' := by
    rw [← importErrors_outline modules, houtlines, importErrors_outline]
  have htaken : modules.filterMap Resolve.takenError = modules'.filterMap Resolve.takenError := by
    rw [← takenErrors_outline modules, houtlines, takenErrors_outline]
  have htable : Resolve.declNames modules = Resolve.declNames modules' := by
    rw [← declNames_outline modules, houtlines, declNames_outline]
  rw [ModuleSet.resolve, ModuleSet.resolve, hnames, himports, htaken, resolveWith_eq h 0, htable]

end

end Adl
