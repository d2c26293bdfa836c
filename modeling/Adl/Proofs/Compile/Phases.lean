import Adl.Proofs.Compile.Compiled
import Adl.Proofs.Model.ImportErrors
import Adl.Proofs.Model.Names

/-!
# Phases — which errors compiling reports

Behind the checks of names and imports of modules there are four phases: no name is declared twice,
all names are looked up, all types are checked, and all defaults are read.  Each phase looks at the
declarations one by one, in a table or a set that is the same for all of them, and reports one error
for each module that has a declaration which fails: that of the first one (`FirstFaults`).  A phase
runs if the ones before it have found nothing, and what compiling reports are the errors of the one
phase that has found some (`phases_laws`).
-/

namespace Adl

open Resolve

variable {α ε : Type}

/-! ### Declarations in their places -/

/-- A declaration as it is written: in its module, with its number there and its place among the
declarations of all modules. -/
structure Placed where
  module : Source.Module
  index : ℕ
  decl : Source.Decl
  place : DeclId

/-- The declarations of a module, the first of which has the given place. -/
def Placed.ofModule (p : DeclId × Source.Module) : List Placed :=
  p.2.decls.zipIdx.map fun x => ⟨p.2, x.2, x.1, p.1 + x.2⟩

/-- The declarations of each module, in order. -/
def placed (modules : List Source.Module) : List (List Placed) :=
  (numbered 0 modules).map Placed.ofModule

/-! ### What the phases check -/

/-- The error of a result. -/
def faultOf : Except ε α → Option ε
  | .ok _ => none
  | .error e => some e

/-- The errors of a result. -/
def failures : Except (List ε) α → List ε
  | .ok _ => []
  | .error errors => errors

namespace Phase

variable (modules : List Source.Module) (set : ModuleSet)

/-- The name of the declaration is taken, by an earlier one of its module or by a primitive type. -/
def taken (p : Placed) : Option Error :=
  if p.decl.name ∈ (p.module.decls.take p.index).map (·.name) ∨
      (Primitive.ofName? p.decl.name).isSome then
    some (.duplicateDecl (.ofDecl p.module.name p.decl.name) p.decl.name)
  else none

/-- A name in the declaration cannot be looked up, or it declares one twice. -/
def unresolved (p : Placed) : Option Error :=
  faultOf (resolveDecl (declNames modules).zipIdx p.module p.place p.decl)

/-- A type in the declaration is not well formed. -/
def illTyped (p : Placed) : Option Error := (faultOf (set.checkDecl p.place)).map .type

/-- A default of the declaration cannot be read. -/
def misfit (p : Placed) : Option Error := faultOf ((Graph.plain set).defaults p.place).run

/-- What is found of names that are declared twice. -/
def takenErrors : List Error := modules.filterMap takenError

/-- What is found when names are looked up. -/
def unresolvedErrors : List Error :=
  failures (resolveWith (declNames modules).zipIdx (numbered 0 modules))

/-- What is found of the types. -/
def illTypedErrors : List Error := failures set.checkAll

/-- What is found of the defaults. -/
def misfitErrors : List Error := failures (Graph.plain set).allDefaults.run

end Phase

/-! ### What the phases report -/

/-- Each list with an element that fails a check has the error of the first such element, and the
other lists have none. -/
inductive FirstFaults (check : α → Option ε) : List (List α) → List ε → Prop
  | nil : FirstFaults check [] []
  | passed {as : List α} {rest : List (List α)} {errors : List ε} (h : ∀ a ∈ as, check a = none)
      (hrest : FirstFaults check rest errors) : FirstFaults check (as :: rest) errors
  | failed {before after : List α} {a : α} {e : ε} {rest : List (List α)} {errors : List ε}
      (hbefore : ∀ a ∈ before, check a = none) (ha : check a = some e)
      (hrest : FirstFaults check rest errors) :
      FirstFaults check ((before ++ a :: after) :: rest) (e :: errors)

/-- A phase reports one error for each module with a declaration that fails, in order, and nothing
if there is none. -/
structure PhaseReports (modules : List Source.Module) (check : Placed → Option Error)
    (errors : List Error) : Prop where
  firstFaults : FirstFaults check (placed modules) errors
  eq_nil_iff : errors = [] ↔ ∀ ps ∈ placed modules, ∀ p ∈ ps, check p = none

/-- Compiling fails, and these are the single errors that it reports. -/
def CompileErrors (modules : List Source.Module) (errors : List Error) : Prop :=
  ∃ e, Compilation.ofModules modules = .error e ∧ e.flatten = errors

/-- The phases run in order, and the first one that finds something is the last one. -/
structure PhasesInTurn (modules : List Source.Module) : Prop where
  taken : Phase.takenErrors modules ≠ [] → CompileErrors modules (Phase.takenErrors modules)
  unresolved : Phase.takenErrors modules = [] → Phase.unresolvedErrors modules ≠ [] →
    CompileErrors modules (Phase.unresolvedErrors modules)
  resolved_iff : (∃ set, ModuleSet.resolve modules = .ok set) ↔
    Phase.takenErrors modules = [] ∧ Phase.unresolvedErrors modules = []
  illTyped : ∀ set, ModuleSet.resolve modules = .ok set → Phase.illTypedErrors set ≠ [] →
    CompileErrors modules (Phase.illTypedErrors set)
  misfit : ∀ set, ModuleSet.resolve modules = .ok set → Phase.illTypedErrors set = [] →
    Phase.misfitErrors set ≠ [] → CompileErrors modules (Phase.misfitErrors set)
  compiled : ∀ set, ModuleSet.resolve modules = .ok set → Phase.illTypedErrors set = [] →
    Phase.misfitErrors set = [] → ∃ c, Compilation.ofModules modules = .ok c ∧ c.set = set

/-! ### First faults -/

namespace FirstFaults

variable {check : α → Option ε} {lists : List (List α)} {errors : List ε}

/-- The first faults are found by searching each list. -/
theorem of_filterMap (check : α → Option ε) (lists : List (List α)) :
    FirstFaults check lists (lists.filterMap (List.findSome? check)) := by
  induction lists with
  | nil => exact .nil
  | cons as lists ih =>
    cases hfind : as.findSome? check with
    | none =>
      rw [List.filterMap_cons_none hfind]
      exact .passed (List.findSome?_eq_none_iff.mp hfind) ih
    | some e =>
      rw [List.filterMap_cons_some hfind]
      obtain ⟨before, a, after, rfl, ha, hbefore⟩ := List.findSome?_eq_some_iff.mp hfind
      exact .failed hbefore ha ih

theorem eq_nil_iff (h : FirstFaults check lists errors) :
    errors = [] ↔ ∀ as ∈ lists, ∀ a ∈ as, check a = none := by
  induction h with
  | nil => exact iff_of_true rfl fun _ h => nomatch h
  | passed has _ ih => rw [ih, List.forall_mem_cons, and_iff_right has]
  | failed hbefore ha _ _ =>
    refine iff_of_false (List.cons_ne_nil _ _) fun hall => ?_
    have hnone := hall _ List.mem_cons_self _ (List.mem_append_right _ List.mem_cons_self)
    cases ha.symm.trans hnone

/-- Every error is that of some element. -/
theorem exists_of_mem (h : FirstFaults check lists errors) {e : ε} (he : e ∈ errors) :
    ∃ a, check a = some e := by
  induction h with
  | nil => cases he
  | passed _ _ ih => exact ih he
  | failed _ ha _ ih =>
    rcases List.mem_cons.mp he with rfl | he
    · exact ⟨_, ha⟩
    · exact ih he

end FirstFaults

/-! ### Results of phases -/

/-- What a phase gives if it finds these errors: a result only if there are none. -/
def okUnless (errors : List ε) (a : α) : Except (List ε) α :=
  match errors with
  | [] => .ok a
  | errors => .error errors

theorem failures_okUnless (errors : List ε) (a : α) : failures (okUnless errors a) = errors := by
  cases errors <;> rfl

variable {modules : List Source.Module} {set : ModuleSet}

theorem PhaseReports.of_eq {check : Placed → Option Error} {errors : List Error}
    (h : errors = (placed modules).filterMap (List.findSome? check)) :
    PhaseReports modules check errors := by
  have hfaults := FirstFaults.of_filterMap check (placed modules)
  rw [← h] at hfaults
  exact ⟨hfaults, hfaults.eq_nil_iff⟩

/-! ### Names that are declared twice -/

/-- The declarations of a module behind the first ones of it. -/
def Placed.behind (m : Source.Module) (id : DeclId) (k : ℕ) (ds : List Source.Decl) :
    List Placed :=
  (ds.zipIdx k).map fun x => ⟨m, x.2, x.1, id + x.2⟩

theorem Placed.behind_cons (m : Source.Module) (id : DeclId) (k : ℕ) (d : Source.Decl)
    (ds : List Source.Decl) :
    behind m id k (d :: ds) = ⟨m, k, d, id + k⟩ :: behind m id (k + 1) ds := by
  rw [behind, List.zipIdx_cons, List.map_cons]
  rfl

theorem takenName_eq_findSome? {m : Source.Module} {id : DeclId} {before ds : List Source.Decl}
    {seen : List String} (hdecls : m.decls = before ++ ds)
    (hseen : ∀ n, n ∈ seen ↔ n ∈ before.map (·.name)) :
    (takenName seen ds).map (fun name => Error.duplicateDecl (.ofDecl m.name name) name) =
      (Placed.behind m id before.length ds).findSome? Phase.taken := by
  induction ds generalizing before seen with
  | nil => rfl
  | cons d ds ih =>
    have hbefore : m.decls.take before.length = before := by rw [hdecls, List.take_left]
    rw [Placed.behind_cons, List.findSome?_cons, takenName, Phase.taken]
    simp only [hbefore, ← hseen]
    split
    · rfl
    · have hdecls' : m.decls = (before ++ [d]) ++ ds := by
        rw [hdecls, List.append_assoc, List.singleton_append]
      have hseen' : ∀ n, n ∈ d.name :: seen ↔ n ∈ (before ++ [d]).map (·.name) := by
        intro n
        rw [List.mem_cons, hseen, List.map_append, List.mem_append, List.map_singleton,
          List.mem_singleton, or_comm]
      have hnext := ih hdecls' hseen'
      rwa [List.length_append, List.length_singleton] at hnext

theorem takenErrors_eq (modules : List Source.Module) :
    Phase.takenErrors modules = (placed modules).filterMap (List.findSome? Phase.taken) := by
  rw [Phase.takenErrors, placed, List.filterMap_map]
  conv_lhs => rw [← map_snd_numbered 0 modules, List.filterMap_map]
  refine List.filterMap_congr fun p _ => ?_
  exact takenName_eq_findSome? (List.nil_append _).symm fun n => Iff.rfl

/-! ### Names that are looked up -/

theorem errorsOf_eq_filterMap (results : List (Except Error α)) :
    errorsOf results = results.filterMap faultOf := by
  refine List.filterMap_congr fun r _ => ?_
  cases r <;> rfl

theorem faultOf_resolveDecls {m : Source.Module} {id : DeclId} {k : ℕ} {ds : List Source.Decl} :
    faultOf (resolveDecls (declNames modules).zipIdx m (id + k) ds) =
      (Placed.behind m id k ds).findSome? (Phase.unresolved modules) := by
  induction ds generalizing k with
  | nil => rfl
  | cons d ds ih =>
    rw [Placed.behind_cons, List.findSome?_cons, ← ih, resolveDecls, Phase.unresolved]
    cases resolveDecl (declNames modules).zipIdx m (id + k) d with
    | error e => rfl
    | ok first =>
      dsimp only [faultOf]
      rw [Nat.add_assoc]
      cases hrest : resolveDecls (declNames modules).zipIdx m (id + (k + 1)) ds <;>
        rfl

theorem resolveWith_eq_okUnless (table : NameTable) (ms : List (DeclId × Source.Module)) :
    resolveWith table ms =
      okUnless (errorsOf (ms.map fun p => resolveDecls table p.2 p.1 p.2.decls))
        ⟨ms.map fun p => resolveModule table p.1 p.2,
          (valuesOf (ms.map fun p => resolveDecls table p.2 p.1 p.2.decls)).flatten, table⟩ := by
  rw [resolveWith]
  dsimp only
  generalize (ms.map fun p => resolveDecls table p.2 p.1 p.2.decls) = results
  cases errorsOf results <;> rfl

theorem unresolvedErrors_eq (modules : List Source.Module) :
    Phase.unresolvedErrors modules =
      (placed modules).filterMap (List.findSome? (Phase.unresolved modules)) := by
  rw [Phase.unresolvedErrors, resolveWith_eq_okUnless, failures_okUnless, errorsOf_eq_filterMap,
    List.filterMap_map, placed, List.filterMap_map]
  exact List.filterMap_congr fun p _ => faultOf_resolveDecls (k := 0)

/-! ### Declarations of a set -/

section

variable {check : α → Option Error} {name : String} {failed : List String}

/-- What is left of a module that has failed is passed over. -/
theorem go_of_mem (hname : name ∈ failed) (as : List α) (rest : List (String × Error)) :
    firstPerModule.go failed ((as.filterMap fun a => (check a).map (name, ·)) ++ rest) =
      firstPerModule.go failed rest := by
  induction as with
  | nil => rfl
  | cons a as ih =>
    cases ha : check a with
    | none => rwa [List.filterMap_cons_none (by rw [ha]; rfl)]
    | some e =>
      rw [List.filterMap_cons_some (by rw [ha]; rfl), List.cons_append, firstPerModule.go,
        if_pos hname, ih]

theorem go_of_notMem (hname : name ∉ failed) (as : List α) (rest : List (String × Error)) :
    firstPerModule.go failed ((as.filterMap fun a => (check a).map (name, ·)) ++ rest) =
      match as.findSome? check with
      | none => firstPerModule.go failed rest
      | some e => e :: firstPerModule.go (name :: failed) rest := by
  induction as with
  | nil => rfl
  | cons a as ih =>
    rw [List.findSome?_cons]
    cases ha : check a with
    | none => rw [List.filterMap_cons_none (by rw [ha]; rfl), ih]
    | some e =>
      rw [List.filterMap_cons_some (by rw [ha]; rfl), List.cons_append, firstPerModule.go,
        if_neg hname, go_of_mem List.mem_cons_self as]

theorem go_flatMap {groups : List (String × List α)} (hnd : (groups.map Prod.fst).Nodup)
    (hfresh : ∀ g ∈ groups, g.1 ∉ failed) :
    firstPerModule.go failed
        (groups.flatMap fun g => g.2.filterMap fun a => (check a).map (g.1, ·)) =
      groups.filterMap fun g => g.2.findSome? check := by
  induction groups generalizing failed with
  | nil => rfl
  | cons g groups ih =>
    obtain ⟨hg, hgroups⟩ := List.forall_mem_cons.mp hfresh
    obtain ⟨hnotMem, hnd⟩ := List.nodup_cons.mp hnd
    rw [List.flatMap_cons, go_of_notMem hg, List.filterMap_cons]
    cases g.2.findSome? check with
    | none => exact ih hnd hgroups
    | some e =>
      refine congrArg (e :: ·) (ih hnd fun g' hg' hmem => ?_)
      rcases List.mem_cons.mp hmem with heq | hmem
      · exact hnotMem (heq ▸ List.mem_map_of_mem hg')
      · exact hgroups g' hg' hmem

end

/-- The modules and the places of the declarations of a set are those that are written. -/
theorem map_zipIdx_places (k : DeclId) (modules : List Source.Module) :
    ((places modules).zipIdx k).map (fun x => (x.1.1.name, x.2)) =
      (numbered k modules).flatMap fun q =>
        (Placed.ofModule q).map fun p => (q.2.name, p.place) := by
  induction modules generalizing k with
  | nil => rfl
  | cons m modules ih =>
    have hplaces : places (m :: modules) = m.decls.map (fun d => (m, d)) ++ places modules := rfl
    rw [hplaces, List.zipIdx_append, List.map_append, List.length_map, ih, numbered,
      List.flatMap_cons, Placed.ofModule, List.zipIdx_map, List.map_map, List.map_map,
      List.zipIdx_eq_map_add, List.map_map]
    rfl

theorem map_decls_eq (h : Resolved modules set) :
    set.decls.map (fun d => (d.module, d.id)) =
      (numbered 0 modules).flatMap fun q =>
        (Placed.ofModule q).map fun p => (q.2.name, p.place) := by
  rw [← map_zipIdx_places]
  refine (map_eq_of_forall₂ (h.decls_eq.imp fun x d hd => ?_)).symm
  obtain ⟨-, body, -, rfl⟩ := resolveDecl_eq_ok_iff.mp hd
  rfl

/-- The first error of each module of a set is that of the first declaration in it that fails. -/
theorem firstPerModule_decls (h : Resolved modules set) (check : DeclId → Option Error) :
    firstPerModule (set.decls.filterMap fun d => (check d.id).map (d.module, ·)) =
      (placed modules).filterMap (List.findSome? fun p => check p.place) := by
  have hgroups : (set.decls.filterMap fun d => (check d.id).map (d.module, ·)) =
      ((numbered 0 modules).map fun q => (q.2.name, Placed.ofModule q)).flatMap fun g =>
        g.2.filterMap fun p => (check p.place).map (g.1, ·) := by
    have hmap := congrArg (List.filterMap fun x : String × DeclId => (check x.2).map (x.1, ·))
      (map_decls_eq h)
    rw [List.filterMap_map, List.filterMap_flatMap] at hmap
    simp only [List.filterMap_map] at hmap
    rw [List.flatMap_map]
    exact hmap
  have hnd : (((numbered 0 modules).map fun q => (q.2.name, Placed.ofModule q)).map
      Prod.fst).Nodup := by
    have hnames := h.nodup_moduleNames
    rw [← map_snd_numbered 0 modules, List.map_map] at hnames
    rwa [List.map_map]
  rw [hgroups, firstPerModule, go_flatMap hnd fun _ _ => List.not_mem_nil, List.filterMap_map,
    placed, List.filterMap_map]
  rfl

/-- Checking the types finds the first fault of each module. -/
theorem checkAll_eq_okUnless (set : ModuleSet) :
    set.checkAll = okUnless (firstPerModule (set.decls.filterMap fun d =>
      ((faultOf (set.checkDecl d.id)).map Error.type).map (d.module, ·))) () := by
  rw [ModuleSet.checkAll, List.filterMap_congr (g := fun d =>
    ((faultOf (set.checkDecl d.id)).map Error.type).map (d.module, ·))]
  · generalize firstPerModule _ = errors
    cases errors <;> rfl
  · intro d _
    cases set.checkDecl d.id <;> rfl

theorem illTypedErrors_eq (h : Resolved modules set) :
    Phase.illTypedErrors set =
      (placed modules).filterMap (List.findSome? (Phase.illTyped set)) := by
  rw [Phase.illTypedErrors, checkAll_eq_okUnless, failures_okUnless]
  exact firstPerModule_decls h fun id => (faultOf (set.checkDecl id)).map Error.type

theorem allDefaults_eq_okUnless (set : ModuleSet) :
    (Graph.plain set).allDefaults.run =
      okUnless (firstPerModule (Defaults.errorsOf (Graph.defaultResults set)))
        (Defaults.valuesOf (Graph.defaultResults set)) := by
  rw [Graph.allDefaults_plain]
  cases firstPerModule (Defaults.errorsOf (Graph.defaultResults set)) <;> rfl

theorem misfitErrors_eq (h : Resolved modules set) :
    Phase.misfitErrors set = (placed modules).filterMap (List.findSome? (Phase.misfit set)) := by
  have herrors : Defaults.errorsOf (Graph.defaultResults set) =
      set.decls.filterMap fun d =>
        (faultOf ((Graph.plain set).defaults d.id).run).map (d.module, ·) := by
    rw [Defaults.errorsOf, Graph.defaultResults, List.filterMap_map]
    refine List.filterMap_congr fun d _ => ?_
    rw [Function.comp_apply]
    cases ((Graph.plain set).defaults d.id).run <;> rfl
  rw [Phase.misfitErrors, allDefaults_eq_okUnless, failures_okUnless, herrors]
  exact firstPerModule_decls h fun id => faultOf ((Graph.plain set).defaults id).run

/-! ### Single errors -/

/-- The error is one error. -/
def Error.IsSingle (e : Error) : Prop := e.flatten = [e]

/-- Single errors are the parts of the error that they are put together to. -/
theorem Error.flatten_ofList {errors : List Error} (h : ∀ e ∈ errors, e.IsSingle) :
    (Error.ofList errors).flatten = errors := by
  have hall : ∀ es : List Error, (∀ e ∈ es, e.IsSingle) → Error.flattenAll es = es := by
    intro es hes
    induction es with
    | nil => rfl
    | cons e es ih =>
      obtain ⟨he, hes⟩ := List.forall_mem_cons.mp hes
      rw [Error.flattenAll, he, ih hes, List.singleton_append]
  match errors with
  | [] => rfl
  | [e] => exact h e List.mem_cons_self
  | e :: e' :: errors => exact hall _ h

theorem Error.OfName.isSingle {e : Error} (h : e.OfName) : e.IsSingle := by
  cases h <;> rfl

theorem isSingle_of_taken (p : Placed) (e : Error) (h : Phase.taken p = some e) :
    e.IsSingle := by
  rw [Phase.taken] at h
  split at h
  · cases h
    rfl
  · cases h

theorem eq_error_of_faultOf {x : Except ε α} {e : ε} (h : faultOf x = some e) : x = .error e := by
  cases x with
  | ok a => cases h
  | error e' =>
    cases h
    rfl

theorem isSingle_of_unresolved (p : Placed) (e : Error) (h : Phase.unresolved modules p = some e) :
    e.IsSingle :=
  (ofName_resolveDecl p.place p.decl e (eq_error_of_faultOf h)).isSingle

theorem isSingle_of_illTyped (p : Placed) (e : Error) (h : Phase.illTyped set p = some e) :
    e.IsSingle := by
  obtain ⟨e', -, rfl⟩ := Option.map_eq_some_iff.mp h
  rfl

theorem isSingle_of_ownValue (d : Decl) (location : Location) (t : TypeExpr) (l : Literal) :
    FailsWith Error.IsSingle ((Graph.plain set).ownValue d location t l).run := by
  unfold Graph.ownValue
  dsimp only
  split
  · rw [Graph.normalize]
    refine .adapt ?_ _
    exact fun _ => rfl
  · exact .error rfl

/-- An error of a default is a single one. -/
theorem isSingle_of_misfit (p : Placed) (e : Error) (h : Phase.misfit set p = some e) :
    e.IsSingle := by
  have hfields (d : Decl) (m : Member) :
      FailsWith Error.IsSingle ((Graph.plain set).fieldDefault d m).run := by
    rw [Graph.fieldDefault]
    cases m.default with
    | none => exact .pure _
    | some l =>
      dsimp only
      rw [← bind_pure_comp, run_bind]
      exact (isSingle_of_ownValue d _ _ l).bind fun _ => .pure _
  suffices hall : FailsWith Error.IsSingle ((Graph.plain set).defaults p.place).run from
    hall e (eq_error_of_faultOf h)
  rw [Graph.defaults]
  split
  · rw [run_bind, run_mapM]
    exact (FailsWith.mapM (hfields _) _).bind fun _ => .pure _
  · exact .pure _
  · exact .pure _
  · rw [run_bind]
    exact (isSingle_of_ownValue _ _ _ _).bind fun _ => .pure _
  · exact .pure _
  · exact .pure _

theorem PhaseReports.isSingle {check : Placed → Option Error} {errors : List Error}
    (h : PhaseReports modules check errors) (hcheck : ∀ p e, check p = some e → e.IsSingle) :
    ∀ e ∈ errors, e.IsSingle := by
  intro e he
  obtain ⟨p, hp⟩ := h.firstFaults.exists_of_mem he
  exact hcheck p e hp

/-! ### Phases in turn -/

theorem eq_error_of_failures {x : Except (List ε) α} (h : failures x ≠ []) :
    x = .error (failures x) := by
  cases x with
  | ok a => exact absurd rfl h
  | error errors => rfl

/-- A phase that has found nothing has a result. -/
theorem exists_eq_ok_of_okUnless {x : Except (List ε) α} {errors : List ε} {a : α}
    (hx : x = okUnless errors a) (h : failures x = []) : ∃ a, x = .ok a := by
  rw [hx, failures_okUnless] at h
  rw [hx, h]
  exact ⟨a, rfl⟩

theorem resolve_eq (hnames : (modules.map (·.name)).Nodup)
    (himports : Imports.errors modules = []) :
    ModuleSet.resolve modules =
      match Phase.takenErrors modules with
      | [] => resolveWith (declNames modules).zipIdx (numbered 0 modules)
      | errors => .error errors := by
  rw [ModuleSet.resolve, firstRepeated_eq_none_iff.mpr ⟨hnames, fun _ _ => List.not_mem_nil⟩,
    himports]
  rfl

theorem phasesInTurn (hnames : (modules.map (·.name)).Nodup)
    (himports : Imports.errors modules = []) : PhasesInTurn modules := by
  have hresolve := resolve_eq hnames himports
  have htaken (hnil : Phase.takenErrors modules = []) : ModuleSet.resolve modules =
      resolveWith (declNames modules).zipIdx (numbered 0 modules) := by rw [hresolve, hnil]
  have hfails {errors : List Error} (h : Compilation.ofModules modules = .error (.ofList errors))
      (hsingle : ∀ e ∈ errors, e.IsSingle) : CompileErrors modules errors :=
    ⟨_, h, Error.flatten_ofList hsingle⟩
  have hset {set : ModuleSet} (h : ModuleSet.resolve modules = .ok set) :
      Compilation.ofModules modules = (do
        set.checkAll.mapError Error.ofList
        let defaults ← ((Graph.plain set).allDefaults.run).mapError Error.ofList
        return ⟨set, defaults,
          set.decls.map fun d => set.exportDecl d.id (defaults[d.id]?.getD .empty)⟩) := by
    rw [Compilation.ofModules, h]
    rfl
  refine ⟨fun hne => ?_, fun hnil hne => ?_, ⟨?_, ?_⟩, fun set h hne => ?_,
    fun set h hnil hne => ?_, fun set h hnil hnil' => ?_⟩
  · have herror : ModuleSet.resolve modules = .error (Phase.takenErrors modules) := by
      rw [hresolve]
      split
      · next hnil => exact absurd hnil hne
      · rfl
    refine hfails ?_ ((PhaseReports.of_eq (takenErrors_eq modules)).isSingle isSingle_of_taken)
    rw [Compilation.ofModules, herror]
    rfl
  · refine hfails ?_
      ((PhaseReports.of_eq (unresolvedErrors_eq modules)).isSingle isSingle_of_unresolved)
    rw [Compilation.ofModules, htaken hnil, eq_error_of_failures hne]
    rfl
  · rintro ⟨set, h⟩
    have hnil : Phase.takenErrors modules = [] := (resolve_eq_ok_iff.mp h).none_taken
    rw [htaken hnil] at h
    exact ⟨hnil, by rw [Phase.unresolvedErrors, h, failures]⟩
  · rintro ⟨hnil, hresolved⟩
    rw [htaken hnil]
    exact exists_eq_ok_of_okUnless (resolveWith_eq_okUnless _ _) hresolved
  · have hreports := PhaseReports.of_eq (illTypedErrors_eq (resolve_eq_ok_iff.mp h))
    refine hfails ?_ (hreports.isSingle isSingle_of_illTyped)
    rw [hset h, eq_error_of_failures hne]
    rfl
  · obtain ⟨_, hchecked⟩ := exists_eq_ok_of_okUnless (checkAll_eq_okUnless set) hnil
    have hreports := PhaseReports.of_eq (misfitErrors_eq (resolve_eq_ok_iff.mp h))
    refine hfails ?_ (hreports.isSingle isSingle_of_misfit)
    rw [hset h, hchecked, eq_error_of_failures hne]
    rfl
  · obtain ⟨_, hchecked⟩ := exists_eq_ok_of_okUnless (checkAll_eq_okUnless set) hnil
    obtain ⟨defaults, hdefaults⟩ := exists_eq_ok_of_okUnless (allDefaults_eq_okUnless set) hnil'
    rw [hset h, hchecked, hdefaults]
    exact ⟨_, rfl, rfl⟩

/-! ### Main statement -/

/-- **What the phases report.**  For modules with distinct names and imports without errors, each
phase finds one error for each module with a declaration that fails, in the order of the modules:
that of its first declaration which fails when it is checked in the table of all names, or in the
set at its place.  The phases run in turn, and compiling fails with the errors of the one phase that
has found some. -/
theorem phases_laws (hnames : (modules.map (·.name)).Nodup)
    (himports : Imports.errors modules = []) :
    PhaseReports modules Phase.taken (Phase.takenErrors modules) ∧
    PhaseReports modules (Phase.unresolved modules) (Phase.unresolvedErrors modules) ∧
    (∀ set, ModuleSet.resolve modules = .ok set →
      PhaseReports modules (Phase.illTyped set) (Phase.illTypedErrors set) ∧
      PhaseReports modules (Phase.misfit set) (Phase.misfitErrors set) ∧
      ∀ ps ∈ placed modules, ∀ p ∈ ps, set.scopedName p.place = ⟨p.module.name, p.decl.name⟩) ∧
    PhasesInTurn modules := by
  refine ⟨.of_eq (takenErrors_eq modules), .of_eq (unresolvedErrors_eq modules), fun set h => ?_,
    phasesInTurn hnames himports⟩
  have hr := resolve_eq_ok_iff.mp h
  refine ⟨.of_eq (illTypedErrors_eq hr), .of_eq (misfitErrors_eq hr), fun ps hps p hp => ?_⟩
  obtain ⟨⟨id, m⟩, hm, rfl⟩ := List.mem_map.mp hps
  obtain ⟨⟨d, j⟩, hd, rfl⟩ := List.mem_map.mp hp
  obtain ⟨i, hi, hplace⟩ := (places_of_numbered hm).2 j d (List.mk_mem_zipIdx_iff_getElem?.mp hd)
  rw [Nat.zero_add] at hi
  subst hi
  exact hr.scopedName_of_place hplace

/-- The module of `struct Road { Missing a; }; struct Lane { Gone b; };`. -/
def roadsModule : Source.Module :=
  ⟨"roads", [], [
    ⟨"Road", [], [], .struct [⟨"a", "a", .mk "Missing" [] .start, none, [], .start⟩], .start⟩,
    ⟨"Lane", [], [], .struct [⟨"b", "b", .mk "Gone" [] .start, none, [], .start⟩], .start⟩], []⟩

/-- The module of `struct Port { Int8 n; }; struct Quay { Absent c; };`. -/
def portsModule : Source.Module :=
  ⟨"ports", [], [
    ⟨"Port", [], [], .struct [⟨"n", "n", .mk "Int8" [] .start, none, [], .start⟩], .start⟩,
    ⟨"Quay", [], [], .struct [⟨"c", "c", .mk "Absent" [] .start, none, [], .start⟩], .start⟩], []⟩

/-- The first unknown name of each module. -/
def transportErrors : List Error :=
  [.unknownReference (.ofMember "roads" "Road" "a") "Missing",
    .unknownReference (.ofMember "ports" "Quay" "c") "Absent"]

/-- No name is taken in the modules, and one name that is unknown is reported of each. -/
theorem transport_phases :
    PhaseReports [roadsModule, portsModule] (Phase.unresolved [roadsModule, portsModule])
        transportErrors ∧
      CompileErrors [roadsModule, portsModule] transportErrors := by
  have hfound : Phase.unresolvedErrors [roadsModule, portsModule] = transportErrors := rfl
  have hnames : ([roadsModule, portsModule].map (·.name)).Nodup := by decide
  obtain ⟨-, hreports, -, hturn⟩ := phases_laws hnames rfl
  have hfails := hturn.unresolved rfl
  rw [hfound] at hreports hfails
  exact ⟨hreports, hfails (List.cons_ne_nil _ _)⟩

end Adl
