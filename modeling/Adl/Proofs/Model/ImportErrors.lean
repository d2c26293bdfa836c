import Adl.Proofs.Model.ImportCycles

/-!
# Import errors — what is reported of the imports of a list of modules

An import is known if its module is in the list and has the declaration that it names, if it names
one (`Known`).  Resolving reports the other imports, one error for each of them in the order in
which they are written, and behind these one cycle, if there are cycles.  Nothing else that is
looked up can fail with a cycle (`cyclefree_resolve_of_errors`): what qualifies a type is no import.
-/

namespace Adl

open Source (Import)

/-- An error that reports a cycle. -/
def Error.isCycle : Error → Bool
  | .cyclicImport _ => true
  | _ => false

/-! ### Known imports and the errors of the others -/

section

variable (modules : List Source.Module)

/-- An import of a module of the list, and of a declaration of it if it names one. -/
def Known (i : Import) : Prop :=
  ∃ m ∈ modules, m.name = i.module ∧ ∀ n, i.kind = .name n → ∃ d ∈ m.decls, d.name = n

/-- The error of an import of the module `m` that is not known: it tells the module that is missing,
or the declaration. -/
inductive UnknownImport (m : Source.Module) (i : Import) : Error → Prop
  | module (h : ∀ m' ∈ modules, m'.name ≠ i.module) :
      UnknownImport m i (.unknownReference (.ofModule m.name) i.module)
  | decl {m' : Source.Module} {n : String} (hm : m' ∈ modules) (hname : m'.name = i.module)
      (hkind : i.kind = .name n) (hdecl : ∀ d ∈ m'.decls, d.name ≠ n) :
      UnknownImport m i (.unknownReference (.ofModule m.name) (i.module ++ "." ++ n))

open Classical in
/-- The errors of all imports that are not known, in the order in which they are written. -/
def UnknownImports (errors : List Error) : Prop :=
  List.Forall₂ (fun p e => UnknownImport modules p.1 p.2 e)
    ((modules.flatMap fun m => m.imports.map fun i => (m, i)).filter fun p =>
      ¬ Known modules p.2) errors

/-- Resolving the modules fails with an error among others. -/
def Reports (e : Error) : Prop := ∃ errors, ModuleSet.resolve modules = .error errors ∧ e ∈ errors

end

namespace Imports

variable {modules modules' : List Source.Module} {m : Source.Module} {i : Import} {e : Error}

/-! ### Unknown imports -/

theorem unknown?_eq_some_iff (hnd : (modules.map (·.name)).Nodup) :
    unknown? modules m i = some e ↔ UnknownImport modules m i e := by
  rw [unknown?]
  cases hf : find? modules i.module with
  | none =>
    have habsent : ∀ m' ∈ modules, m'.name ≠ i.module :=
      fun m' hm' => by simpa using List.find?_eq_none.mp hf m' hm'
    constructor
    · rintro ⟨⟩
      exact .module habsent
    · intro h
      cases h with
      | module => rfl
      | decl hm hname => exact absurd hname (habsent _ hm)
  | some target =>
    obtain ⟨htarget, hname⟩ := find?_eq_some hf
    have hunique : ∀ m' ∈ modules, m'.name = i.module → m' = target :=
      fun m' hm' hn => List.inj_on_of_nodup_map hnd hm' htarget (hn.trans hname.symm)
    dsimp only
    cases hk : i.kind with
    | all =>
      refine iff_of_false (fun h => nomatch h) fun h => ?_
      cases h with
      | module h => exact h target htarget hname
      | decl _ _ hkind => cases hk.symm.trans hkind
    | name n =>
      dsimp only
      by_cases hd : target.decls.any (·.name = n)
      · rw [if_pos hd]
        refine iff_of_false (fun h => nomatch h) fun h => ?_
        cases h with
        | module h => exact h target htarget hname
        | decl hm hn hkind hdecl =>
          cases hk.symm.trans hkind
          obtain rfl := hunique _ hm hn
          obtain ⟨d, hmem, hdn⟩ := List.any_eq_true.mp hd
          exact hdecl d hmem (by simpa using hdn)
      · rw [if_neg hd]
        have hdecl : ∀ d ∈ target.decls, d.name ≠ n := by simpa using hd
        constructor
        · rintro ⟨⟩
          exact .decl htarget hname hk hdecl
        · intro h
          cases h with
          | module h => exact absurd hname (h target htarget)
          | decl hm hn hkind => cases hk.symm.trans hkind; rfl

theorem isSome_unknown?_iff (hnd : (modules.map (·.name)).Nodup) :
    (unknown? modules m i).isSome ↔ ¬ Known modules i := by
  rw [Option.isSome_iff_exists]
  constructor
  · rintro ⟨e, he⟩ ⟨m', hm', hn, hkind⟩
    cases (unknown?_eq_some_iff hnd).mp he with
    | module h => exact h m' hm' hn
    | decl hm hname hk hdecl =>
      obtain rfl := List.inj_on_of_nodup_map hnd hm hm' (hname.trans hn.symm)
      obtain ⟨d, hd, hdn⟩ := hkind _ hk
      exact hdecl d hd hdn
  · intro h
    by_cases hm : ∃ m' ∈ modules, m'.name = i.module
    · obtain ⟨m', hm', hn⟩ := hm
      simp only [Known, not_exists, not_and, not_forall] at h
      obtain ⟨n, hk, hdecl⟩ := h m' hm' hn
      exact ⟨_, (unknown?_eq_some_iff hnd).mpr (.decl hm' hn hk hdecl)⟩
    · refine ⟨_, (unknown?_eq_some_iff hnd).mpr (.module fun m' hm' hn => hm ⟨m', hm', hn⟩)⟩

/-- What a function finds in a list, place by place. -/
theorem forall₂_filterMap {α β : Type} {f : α → Option β} (as : List α) :
    List.Forall₂ (fun a b => f a = some b) (as.filter fun a => (f a).isSome) (as.filterMap f) := by
  induction as with
  | nil => exact .nil
  | cons a as ih =>
    cases hf : f a with
    | none => rwa [List.filter_cons_of_neg (by simp [hf]), List.filterMap_cons_none hf]
    | some b =>
      rw [List.filter_cons_of_pos (by simp [hf]), List.filterMap_cons_some hf]
      exact .cons hf ih

open Classical in
theorem unknownImports_unknowns (hnd : (modules.map (·.name)).Nodup) :
    UnknownImports modules (unknowns modules) := by
  have hfilter : ((modules.flatMap fun m => m.imports.map fun i => (m, i)).filter fun p =>
        (unknown? modules p.1 p.2).isSome) =
      (modules.flatMap fun m => m.imports.map fun i => (m, i)).filter fun p =>
        ¬ Known modules p.2 :=
    List.filter_congr fun p _ => by
      rw [Bool.eq_iff_iff, isSome_unknown?_iff hnd, decide_eq_true_iff]
  have hunknowns : unknowns modules =
      (modules.flatMap fun m => m.imports.map fun i => (m, i)).filterMap
        fun p => unknown? modules p.1 p.2 := by
    rw [unknowns, List.filterMap_flatMap]
    simp only [List.filterMap_map, Function.comp_def]
  rw [UnknownImports, ← hfilter, hunknowns]
  exact (forall₂_filterMap (f := fun p : Source.Module × Import => unknown? modules p.1 p.2) _).imp
    fun p e he => (unknown?_eq_some_iff hnd).mp he

/-! ### What the search looks at -/

/-- The modules that are imported under a name, found alike in two lists with the same imports. -/
theorem map_imported_find? (h : modules'.map (fun m => (m.name, m.imported)) =
      modules.map fun m => (m.name, m.imported)) (name : String) :
    (find? modules' name).map Source.Module.imported =
      (find? modules name).map Source.Module.imported := by
  induction modules' generalizing modules with
  | nil =>
    cases modules with
    | nil => rfl
    | cons => cases h
  | cons m' ms' ih =>
    cases modules with
    | nil => cases h
    | cons m ms =>
      rw [List.map_cons, List.map_cons, List.cons.injEq, Prod.mk.injEq] at h
      obtain ⟨⟨hn, hi⟩, hrest⟩ := h
      rw [find?, find?, List.find?_cons, List.find?_cons, hn]
      cases decide (m.name = name) with
      | true => exact congrArg some hi
      | false => exact ih hrest

theorem visit_congr (h : modules'.map (fun m => (m.name, m.imported)) =
      modules.map fun m => (m.name, m.imported)) (fuel : Nat) (path done : List String)
    (name : String) : visit modules' fuel path done name = visit modules fuel path done name := by
  induction fuel generalizing path done name with
  | zero =>
    by_cases hmem : name ∈ path
    · rw [visit_of_mem_path hmem, visit_of_mem_path hmem]
    · rw [visit_zero hmem, visit_zero hmem]
  | succ fuel ih =>
    by_cases hmem : name ∈ path
    · rw [visit_of_mem_path hmem, visit_of_mem_path hmem]
    by_cases hdone : name ∈ done
    · rw [visit_of_mem_done hmem hdone, visit_of_mem_done hmem hdone]
    have hfind := map_imported_find? h name
    cases hf : find? modules name with
    | none =>
      rw [hf, Option.map_none, Option.map_eq_none_iff] at hfind
      rw [visit_of_find?_eq_none hmem hfind, visit_of_find?_eq_none hmem hf]
    | some m =>
      rw [hf, Option.map_some, Option.map_eq_some_iff] at hfind
      obtain ⟨m', hf', himported⟩ := hfind
      rw [visit_of_find?_eq_some hmem hdone hf', visit_of_find?_eq_some hmem hdone hf, himported,
        funext fun done => funext fun target => ih (path ++ [name]) done target]

/-- The search looks at the names and the imports of the modules only. -/
theorem findCycle_congr (h : modules'.map (fun m => (m.name, m.imported)) =
    modules.map fun m => (m.name, m.imported)) : findCycle modules' = findCycle modules := by
  have hnames : modules'.map (·.name) = modules.map (·.name) := by
    simpa [Function.comp_def] using congrArg (List.map Prod.fst) h
  have hlength : modules'.length = modules.length := by
    simpa using congrArg List.length h
  rw [findCycle, findCycle, hnames, hlength,
    funext fun done => funext fun name => visit_congr h modules.length [] done name]

end Imports

/-! ### Errors of declarations -/

/-- An error of a name that is looked up, or that is declared twice. -/
inductive Error.OfName : Error → Prop
  | unknown (location : Location) (name : String) : OfName (.unknownReference location name)
  | ambiguous (location : Location) (name : String) (candidates : List String) :
      OfName (.ambiguousReference location name candidates)
  | duplicate (location : Location) (name : String) : OfName (.duplicateMember location name)

theorem Error.OfName.isCycle_eq {e : Error} (h : e.OfName) : e.isCycle = false := by
  cases h <;> rfl

namespace Resolve

variable {table : NameTable} {m : Source.Module}

theorem ofName_resolveName (scope : Scope) (written : String) :
    FailsWith Error.OfName (scope.resolveName written) := by
  unfold Scope.resolveName
  grind [FailsWith, Error.OfName]

mutual

theorem ofName_resolveType (scope : Scope) : (t : Source.TypeExpr) →
    FailsWith Error.OfName (scope.resolveType t)
  | .mk name args _ => by
    rw [Scope.resolveType]
    exact (ofName_resolveName scope name).bind fun _ =>
      (ofName_resolveTypes scope args).bind fun _ => .pure _

theorem ofName_resolveTypes (scope : Scope) : (ts : List Source.TypeExpr) →
    FailsWith Error.OfName (scope.resolveTypes ts)
  | [] => .pure _
  | t :: ts => by
    rw [Scope.resolveTypes]
    exact (ofName_resolveType scope t).bind fun _ =>
      (ofName_resolveTypes scope ts).bind fun _ => .pure _

end

theorem ofName_resolveMember (scope : Scope) (sm : Source.Member) :
    FailsWith Error.OfName (resolveMember scope sm) :=
  (ofName_resolveType _ sm.type).bind fun _ => .pure _

theorem ofName_resolveBody (scope : Scope) (b : Source.Body) :
    FailsWith Error.OfName (resolveBody scope b) := by
  have hmembers (ms : List Source.Member) :
      FailsWith Error.OfName (ms.mapM (resolveMember scope)) :=
    .mapM (ofName_resolveMember scope) ms
  cases b with
  | struct ms => exact (hmembers ms).bind fun _ => .pure _
  | union ms => exact (hmembers ms).bind fun _ => .pure _
  | enum ms => exact (hmembers ms).bind fun _ => .pure _
  | «alias» target => exact (ofName_resolveType scope target).bind fun _ => .pure _
  | newtype target => exact (ofName_resolveType scope target).bind fun _ => .pure _

theorem ofName_checkNames (module : String) (d : Source.Decl) :
    FailsWith Error.OfName (checkNames module d) := by
  unfold checkNames
  grind [FailsWith, Error.OfName]

theorem ofName_resolveDecl (id : DeclId) (d : Source.Decl) :
    FailsWith Error.OfName (resolveDecl table m id d) :=
  (ofName_checkNames m.name d).bind fun _ => (ofName_resolveBody _ d.body).bind fun _ => .pure _

theorem ofName_resolveDecls (id : DeclId) (ds : List Source.Decl) :
    FailsWith Error.OfName (resolveDecls table m id ds) := by
  induction ds generalizing id with
  | nil => exact .pure _
  | cons d ds ih =>
    rw [resolveDecls]
    exact (ofName_resolveDecl id d).bind fun _ => (ih _).bind fun _ => .pure _

theorem failsWith_of_mem_errorsOf {α : Type} {P : Error → Prop} {results : List (Except Error α)}
    {e : Error} (h : ∀ r ∈ results, FailsWith P r) (he : e ∈ errorsOf results) : P e := by
  obtain ⟨r, hr, hre⟩ := List.mem_filterMap.mp he
  cases r with
  | ok a => cases hre
  | error e' =>
    cases hre
    exact h _ hr e rfl

end Resolve

open Resolve in
theorem cyclefree_resolve_of_errors {modules : List Source.Module} {errors : List Error} {e : Error}
    (himports : Imports.errors modules = []) (h : ModuleSet.resolve modules = .error errors)
    (he : e ∈ errors) : e.isCycle = false := by
  unfold ModuleSet.resolve at h
  rw [himports] at h
  split at h
  · cases h
    rw [List.mem_singleton.mp he]
    rfl
  dsimp only at h
  split at h
  · rw [resolveWith] at h
    dsimp only at h
    split at h
    · cases h
    · cases h
      refine (failsWith_of_mem_errorsOf (P := Error.OfName) ?_ he).isCycle_eq
      intro r hr
      obtain ⟨⟨id, m⟩, -, rfl⟩ := List.mem_map.mp hr
      exact ofName_resolveDecls id m.decls
  · cases h
    obtain ⟨m, -, hm⟩ := List.mem_filterMap.mp he
    obtain ⟨name, -, rfl⟩ := Option.map_eq_some_iff.mp hm
    rfl

/-! ### What resolving reports -/

section

variable {modules modules' : List Source.Module}

/-- The errors of the imports stop the resolving of modules with distinct names. -/
theorem resolve_of_errors (hnd : (modules.map (·.name)).Nodup) (h : Imports.errors modules ≠ []) :
    ModuleSet.resolve modules = .error (Imports.errors modules) := by
  unfold ModuleSet.resolve
  rw [firstRepeated_eq_none_iff.mpr ⟨hnd, fun _ _ => List.not_mem_nil⟩]
  cases he : Imports.errors modules with
  | nil => exact absurd he h
  | cons => rfl

theorem UnknownImport.isCycle {m : Source.Module} {i : Import} {e : Error}
    (h : UnknownImport modules m i e) : e.isCycle = false := by
  cases h <;> rfl

theorem isCycle_of_mem_unknowns (hnd : (modules.map (·.name)).Nodup) {e : Error}
    (he : e ∈ Imports.unknowns modules) : e.isCycle = false := by
  obtain ⟨m, -, hm⟩ := List.mem_flatMap.mp he
  obtain ⟨i, -, hi⟩ := List.mem_filterMap.mp hm
  exact ((Imports.unknown?_eq_some_iff hnd).mp hi).isCycle

/-- A cycle is reported if and only if the search finds it. -/
theorem reports_cycle_iff (hnd : (modules.map (·.name)).Nodup) {c : List String} :
    Reports modules (.cyclicImport c) ↔ Imports.findCycle modules = some c := by
  constructor
  · rintro ⟨errors, hresolve, he⟩
    by_cases himports : Imports.errors modules = []
    · exact nomatch cyclefree_resolve_of_errors himports hresolve he
    rw [resolve_of_errors hnd himports, Except.error.injEq] at hresolve
    subst hresolve
    rcases List.mem_append.mp he with he | he
    · exact nomatch isCycle_of_mem_unknowns hnd he
    · obtain ⟨c', hc', h⟩ := Option.map_eq_some_iff.mp (Option.mem_toList.mp he)
      cases h
      exact hc'
  · intro hc
    have hmem : Error.cyclicImport c ∈ Imports.errors modules :=
      List.mem_append_right _ (by simp [hc])
    exact ⟨_, resolve_of_errors hnd (List.ne_nil_of_mem hmem), hmem⟩

/-- Of modules with distinct names exactly the unknown imports are reported, and one cycle behind
them if there is any.  What qualifies a type in a declaration has no effect on this. -/
theorem resolve_imports (hnd : (modules.map (·.name)).Nodup) :
    ((∃ c, Reports modules (.cyclicImport c)) ↔ Cyclic modules) ∧
    (∃ unknown, UnknownImports modules unknown ∧
      (¬ Cyclic modules → unknown ≠ [] → ModuleSet.resolve modules = .error unknown) ∧
      ∀ c, Reports modules (.cyclicImport c) → IsCycle modules c ∧
        ModuleSet.resolve modules = .error (unknown ++ [.cyclicImport c])) ∧
    ∀ modules', modules'.map (fun m => (m.name, m.imported)) =
        modules.map (fun m => (m.name, m.imported)) →
      ∀ c, Reports modules' (.cyclicImport c) ↔ Reports modules (.cyclicImport c) := by
  refine ⟨?_, ⟨Imports.unknowns modules, Imports.unknownImports_unknowns hnd, ?_, ?_⟩, ?_⟩
  · simp only [reports_cycle_iff hnd]
    exact Imports.exists_findCycle_iff hnd
  · intro hacyclic hunknown
    have hnone : Imports.findCycle modules = none := by
      rw [Option.eq_none_iff_forall_ne_some]
      exact fun c hc => hacyclic (Imports.cyclic_of_isCycle (Imports.isCycle_of_findCycle hc))
    have herrors : Imports.errors modules = Imports.unknowns modules := by
      simp [Imports.errors, hnone]
    rw [← herrors] at hunknown ⊢
    exact resolve_of_errors hnd hunknown
  · intro c hc
    have hfind := (reports_cycle_iff hnd).mp hc
    have herrors : Imports.errors modules = Imports.unknowns modules ++ [.cyclicImport c] := by
      simp [Imports.errors, hfind]
    refine ⟨Imports.isCycle_of_findCycle hfind, herrors ▸ resolve_of_errors hnd ?_⟩
    rw [herrors]
    exact List.append_ne_nil_of_right_ne_nil _ (List.cons_ne_nil _ _)
  · intro modules' h c
    have hnd' : (modules'.map (·.name)).Nodup := by
      have hnames := congrArg (List.map Prod.fst) h
      simp only [List.map_map, Function.comp_def] at hnames
      exact hnames ▸ hnd
    rw [reports_cycle_iff hnd, reports_cycle_iff hnd', Imports.findCycle_congr h]

end

/-- The modules of `import lines.Line; import fills.*;` and `import shapes.*;`, where nothing
declares a line, as they are parsed. -/
def loopModules : List Source.Module :=
  [⟨"lines", [], [], []⟩,
    ⟨"shapes", [⟨"lines", .name "Line", .start⟩, ⟨"fills", .all, .start⟩], [], []⟩,
    ⟨"fills", [⟨"shapes", .all, .start⟩], [], []⟩]

/-- Two modules that import each other are reported behind an import of what is not declared. -/
theorem loop_imports :
    (loopModules.map (·.name)).Nodup ∧
    ModuleSet.resolve loopModules = .error
      [.unknownReference (.ofModule "shapes") "lines.Line",
        .cyclicImport ["shapes", "fills", "shapes"]] ∧
    Cyclic loopModules ∧ IsCycle loopModules ["shapes", "fills", "shapes"] := by
  have hnd : (loopModules.map (·.name)).Nodup := by decide
  have hresolve : ModuleSet.resolve loopModules = .error
      [.unknownReference (.ofModule "shapes") "lines.Line",
        .cyclicImport ["shapes", "fills", "shapes"]] := rfl
  have hreports : Reports loopModules (.cyclicImport ["shapes", "fills", "shapes"]) :=
    ⟨_, hresolve, List.mem_cons_of_mem _ List.mem_cons_self⟩
  obtain ⟨hcyclic, ⟨unknown, -, -, hcycle⟩, -⟩ := resolve_imports hnd
  exact ⟨hnd, hresolve, hcyclic.mp ⟨_, hreports⟩, (hcycle _ hreports).1⟩

end Adl
