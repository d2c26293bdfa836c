import Adl.Proofs.Model.ImportErrors
import Adl.Proofs.Source.Dependencies

/-!
# Unknown names — what is reported of the names in a closed list of modules

In a list that has every module on which one of its modules depends, a name is unknown only because
no module qualifies it, or because the module that it names does not declare it (`UnknownDecl`).
The errors of a type are those of the names that are written in it (`failsWith_resolveType`).
-/

namespace Adl

/-- A list of modules has the modules on which they depend. -/
def DependencyClosed (modules : List Source.Module) : Prop :=
  ∀ m ∈ modules, ∀ name, m.DependsOn name → ∃ m' ∈ modules, m'.name = name

/-- A name is unknown though no module is missing: a module of the list does not declare what is
imported from it or what it qualifies, or nothing qualifies the name. -/
inductive UnknownDecl (modules : List Source.Module) : Location → String → Prop
  | imported {m m' : Source.Module} {i : Source.Import} {n : String} (hm : m ∈ modules)
      (hi : i ∈ m.imports) (hkind : i.kind = .name n) (hm' : m' ∈ modules)
      (hname : m'.name = i.module) (hdecl : ∀ d ∈ m'.decls, d.name ≠ n) :
      UnknownDecl modules (.ofModule m.name) (i.module ++ "." ++ n)
  | qualified {location : Location} {m' : Source.Module} {written n : String}
      (hlocation : location.decl.isSome) (hm' : m' ∈ modules)
      (hsplit : splitName written = (some m'.name, n)) (hdecl : ∀ d ∈ m'.decls, d.name ≠ n) :
      UnknownDecl modules location written
  | bare {location : Location} {written : String} (hlocation : location.decl.isSome)
      (hsplit : (splitName written).1 = none) : UnknownDecl modules location written

namespace Resolve

variable {modules : List Source.Module} {table : NameTable} {m : Source.Module}

/-! ### The errors of types -/

/-- An error of one of the names that satisfy `P`, looked up in a scope. -/
def NameError (scope : Scope) (P : String → Prop) (e : Error) : Prop :=
  ∃ written, P written ∧ scope.resolveName written = .error e

mutual

theorem failsWith_resolveType (scope : Scope) : (t : Source.TypeExpr) →
    FailsWith (NameError scope fun written => t.Writes written) (scope.resolveType t)
  | .mk name args position => by
    rw [Scope.resolveType]
    refine FailsWith.bind (fun e he => ⟨name, .head args position, he⟩) fun _ => ?_
    refine FailsWith.bind ?_ fun _ => .pure _
    intro e he
    obtain ⟨written, ⟨t, ht, hw⟩, he⟩ := failsWith_resolveTypes scope args e he
    exact ⟨written, .arg ht hw, he⟩

theorem failsWith_resolveTypes (scope : Scope) : (ts : List Source.TypeExpr) →
    FailsWith (NameError scope fun written => ∃ t ∈ ts, t.Writes written) (scope.resolveTypes ts)
  | [] => .pure _
  | t :: ts => by
    rw [Scope.resolveTypes]
    refine FailsWith.bind ?_ fun _ => FailsWith.bind ?_ fun _ => .pure _
    · intro e he
      obtain ⟨written, hw, he⟩ := failsWith_resolveType scope t e he
      exact ⟨written, ⟨t, List.mem_cons_self, hw⟩, he⟩
    · intro e he
      obtain ⟨written, ⟨u, hu, hw⟩, he⟩ := failsWith_resolveTypes scope ts e he
      exact ⟨written, ⟨u, List.mem_cons_of_mem t hu, hw⟩, he⟩

end

/-! ### The errors of declarations -/

/-- An error that is not about a missing module, nor about two of one name. -/
structure ModulesPresent (modules : List Source.Module) (e : Error) : Prop where
  unknown : ∀ location name, e = .unknownReference location name →
    UnknownDecl modules location name
  distinct : ∀ name, e ≠ .duplicateModule name

theorem ModulesPresent.unknownReference {location : Location} {name : String}
    (h : UnknownDecl modules location name) :
    ModulesPresent modules (.unknownReference location name) :=
  ⟨fun _ _ heq => by cases heq; exact h, by simp⟩

variable {scope : Scope}

theorem present_of_resolveName {written : String} {e : Error}
    (htable : ∀ n, scope.table.lookup n = none → n ∉ declNames modules)
    (hlocation : scope.location.decl.isSome)
    (hclosed : ∀ q, (splitName written).1 = some q → ∃ m' ∈ modules, m'.name = q)
    (h : scope.resolveName written = .error e) : ModulesPresent modules e := by
  unfold Scope.resolveName at h
  cases hsplit : splitName written with
  | mk qualifier n =>
  cases qualifier with
  | some q =>
    obtain ⟨m', hm', rfl⟩ := hclosed q (congrArg Prod.fst hsplit)
    rw [hsplit] at h
    dsimp only at h
    split at h
    · cases h
    · next hnone =>
      cases h
      refine .unknownReference (.qualified hlocation hm' hsplit fun d hd hn => htable _ hnone ?_)
      exact List.mem_flatMap.mpr ⟨m', hm', List.mem_map.mpr ⟨d, hd, hn ▸ rfl⟩⟩
  | none =>
    have hbare : (splitName written).1 = none := congrArg Prod.fst hsplit
    rw [hsplit] at h
    dsimp only at h
    split at h
    · cases h
    split at h
    · cases h
    · cases h
    · split at h
      · cases h
        exact .unknownReference (.bare hlocation hbare)
      · cases h
      · cases h
        exact ⟨by simp, by simp⟩

theorem present_of_resolveType {t : Source.TypeExpr}
    (htable : ∀ n, scope.table.lookup n = none → n ∉ declNames modules)
    (hlocation : scope.location.decl.isSome)
    (hclosed : ∀ q, (∃ written, t.Writes written ∧ (splitName written).1 = some q) →
      ∃ m' ∈ modules, m'.name = q) :
    FailsWith (ModulesPresent modules) (scope.resolveType t) := by
  intro e he
  obtain ⟨written, hw, he⟩ := failsWith_resolveType scope t e he
  exact present_of_resolveName htable hlocation (fun q hq => hclosed q ⟨written, hw, hq⟩) he

theorem present_of_resolveMembers {ms : List Source.Member}
    (h : ∀ t ∈ ms.map Source.Member.type, ∀ location : Location, location.decl.isSome →
      FailsWith (ModulesPresent modules) ({ scope with location := location }.resolveType t))
    (hlocation : scope.location.decl.isSome) :
    FailsWith (ModulesPresent modules) (ms.mapM (resolveMember scope)) := by
  induction ms with
  | nil => exact .pure _
  | cons sm ms ih =>
    obtain ⟨hsm, hms⟩ := List.forall_mem_cons.mp (List.map_cons ▸ h)
    rw [List.mapM_cons]
    refine FailsWith.bind ?_ fun _ => (ih hms).bind fun _ => .pure _
    exact (hsm (scope.location.within sm.name) hlocation).bind fun _ => .pure _

theorem present_of_checkNames {module : String} {d : Source.Decl} :
    FailsWith (ModulesPresent modules) (checkNames module d) := by
  intro e he
  unfold checkNames at he
  split at he
  · cases he
    exact ⟨by simp, by simp⟩
  · split at he <;> cases he
    exact ⟨by simp, by simp⟩

/-- In a closed list the errors of a declaration are not about a missing module. -/
theorem present_of_resolveDecl {id : DeclId} {d : Source.Decl} (hclosed : DependencyClosed modules)
    (htable : ∀ n, table.lookup n = none → n ∉ declNames modules) (hm : m ∈ modules)
    (hd : d ∈ m.decls) : FailsWith (ModulesPresent modules) (resolveDecl table m id d) := by
  have htypes (t : Source.TypeExpr) (ht : t ∈ d.types) (location : Location)
      (hlocation : location.decl.isSome) : FailsWith (ModulesPresent modules)
        (Scope.resolveType ⟨table, m, d.typeParams, location⟩ t) :=
    present_of_resolveType htable hlocation fun q ⟨written, hw, hq⟩ =>
      hclosed m hm q (.inr ⟨d, hd, t, ht, written, hw, hq⟩)
  rw [resolveDecl]
  refine present_of_checkNames.bind fun _ => FailsWith.bind ?_ fun _ => .pure _
  rw [Source.Decl.types] at htypes
  generalize d.body = body at htypes ⊢
  cases body with
  | struct ms => exact (present_of_resolveMembers htypes rfl).bind fun _ => .pure _
  | union ms => exact (present_of_resolveMembers htypes rfl).bind fun _ => .pure _
  | enum ms => exact (present_of_resolveMembers htypes rfl).bind fun _ => .pure _
  | «alias» target =>
    exact (htypes target (List.mem_singleton.mpr rfl) _ rfl).bind fun _ => .pure _
  | newtype target =>
    exact (htypes target (List.mem_singleton.mpr rfl) _ rfl).bind fun _ => .pure _

theorem present_of_resolveDecls {id : DeclId} {ds : List Source.Decl}
    (hclosed : DependencyClosed modules)
    (htable : ∀ n, table.lookup n = none → n ∉ declNames modules) (hm : m ∈ modules)
    (hds : ∀ d ∈ ds, d ∈ m.decls) : FailsWith (ModulesPresent modules) (resolveDecls table m id ds) := by
  induction ds generalizing id with
  | nil => exact .pure _
  | cons d ds ih =>
    obtain ⟨hd, hds⟩ := List.forall_mem_cons.mp hds
    rw [resolveDecls]
    exact (present_of_resolveDecl hclosed htable hm hd).bind fun _ => (ih hds).bind fun _ => .pure _

end Resolve

/-! ### What resolving reports -/

open Resolve

variable {modules : List Source.Module}

/-- In a closed list of distinct modules, resolving reports no module as missing or repeated. -/
theorem present_of_reports (hnd : (modules.map (·.name)).Nodup) (hclosed : DependencyClosed modules)
    {e : Error} (h : Reports modules e) : ModulesPresent modules e := by
  obtain ⟨errors, hresolve, he⟩ := h
  by_cases himports : Imports.errors modules = []
  · unfold ModuleSet.resolve at hresolve
    rw [firstRepeated_eq_none_iff.mpr ⟨hnd, fun _ _ => List.not_mem_nil⟩, himports] at hresolve
    dsimp only at hresolve
    split at hresolve
    · rw [resolveWith] at hresolve
      dsimp only at hresolve
      split at hresolve
      · cases hresolve
      · cases hresolve
        have htable : ∀ n, (declNames modules).zipIdx.lookup n = none → n ∉ declNames modules := by
          intro n hn
          have hmem := not_mem_of_lookup_eq_none hn
          rwa [List.zipIdx_map_fst] at hmem
        refine failsWith_of_mem_errorsOf (fun r hr => ?_) he
        obtain ⟨⟨id, m⟩, hm, rfl⟩ := List.mem_map.mp hr
        exact present_of_resolveDecls hclosed htable (places_of_numbered hm).1 fun _ hd => hd
    · cases hresolve
      obtain ⟨m, -, hm⟩ := List.mem_filterMap.mp he
      obtain ⟨n, -, rfl⟩ := Option.map_eq_some_iff.mp hm
      exact ⟨by simp, by simp⟩
  · rw [resolve_of_errors hnd himports, Except.error.injEq] at hresolve
    subst hresolve
    rcases List.mem_append.mp he with he | he
    · obtain ⟨m, hm, he⟩ := List.mem_flatMap.mp he
      obtain ⟨i, hi, he⟩ := List.mem_filterMap.mp he
      cases (Imports.unknown?_eq_some_iff hnd).mp he with
      | module hmissing =>
        obtain ⟨m', hm', hname⟩ := hclosed m hm i.module (.inl ⟨i, hi, rfl⟩)
        exact absurd hname (hmissing m' hm')
      | decl hm' hname hkind hdecl =>
        exact .unknownReference (.imported hm hi hkind hm' hname hdecl)
    · obtain ⟨c, -, rfl⟩ := Option.map_eq_some_iff.mp (Option.mem_toList.mp he)
      exact ⟨by simp, by simp⟩

end Adl
