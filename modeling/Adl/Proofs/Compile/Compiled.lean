import Adl.Compile.Compilation
import Adl.Proofs.Value.Declared

/-!
# Compiled — what is known of a compilation

`Compiled modules c` says what `Compilation.ofModules` returns and when: the modules resolve to the
set of `c`, which passes the check of types, and every declaration has its declared defaults and its
record in `c` (`ofModules_eq_ok_iff`).
-/

namespace Adl

/-- A compilation is what the modules compile to. -/
structure Compiled (modules : List Source.Module) (c : Compilation) : Prop where
  resolved : Resolved modules c.set
  checked : c.set.checkAll = .ok ()
  defaults_eq : List.Forall₂ (fun d x => Yields ((Graph.plain c.set).defaults d.id) x) c.set.decls
    c.defaults
  records_eq : c.records = c.set.decls.map fun d => c.set.exportDecl d.id (c.defaultsOf d.id)

theorem ofModules_eq_ok_iff {modules : List Source.Module} {c : Compilation} :
    Compilation.ofModules modules = .ok c ↔ Compiled modules c := by
  rw [Compilation.ofModules]
  simp only [bind_eq_ok_iff, pure_eq_ok_iff, mapError_eq_ok_iff, resolve_eq_ok_iff]
  constructor
  · rintro ⟨set, hset, _, hchecked, defaults, hdefaults, rfl⟩
    exact ⟨hset, hchecked, Graph.yields_allDefaults_iff.mp hdefaults, rfl⟩
  · rintro ⟨hset, hchecked, hdefaults, hrecords⟩
    obtain ⟨set, defaults, records⟩ := c
    dsimp only at hset hchecked hdefaults hrecords
    exact ⟨set, hset, (), hchecked, defaults, Graph.yields_allDefaults_iff.mpr hdefaults,
      congrArg _ hrecords.symm⟩

namespace Compiled

variable {modules : List Source.Module} {c : Compilation} (h : Compiled modules c) {i : DeclId}
  {x : Decl}

include h

/-- The defaults of a declaration are those that it declares. -/
theorem defaultsOf (hx : c.set.decls[i]? = some x) :
    DefaultsOf c.set i (c.set.decl i) (c.set.decl i).body (c.defaultsOf i) := by
  obtain ⟨hlen, hall⟩ := forall₂_iff_getElem?.mp h.defaults_eq
  obtain ⟨y, hy⟩ := exists_getElem?_of_length_eq hlen.symm hx
  have hyields := hall i x y hx hy
  rw [h.resolved.id_eq hx, Graph.yields_defaults_iff h.resolved.distinctNames] at hyields
  rwa [Compilation.defaultsOf, hy, Option.getD_some]

/-- There are no defaults but those of declarations. -/
theorem exists_decl (hi : c.defaultsOf i ≠ .empty) : ∃ x, c.set.decls[i]? = some x := by
  cases hx : c.defaults[i]? with
  | none =>
    rw [Compilation.defaultsOf, hx] at hi
    exact absurd rfl hi
  | some x => exact exists_getElem?_of_length_eq h.defaults_eq.length_eq hx

/-- The defaults at any place are those of the declaration there, and none if there is no
declaration. -/
theorem defaultsAt (i : DeclId) :
    DefaultsOf c.set i (c.set.decl i) (c.set.decl i).body (c.defaultsOf i) := by
  cases hx : c.set.decls[i]? with
  | some x => exact h.defaultsOf hx
  | none =>
    have hempty : c.defaultsOf i = .empty := by
      by_contra hne
      obtain ⟨x, hsome⟩ := h.exists_decl hne
      cases hx.symm.trans hsome
    rw [hempty, ModuleSet.decl, hx]
    exact .struct .nil

/-- The record of a declaration is that of its place. -/
theorem record_eq (hx : c.set.decls[i]? = some x) :
    c.records[i]? = some (c.set.exportDecl i (c.defaultsOf i)) := by
  rw [h.records_eq, List.getElem?_map, hx, Option.map_some, h.resolved.id_eq hx]

theorem length_records : c.records.length = c.set.decls.length := by
  rw [h.records_eq, List.length_map]

end Compiled

end Adl
