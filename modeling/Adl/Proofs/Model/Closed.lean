import Adl.Proofs.Model.Names
import Adl.Proofs.Source.Dependencies

/-!
# Closed — a resolved list has all modules that it depends on

The imports of a resolved list name modules of it, and so do the qualified types, because every
name in them is found in the table of declared names.
-/

namespace Adl

namespace Resolve

variable {scope : Scope}

/-- A qualified name that stands for something is in the table. -/
theorem lookup_of_resolveName {written q : String} {head : TypeRef}
    (hq : (splitName written).1 = some q) (h : scope.resolveName written = .ok head) :
    ∃ name id, scope.table.lookup ⟨q, name⟩ = some id := by
  unfold Scope.resolveName at h
  generalize splitName written = parts at hq h
  obtain ⟨qualifier, name⟩ := parts
  obtain rfl : qualifier = some q := hq
  simp only [Scope.declOf] at h
  cases hl : scope.table.lookup ⟨q, name⟩ with
  | some id => exact ⟨name, id, hl⟩
  | none =>
    rw [hl] at h
    cases h

/-- The modules that qualify names in a type that can be resolved have declarations. -/
theorem lookup_of_resolveType {t : Source.TypeExpr} {u : TypeExpr}
    (h : scope.resolveType t = .ok u) {q : String} (hq : q ∈ t.qualifiers) :
    ∃ name id, scope.table.lookup ⟨q, name⟩ = some id := by
  induction t generalizing u with
  | mk name args position ih =>
    obtain ⟨head, us, hhead, hus, -⟩ := resolveType_eq_ok_iff.mp h
    rcases Source.TypeExpr.mem_qualifiers_iff.mp hq with hq | ⟨t, ht, hq⟩
    · exact lookup_of_resolveName hq hhead
    · obtain ⟨u, -, hu⟩ := exists_of_forall₂ hus.flip ht
      exact ih t ht hu hq

end Resolve

namespace Resolved

open Resolve

variable {modules : List Source.Module} {set : ModuleSet} (h : Resolved modules set)

include h

theorem import_closed {m : Source.Module} (hm : m ∈ modules) {i : Source.Import}
    (hi : i ∈ m.imports) : ∃ m' ∈ modules, m'.name = i.module := by
  obtain ⟨hunknowns, -⟩ := List.append_eq_nil_iff.mp h.imports_ok
  have hnone := List.filterMap_eq_nil_iff.mp (List.flatMap_eq_nil_iff.mp hunknowns m hm) i hi
  rw [Imports.unknown?] at hnone
  cases hf : Imports.find? modules i.module with
  | none =>
    rw [hf] at hnone
    cases hnone
  | some target =>
    exact ⟨target, List.mem_of_find?_eq_some hf, by simpa using List.find?_some hf⟩

/-- Every module that a module depends on is in the list. -/
theorem dependencies_closed {m : Source.Module} (hm : m ∈ modules) {name : String}
    (hn : name ∈ m.dependencies) : ∃ m' ∈ modules, m'.name = name := by
  rcases Source.Module.mem_dependencies_iff.mp hn with ⟨i, hi, rfl⟩ | ⟨d, hd, t, ht, hq⟩
  · exact h.import_closed hm hi
  · obtain ⟨i, hp⟩ := List.mem_iff_getElem?.mp (mem_places_iff.mpr ⟨hm, hd⟩)
    obtain ⟨x, -, hr⟩ := h.decl_of_place hp
    obtain ⟨u, -, location, hu⟩ := exists_of_forall₂ (types_of_resolveDecl hr).flip ht
    obtain ⟨n, id, hl⟩ := lookup_of_resolveType hu hq
    obtain ⟨m', d', hp', heq⟩ := h.lookup_eq_some_iff.mp hl
    exact ⟨m', (mem_places_iff.mp (List.mem_of_getElem? hp')).1, (ScopedName.mk.inj heq).1⟩

end Resolved

end Adl
