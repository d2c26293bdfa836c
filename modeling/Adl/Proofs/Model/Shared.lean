import Adl.Proofs.Model.Names
import Adl.Proofs.Model.Scopes

/-!
# Shared — modules in two resolved sets

Modules that depend on each other only may stand in two lists of modules.  The sets that the lists
resolve to then have the same declarations of these modules, up to their places, which are known
from the scoped names (`SharedModules.toRenaming`).
-/

namespace Adl

open Resolve

/-- The modules of `D` are in both lists, and all that they depend on is in `D`. -/
structure SharedModules (D modules modules' : List Source.Module) : Prop where
  left : ∀ m ∈ D, m ∈ modules
  right : ∀ m ∈ D, m ∈ modules'
  closed : ∀ m ∈ D, ∀ name ∈ m.dependencies, ∃ m' ∈ D, m'.name = name

/-- A module of a list has a name. -/
def Source.NamedIn (D : List Source.Module) (name : String) : Prop := ∃ m ∈ D, m.name = name

namespace SharedModules

variable {D modules modules' : List Source.Module} {set set' : ModuleSet} {m : Source.Module}
  {d : Source.Decl} {i j : DeclId}

theorem settled (s : SharedModules D modules modules') (hm : m ∈ D) :
    Settled (Source.NamedIn D) m :=
  ⟨⟨m, hm, rfl⟩, s.closed m hm⟩

/-- The place in `set'` of the declaration that has the name of one of `set`. -/
def place (set set' : ModuleSet) (i : DeclId) : DeclId := (set'.lookup (set.scopedName i)).getD 0

/-- The declarations of the modules of `D`. -/
def Kept (D modules : List Source.Module) (i : DeclId) : Prop :=
  ∃ m ∈ D, ∃ d, (places modules)[i]? = some (m, d)

variable (s : SharedModules D modules modules') (h : Resolved modules set)
  (h' : Resolved modules' set')

include s h h'

/-- A declaration of `D` is found under its name in both sets. -/
theorem place_eq (hm : m ∈ D) (hp : (places modules)[i]? = some (m, d)) :
    set'.names.lookup ⟨m.name, d.name⟩ = some (place set set' i) ∧
      (places modules')[place set set' i]? = some (m, d) := by
  have hd : d ∈ m.decls := (mem_places_iff.mp (List.mem_of_getElem? hp)).2
  have hmem : (m, d) ∈ places modules' := mem_places_iff.mpr ⟨s.right m hm, hd⟩
  obtain ⟨j, hj⟩ := List.mem_iff_getElem?.mp hmem
  have hl := h'.lookup_eq_some_iff.mpr ⟨m, d, hj, rfl⟩
  have hplace : place set set' i = j := by
    rw [place, h.scopedName_of_place hp, ModuleSet.lookup, hl, Option.getD_some]
  rw [hplace]
  exact ⟨hl, hj⟩

theorem place_injective (hi : Kept D modules i) (hj : Kept D modules j)
    (heq : place set set' i = place set set' j) : i = j := by
  obtain ⟨m, hm, d, hp⟩ := hi
  obtain ⟨m', hm', d', hp'⟩ := hj
  have hpi := (s.place_eq h h' hm hp).2
  have hpj := (s.place_eq h h' hm' hp').2
  rw [heq, hpj] at hpi
  cases hpi
  have hli := h.lookup_eq_some_iff.mpr ⟨m, d, hp, rfl⟩
  have hlj := h.lookup_eq_some_iff.mpr ⟨m, d, hp', rfl⟩
  exact Option.some.inj (hli.symm.trans hlj)

omit h' in
/-- A place in `set` of a name of a module of `D` is one of a declaration of `D`. -/
theorem kept_of_lookup {n : ScopedName} (hn : Source.NamedIn D n.module)
    (hl : set.names.lookup n = some i) :
    ∃ m ∈ D, ∃ d, (places modules)[i]? = some (m, d) ∧ n = ⟨m.name, d.name⟩ := by
  obtain ⟨m, hm, hmn⟩ := hn
  obtain ⟨m', d, hp, rfl⟩ := h.lookup_eq_some_iff.mp hl
  have hm' := (mem_places_iff.mp (List.mem_of_getElem? hp)).1
  obtain rfl := h.module_eq_of_name_eq (s.left m hm) hm' hmn
  exact ⟨m, hm, d, hp, rfl⟩

/-- The names of the modules of `D` stand for the same declarations in both tables. -/
def toTableRenaming : TableRenaming (Source.NamedIn D) set.names set'.names where
  place := place set set'
  Kept := Kept D modules
  injective i j := s.place_injective h h'
  lookup_eq n hn := by
    cases hl : set.names.lookup n with
    | some i =>
      obtain ⟨m, hm, d, hp, rfl⟩ := s.kept_of_lookup h hn hl
      exact (s.place_eq h h' hm hp).1
    | none =>
      cases hl' : set'.names.lookup n with
      | none => rfl
      | some j =>
        obtain ⟨m, hm, hmn⟩ := hn
        obtain ⟨m', d, hp, rfl⟩ := h'.lookup_eq_some_iff.mp hl'
        obtain ⟨hm', hd⟩ := mem_places_iff.mp (List.mem_of_getElem? hp)
        obtain rfl := h'.module_eq_of_name_eq (s.right m hm) hm' hmn
        obtain ⟨i, hi⟩ :=
          List.mem_iff_getElem?.mp (mem_places_iff.mpr ⟨s.left m hm, hd⟩)
        rw [h.lookup_eq_some_iff.mpr ⟨m, d, hi, rfl⟩] at hl
        cases hl
  kept_of_lookup n i hn hl := by
    obtain ⟨m, hm, d, hp, -⟩ := s.kept_of_lookup h hn hl
    exact ⟨m, hm, d, hp⟩

/-- A declaration of `D` is the same in both sets, up to places, and mentions only those of `D`. -/
theorem exists_decl (hi : Kept D modules i) :
    ∃ x, set.decls[i]? = some x ∧
      set'.decls[place set set' i]? = some (x.rename (place set set')) ∧
      ∀ t ∈ x.types, t.Within (Kept D modules) := by
  obtain ⟨m, hm, d, hp⟩ := hi
  obtain ⟨x, hx, hr⟩ := h.decl_of_place hp
  obtain ⟨x', hx', hr'⟩ := h'.decl_of_place (s.place_eq h h' hm hp).2
  have hd := (mem_places_iff.mp (List.mem_of_getElem? hp)).2
  obtain ⟨hrename, hw⟩ := (s.toTableRenaming h h').resolveDecl_eq (s.settled hm) hd hr
  obtain rfl : x' = x.rename (place set set') := Except.ok.inj (hr'.symm.trans hrename)
  exact ⟨x, hx, hx', hw⟩

/-- The declarations of the modules of `D` are the same in both sets, up to their places. -/
def toRenaming : set.Renaming set' where
  place := place set set'
  Kept := Kept D modules
  injective i j := s.place_injective h h'
  id_eq i hi := by
    obtain ⟨x, hx, -⟩ := s.exists_decl h h' hi
    rw [ModuleSet.decl_of_getElem? hx, h.id_eq hx]
  decl_eq i hi := by
    obtain ⟨x, hx, hx', -⟩ := s.exists_decl h h' hi
    rw [ModuleSet.decl_of_getElem? hx, ModuleSet.decl_of_getElem? hx']
  closed i hi := by
    obtain ⟨x, hx, -, hw⟩ := s.exists_decl h h' hi
    rwa [ModuleSet.decl_of_getElem? hx]

/-- A module of `D` has the same declarations in both sets. -/
theorem module?_eq (hm : m ∈ D) :
    ∃ x x', set.module? m.name = some x ∧ set'.module? m.name = some x' ∧ x.name = m.name ∧
      x'.name = m.name ∧ x'.decls = x.decls.map (place set set') ∧
      ∀ i ∈ x.decls, Kept D modules i := by
  obtain ⟨id, hid, hx⟩ := h.module?_of_mem (s.left m hm)
  obtain ⟨id', hid', hx'⟩ := h'.module?_of_mem (s.right m hm)
  have hplaces : ∀ k < m.decls.length, ∃ d, (places modules)[id + k]? = some (m, d) ∧
      (places modules')[id' + k]? = some (m, d) := by
    intro k hk
    have hd := List.getElem?_eq_getElem hk
    obtain ⟨i, hi, hp⟩ := (places_of_numbered hid).2 k _ hd
    obtain ⟨i', hi', hp'⟩ := (places_of_numbered hid').2 k _ hd
    rw [Nat.zero_add] at hi hi'
    exact ⟨_, hi ▸ hp, hi' ▸ hp'⟩
  refine ⟨_, _, hx, hx', rfl, rfl, ?_, ?_⟩
  · show List.range' id' m.decls.length = (List.range' id m.decls.length).map (place set set')
    rw [List.range'_eq_map_range, List.range'_eq_map_range, List.map_map]
    refine List.map_congr_left fun k hk => ?_
    obtain ⟨d, hp, hp'⟩ := hplaces k (List.mem_range.mp hk)
    have hl := (s.place_eq h h' hm hp).1
    exact Option.some.inj ((h'.lookup_eq_some_iff.mpr ⟨m, d, hp', rfl⟩).symm.trans hl)
  · intro i hi
    obtain ⟨k, hk, rfl⟩ := List.mem_range'.mp hi
    obtain ⟨d, hp, -⟩ := hplaces k hk
    rw [Nat.one_mul]
    exact ⟨m, hm, d, hp⟩

end SharedModules

end Adl
