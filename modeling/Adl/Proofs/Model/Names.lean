import Adl.Proofs.Lookup
import Adl.Proofs.Model.Resolved

/-!
# Names — what the names of a resolved set stand for

In a resolved set no two modules have one name, and no two declarations of a module, so a scoped
name is looked up at the place of its declaration (`Resolved.lookup_eq_some_iff`), and the place of
a declaration is known from its module and its number there (`Resolved.places_of_numbered`).
-/

namespace Adl

theorem firstRepeated_eq_none_iff {seen names : List String} :
    firstRepeated seen names = none ↔ names.Nodup ∧ ∀ n ∈ names, n ∉ seen := by
  induction names generalizing seen with
  | nil => simp [firstRepeated]
  | cons name names ih =>
    rw [firstRepeated, List.nodup_cons, List.forall_mem_cons]
    by_cases h : name ∈ seen
    · simp [h]
    · rw [if_neg h, ih]
      constructor
      · rintro ⟨hnd, hseen⟩
        refine ⟨⟨fun hn => hseen name hn List.mem_cons_self, hnd⟩, h, ?_⟩
        exact fun n hn hs => hseen n hn (List.mem_cons_of_mem _ hs)
      · rintro ⟨⟨hn, hnd⟩, -, hseen⟩
        refine ⟨hnd, fun n hmem hs => ?_⟩
        rcases List.mem_cons.mp hs with rfl | hs
        · exact hn hmem
        · exact hseen n hmem hs

namespace Resolve

theorem takenName_eq_none_iff {seen : List String} {ds : List Source.Decl} :
    takenName seen ds = none ↔ ((ds.map (·.name)).Nodup ∧ ∀ d ∈ ds, d.name ∉ seen) ∧
      ∀ d ∈ ds, Primitive.ofName? d.name = none := by
  induction ds generalizing seen with
  | nil => simp [takenName]
  | cons d ds ih =>
    rw [takenName, List.map_cons, List.nodup_cons]
    simp only [List.forall_mem_cons]
    by_cases h : d.name ∈ seen ∨ (Primitive.ofName? d.name).isSome
    · rw [if_pos h]
      refine iff_of_false (fun h => by cases h) ?_
      rintro ⟨⟨-, hs, -⟩, hp, -⟩
      rcases h with h | h
      · exact hs h
      · rw [hp] at h
        cases h
    · obtain ⟨hs, hp⟩ := not_or.mp h
      rw [if_neg h, ih]
      constructor
      · rintro ⟨⟨hnd, hseen⟩, hprim⟩
        refine ⟨⟨⟨?_, hnd⟩, hs, ?_⟩, Option.not_isSome_iff_eq_none.mp hp, hprim⟩
        · intro hmem
          obtain ⟨d', hd', heq⟩ := List.mem_map.mp hmem
          exact hseen d' hd' (heq ▸ List.mem_cons_self)
        · exact fun d' hd' hmem => hseen d' hd' (List.mem_cons_of_mem _ hmem)
      · rintro ⟨⟨⟨hn, hnd⟩, -, hseen⟩, -, hprim⟩
        refine ⟨⟨hnd, fun d' hd' hmem => ?_⟩, hprim⟩
        rcases List.mem_cons.mp hmem with heq | hmem
        · exact hn (heq ▸ List.mem_map_of_mem hd')
        · exact hseen d' hd' hmem

/-- The places of the declarations of a module follow each other from that of the first. -/
theorem places_of_numbered {modules : List Source.Module} {k id : Nat} {m : Source.Module}
    (h : (id, m) ∈ numbered k modules) :
    m ∈ modules ∧ ∀ j d, m.decls[j]? = some d →
      ∃ i, id + j = k + i ∧ (places modules)[i]? = some (m, d) := by
  induction modules generalizing k with
  | nil => cases h
  | cons m' modules ih =>
    have hplaces : places (m' :: modules) = m'.decls.map (fun d => (m', d)) ++ places modules := rfl
    rw [numbered] at h
    rcases List.mem_cons.mp h with heq | h
    · cases heq
      refine ⟨List.mem_cons_self, fun j d hd => ⟨j, rfl, ?_⟩⟩
      have hlt : j < m.decls.length := (List.getElem?_eq_some_iff.mp hd).1
      rw [hplaces, List.getElem?_append_left (by rwa [List.length_map]), List.getElem?_map, hd]
      rfl
    · obtain ⟨hm, hj⟩ := ih h
      refine ⟨List.mem_cons_of_mem _ hm, fun j d hd => ?_⟩
      obtain ⟨i, hi, hp⟩ := hj j d hd
      refine ⟨m'.decls.length + i, by omega, ?_⟩
      rw [hplaces, List.getElem?_append_right (by simp)]
      simpa using hp

theorem map_snd_numbered (k : DeclId) (modules : List Source.Module) :
    (numbered k modules).map Prod.snd = modules := by
  induction modules generalizing k with
  | nil => rfl
  | cons m modules ih => rw [numbered, List.map_cons, ih]

/-- Modules that are related, with as many declarations, have the same numbers. -/
theorem forall₂_numbered {R : Source.Module → Source.Module → Prop}
    (hlength : ∀ m m', R m m' → m.decls.length = m'.decls.length)
    {modules modules' : List Source.Module} (h : List.Forall₂ R modules modules') (k : DeclId) :
    List.Forall₂ (fun p p' => p.1 = p'.1 ∧ R p.2 p'.2) (numbered k modules)
      (numbered k modules') := by
  induction h generalizing k with
  | nil => exact .nil
  | cons hm _ ih =>
    rw [numbered, numbered, ← hlength _ _ hm]
    exact .cons ⟨rfl, hm⟩ (ih _)

/-- Where no two modules and no two declarations of a module have one name, no two declarations have
the same scoped name. -/
theorem nodup_declNames {modules : List Source.Module} (hmodules : (modules.map (·.name)).Nodup)
    (hdecls : ∀ m ∈ modules, (m.decls.map (·.name)).Nodup) : (declNames modules).Nodup := by
  rw [declNames, List.nodup_flatMap]
  constructor
  · intro m hm
    have hnd := hdecls m hm
    rw [List.nodup_map_iff_inj_on (List.Nodup.of_map _ hnd)]
    intro d hd d' hd' heq
    exact List.inj_on_of_nodup_map hnd hd hd' (ScopedName.mk.inj heq).2
  · refine (List.pairwise_map.mp hmodules).imp fun hne => ?_
    intro n hn hn'
    obtain ⟨d, -, rfl⟩ := List.mem_map.mp hn
    obtain ⟨d', -, heq⟩ := List.mem_map.mp hn'
    exact hne (ScopedName.mk.inj heq).1.symm

end Resolve

namespace Resolved

open Resolve

variable {modules : List Source.Module} {set : ModuleSet} (h : Resolved modules set)

include h

theorem nodup_moduleNames : (modules.map (·.name)).Nodup :=
  (firstRepeated_eq_none_iff.mp h.names_distinct).1

theorem module_eq_of_name_eq {m m' : Source.Module} (hm : m ∈ modules) (hm' : m' ∈ modules)
    (hn : m.name = m'.name) : m = m' :=
  List.inj_on_of_nodup_map h.nodup_moduleNames hm hm' hn

theorem nodup_declNames {m : Source.Module} (hm : m ∈ modules) : (m.decls.map (·.name)).Nodup := by
  have htaken := List.filterMap_eq_nil_iff.mp h.none_taken m hm
  exact (takenName_eq_none_iff.mp (Option.map_eq_none_iff.mp htaken)).1.1

/-- No two declarations have the same scoped name. -/
theorem nodup_placeNames : ((places modules).map placeName).Nodup := by
  rw [← declNames_eq]
  exact Resolve.nodup_declNames h.nodup_moduleNames fun _ => h.nodup_declNames

/-- A scoped name is looked up at the place of its declaration. -/
theorem lookup_eq_some_iff {n : ScopedName} {i : DeclId} :
    set.names.lookup n = some i ↔
      ∃ m d, (places modules)[i]? = some (m, d) ∧ ⟨m.name, d.name⟩ = n := by
  rw [h.names_eq, lookup_zipIdx_eq_some_iff h.nodup_placeNames, List.getElem?_map,
    Option.map_eq_some_iff]
  constructor
  · rintro ⟨⟨m, d⟩, hp, hn⟩
    exact ⟨m, d, hp, hn⟩
  · rintro ⟨m, d, hp, hn⟩
    exact ⟨(m, d), hp, hn⟩

theorem decl_of_place {i : DeclId} {m : Source.Module} {d : Source.Decl}
    (hp : (places modules)[i]? = some (m, d)) :
    ∃ x, set.decls[i]? = some x ∧ resolveDecl set.names m i d = .ok x := by
  have hlen : i < (places modules).length := (List.getElem?_eq_some_iff.mp hp).1
  have hx : ∃ x, set.decls[i]? = some x := by
    refine exists_getElem?_of_length_eq ?_ hp
    rw [← h.decls_eq.length_eq, List.length_zipIdx]
  obtain ⟨x, hx⟩ := hx
  obtain ⟨m', d', hp', hr⟩ := h.place_of_decls hx
  cases hp.symm.trans hp'
  exact ⟨x, hx, hr⟩

theorem scopedName_of_place {i : DeclId} {m : Source.Module} {d : Source.Decl}
    (hp : (places modules)[i]? = some (m, d)) : set.scopedName i = ⟨m.name, d.name⟩ := by
  obtain ⟨x, hx, hr⟩ := h.decl_of_place hp
  obtain ⟨-, body, -, rfl⟩ := resolveDecl_eq_ok_iff.mp hr
  rw [ModuleSet.scopedName, ModuleSet.decl_of_getElem? hx]
  rfl

theorem module?_of_mem {m : Source.Module} (hm : m ∈ modules) :
    ∃ id, (id, m) ∈ numbered 0 modules ∧
      set.module? m.name = some (resolveModule set.names id m) := by
  rw [ModuleSet.module?, h.modules_eq, List.find?_map]
  cases hf : (numbered 0 modules).find? fun p => p.2.name = m.name with
  | none =>
    have hmem : m ∈ (numbered 0 modules).map Prod.snd := by rwa [map_snd_numbered]
    obtain ⟨p, hp, rfl⟩ := List.mem_map.mp hmem
    exact absurd (List.find?_eq_none.mp hf p hp) (by simp)
  | some p =>
    obtain ⟨id, m'⟩ := p
    have hp := List.mem_of_find?_eq_some hf
    have hn : m'.name = m.name := by simpa using List.find?_some hf
    obtain rfl := h.module_eq_of_name_eq (places_of_numbered hp).1 hm hn
    refine ⟨id, hp, ?_⟩
    show ((numbered 0 modules).find? fun p => p.2.name = m'.name).map _ = _
    rw [hf]
    rfl

end Resolved

end Adl
