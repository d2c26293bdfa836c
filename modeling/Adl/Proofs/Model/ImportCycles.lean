import Adl.Proofs.Model.Names
import Mathlib.Data.List.Chain
import Mathlib.Data.List.Perm.Subperm
import Mathlib.Logic.Relation

/-!
# Import cycles — the search finds a cycle if there is one

The imports among the modules of a list form a directed graph (`ImportEdge`).  `findCycle` walks
through it depth first.  The path that leads to a module is a walk without repetitions, so what
closes it is a cycle (`isCycle_of_visit`).  From a module that is done no walk goes on for ever
(`Settled`), and this is kept by every visit (`Visited`), so no cycle is left when all modules are
done.  The fuel of the search suffices, because a path has at most as many modules as the list.
-/

namespace Adl

open Source (Import)

/-! ### The graph of imports -/

section

variable (modules : List Source.Module)

/-- A module of the list has an import of the named module, be this in the list or not. -/
def Names (a b : String) : Prop := ∃ m ∈ modules, m.name = a ∧ b ∈ m.imported

/-- A module of the list imports a module of the list. -/
def ImportEdge (a b : String) : Prop := Names modules a b ∧ ∃ m ∈ modules, m.name = b

/-- Imports lead from a module of the list back to it. -/
def Cyclic : Prop := ∃ a, Relation.TransGen (ImportEdge modules) a a

/-- A list of names leads along imports from a module back to it and meets no other module twice. -/
def IsCycle (cycle : List String) : Prop :=
  ∃ a inner, cycle = a :: inner ++ [a] ∧ (a :: inner).Nodup ∧ cycle.IsChain (ImportEdge modules)

end

namespace Imports

variable {modules : List Source.Module} {m : Source.Module} {name : String}
  {path done : List String}

theorem find?_eq_some (hf : find? modules name = some m) : m ∈ modules ∧ m.name = name :=
  ⟨List.mem_of_find?_eq_some hf, by simpa using List.find?_some hf⟩

/-- Of modules with distinct names, each is found under its name. -/
theorem find?_of_mem (hnd : (modules.map (·.name)).Nodup) (hm : m ∈ modules) :
    find? modules m.name = some m := by
  cases hf : find? modules m.name with
  | none => exact absurd (List.find?_eq_none.mp hf m hm) (by simp)
  | some m' =>
    obtain ⟨hm', hn⟩ := find?_eq_some hf
    rw [List.inj_on_of_nodup_map hnd hm' hm hn]

theorem mem_names_iff : name ∈ modules.map (·.name) ↔ ∃ m ∈ modules, m.name = name :=
  List.mem_map

/-! ### The cases of a visit -/

section

variable {fuel : Nat}

theorem visit_of_mem_path (hpath : name ∈ path) :
    visit modules fuel path done name = .error (path.dropWhile (· ≠ name) ++ [name]) := by
  rw [visit.eq_def]
  exact if_pos hpath

theorem visit_of_mem_done (hpath : name ∉ path) (hdone : name ∈ done) :
    visit modules fuel path done name = .ok done := by
  rw [visit.eq_def]
  exact (if_neg hpath).trans (if_pos hdone)

theorem visit_of_find?_eq_none (hpath : name ∉ path) (hf : find? modules name = none) :
    visit modules fuel path done name = .ok done := by
  rw [visit.eq_def]
  dsimp only
  rw [if_neg hpath, hf]
  exact ite_self _

theorem visit_zero (hpath : name ∉ path) : visit modules 0 path done name = .ok done := by
  rw [visit.eq_def]
  dsimp only
  rw [if_neg hpath]
  cases find? modules name <;> exact ite_self _

theorem visit_of_find?_eq_some (hpath : name ∉ path) (hdone : name ∉ done)
    (hf : find? modules name = some m) :
    visit modules (fuel + 1) path done name = do
      let done ← m.imported.foldlM (visit modules fuel (path ++ [name])) done
      return name :: done := by
  rw [visit.eq_def]
  dsimp only
  rw [if_neg hpath, if_neg hdone, hf]

end

/-! ### What closes a path is a cycle -/

/-- A path to a module: a walk along imports through modules of the list, none of them twice. -/
structure Path (modules : List Source.Module) (path : List String) (name : String) : Prop where
  nodup : path.Nodup
  subset : path ⊆ modules.map (·.name)
  chain : (path ++ [name]).IsChain (Names modules)

theorem Path.nil (name : String) : Path modules [] name :=
  ⟨.nil, List.nil_subset _, .singleton _⟩

/-- A path goes on through the imports of the module that it leads to. -/
theorem Path.snoc (h : Path modules path name) (hm : m ∈ modules) (hn : m.name = name)
    (hpath : name ∉ path) {target : String} (ht : target ∈ m.imported) :
    Path modules (path ++ [name]) target where
  nodup := h.nodup.append (List.nodup_singleton _) (List.disjoint_singleton.mpr hpath)
  subset := List.append_subset.mpr
    ⟨h.subset, List.cons_subset.mpr ⟨mem_names_iff.mpr ⟨m, hm, hn⟩, List.nil_subset _⟩⟩
  chain := by
    rw [List.append_assoc]
    exact List.isChain_split.mpr ⟨h.chain, List.isChain_pair.mpr ⟨m, hm, hn, ht⟩⟩

/-- The part of a path behind a module on it and this module again. -/
theorem Path.isCycle (h : Path modules path name) (hmem : name ∈ path) :
    IsCycle modules (path.dropWhile (· ≠ name) ++ [name]) := by
  have hsuffix : path.dropWhile (· ≠ name) <:+ path := List.dropWhile_suffix _
  obtain ⟨inner, hinner⟩ : ∃ inner, path.dropWhile (· ≠ name) = name :: inner := by
    obtain ⟨front, back, rfl, hfront⟩ := List.eq_append_cons_of_mem hmem
    refine ⟨back, ?_⟩
    rw [List.dropWhile_append_of_pos fun a ha => by
      rw [decide_eq_true_iff]
      rintro rfl
      exact hfront ha]
    simp
  have hmodule : ∀ b ∈ path.dropWhile (· ≠ name) ++ [name], ∃ m ∈ modules, m.name = b := by
    intro b hb
    refine mem_names_iff.mp (h.subset ?_)
    rcases List.mem_append.mp hb with hb | hb
    · exact hsuffix.subset hb
    · exact List.mem_singleton.mp hb ▸ hmem
  have hchain : (path.dropWhile (· ≠ name) ++ [name]).IsChain (Names modules) := by
    obtain ⟨front, hfront⟩ := hsuffix
    refine h.chain.suffix ⟨front, ?_⟩
    rw [← List.append_assoc, hfront]
  refine ⟨name, inner, by rw [hinner, List.cons_append], ?_, ?_⟩
  · rw [← hinner]
    exact hsuffix.sublist.nodup h.nodup
  · exact hchain.imp_of_mem_imp fun a b _ hb hab => ⟨hab, hmodule b hb⟩

/-- The visits of a list of names fail if one of them does. -/
theorem exists_of_foldlM_error {f : List String → String → Except (List String) (List String)}
    {names cycle : List String} (h : names.foldlM f done = .error cycle) :
    ∃ done', ∃ name ∈ names, f done' name = .error cycle := by
  induction names generalizing done with
  | nil => cases h
  | cons name names ih =>
    rw [List.foldlM_cons] at h
    cases hf : f done name with
    | error c =>
      rw [hf] at h
      cases h
      exact ⟨done, name, List.mem_cons_self, hf⟩
    | ok done' =>
      rw [hf] at h
      obtain ⟨done'', name', hmem, herror⟩ := ih h
      exact ⟨done'', name', List.mem_cons_of_mem _ hmem, herror⟩

/-- What a visit reports is a cycle. -/
theorem isCycle_of_visit {fuel : Nat} {cycle : List String} (hpath : Path modules path name)
    (h : visit modules fuel path done name = .error cycle) : IsCycle modules cycle := by
  induction fuel generalizing path done name with
  | zero =>
    by_cases hmem : name ∈ path
    · rw [visit_of_mem_path hmem] at h
      cases h
      exact hpath.isCycle hmem
    · rw [visit_zero hmem] at h
      cases h
  | succ fuel ih =>
    by_cases hmem : name ∈ path
    · rw [visit_of_mem_path hmem] at h
      cases h
      exact hpath.isCycle hmem
    by_cases hdone : name ∈ done
    · rw [visit_of_mem_done hmem hdone] at h
      cases h
    cases hf : find? modules name with
    | none =>
      rw [visit_of_find?_eq_none hmem hf] at h
      cases h
    | some m =>
      obtain ⟨hm, hn⟩ := find?_eq_some hf
      rw [visit_of_find?_eq_some hmem hdone hf] at h
      cases hfold : m.imported.foldlM (visit modules fuel (path ++ [name])) done with
      | ok done' =>
        rw [hfold] at h
        cases h
      | error c =>
        rw [hfold] at h
        cases h
        obtain ⟨done', target, ht, herror⟩ := exists_of_foldlM_error hfold
        exact ih (hpath.snoc hm hn hmem ht) herror

/-! ### No cycle is left when all modules are done -/

/-- No walk along imports from a module goes on for ever. -/
abbrev Settled (modules : List Source.Module) : String → Prop :=
  Acc fun b a => ImportEdge modules a b

theorem Settled.not_cyclic {a : String} (h : Settled modules a) :
    ¬ Relation.TransGen (ImportEdge modules) a a := by
  rw [← Relation.transGen_swap]
  have h' : Acc (Relation.TransGen (Function.swap (ImportEdge modules))) a := acc_transGen_iff.mpr h
  clear h
  induction h' with
  | intro a _ ih => exact fun hcycle => ih a hcycle hcycle

/-- What a visit of some names makes of the modules that are done. -/
structure Visited (modules : List Source.Module) (names done done' : List String) : Prop where
  subset : done ⊆ done'
  settled : ∀ a ∈ done', Settled modules a
  mem : ∀ a ∈ names, (∃ m ∈ modules, m.name = a) → a ∈ done'

theorem Visited.of_mem (h : ∀ a ∈ done, Settled modules a)
    (hname : (∃ m ∈ modules, m.name = name) → name ∈ done) : Visited modules [name] done done :=
  ⟨fun _ h => h, h, fun _ ha => List.mem_singleton.mp ha ▸ hname⟩

theorem visited_of_foldlM {f : List String → String → Except (List String) (List String)}
    {names done' : List String} (hdone : ∀ a ∈ done, Settled modules a)
    (hf : ∀ name ∈ names, ∀ done done', (∀ a ∈ done, Settled modules a) →
      f done name = .ok done' → Visited modules [name] done done')
    (h : names.foldlM f done = .ok done') : Visited modules names done done' := by
  induction names generalizing done with
  | nil =>
    cases h
    exact ⟨fun _ h => h, hdone, fun _ h => nomatch h⟩
  | cons name names ih =>
    rw [List.foldlM_cons, bind_eq_ok_iff] at h
    obtain ⟨done₁, hfirst, hrest⟩ := h
    obtain ⟨hsub, hsettled, hmem⟩ := hf name List.mem_cons_self done done₁ hdone hfirst
    obtain ⟨hsub', hsettled', hmem'⟩ :=
      ih hsettled (fun n hn => hf n (List.mem_cons_of_mem _ hn)) hrest
    refine ⟨fun a ha => hsub' (hsub ha), hsettled', fun a ha hm => ?_⟩
    rcases List.mem_cons.mp ha with rfl | ha
    · exact hsub' (hmem a (List.mem_singleton_self a) hm)
    · exact hmem' a ha hm

/-- A visit that reports nothing leaves the module done, if there is fuel for all modules that are
not on the path yet. -/
theorem visited_of_visit (hnd : (modules.map (·.name)).Nodup) {fuel : Nat} {done' : List String}
    (hpath : Path modules path name) (hfuel : modules.length ≤ path.length + fuel)
    (hdone : ∀ a ∈ done, Settled modules a)
    (h : visit modules fuel path done name = .ok done') : Visited modules [name] done done' := by
  induction fuel generalizing path done done' name with
  | zero =>
    by_cases hmem : name ∈ path
    · rw [visit_of_mem_path hmem] at h
      cases h
    rw [visit_zero hmem] at h
    cases h
    -- a module that the path does not meet would make it longer than the list
    refine .of_mem hdone ?_
    rintro ⟨m, hm, hn⟩
    have hlong : name :: path ⊆ modules.map (·.name) :=
      List.cons_subset.mpr ⟨mem_names_iff.mpr ⟨m, hm, hn⟩, hpath.subset⟩
    have hle := (List.subperm_of_subset (List.nodup_cons.mpr ⟨hmem, hpath.nodup⟩) hlong).length_le
    rw [List.length_cons, List.length_map] at hle
    omega
  | succ fuel ih =>
    by_cases hmem : name ∈ path
    · rw [visit_of_mem_path hmem] at h
      cases h
    by_cases hmemdone : name ∈ done
    · rw [visit_of_mem_done hmem hmemdone] at h
      cases h
      exact .of_mem hdone fun _ => hmemdone
    cases hf : find? modules name with
    | none =>
      rw [visit_of_find?_eq_none hmem hf] at h
      cases h
      refine .of_mem hdone ?_
      rintro ⟨m, hm, rfl⟩
      rw [find?_of_mem hnd hm] at hf
      cases hf
    | some m =>
      obtain ⟨hm, hn⟩ := find?_eq_some hf
      rw [visit_of_find?_eq_some hmem hmemdone hf, bind_pure_eq_ok_iff] at h
      obtain ⟨done₁, hfold, rfl⟩ := h
      have hvisited : Visited modules m.imported done done₁ := by
        refine visited_of_foldlM hdone (fun target ht done done' hdone h => ?_) hfold
        refine ih (hpath.snoc hm hn hmem ht) ?_ hdone h
        rw [List.length_append, List.length_singleton]
        omega
      have hsettled : Settled modules name := by
        refine ⟨_, fun b hb => ?_⟩
        obtain ⟨⟨m', hm', hn', ht⟩, hmodule⟩ := hb
        obtain rfl := List.inj_on_of_nodup_map hnd hm hm' (hn.trans hn'.symm)
        exact hvisited.settled b (hvisited.mem b ht hmodule)
      refine ⟨fun a ha => List.mem_cons_of_mem _ (hvisited.subset ha),
        List.forall_mem_cons.mpr ⟨hsettled, hvisited.settled⟩, fun a ha _ => ?_⟩
      rw [List.mem_singleton.mp ha]
      exact List.mem_cons_self

/-! ### The search -/

theorem isCycle_of_findCycle {c : List String} (h : findCycle modules = some c) :
    IsCycle modules c := by
  rw [findCycle] at h
  split at h
  · cases h
  · next hfold =>
    cases h
    obtain ⟨done, name, -, herror⟩ := exists_of_foldlM_error hfold
    exact isCycle_of_visit (.nil name) herror

theorem settled_of_findCycle (hnd : (modules.map (·.name)).Nodup)
    (h : findCycle modules = none) (hm : m ∈ modules) : Settled modules m.name := by
  rw [findCycle] at h
  split at h
  · next done hfold =>
    have hvisited : Visited modules (modules.map (·.name)) [] done := by
      refine visited_of_foldlM (fun _ h => nomatch h) (fun name _ done done' hdone h => ?_) hfold
      exact visited_of_visit hnd (.nil name) (Nat.le_of_eq (Nat.zero_add _).symm) hdone h
    exact hvisited.settled _ (hvisited.mem _ (List.mem_map_of_mem hm) ⟨m, hm, rfl⟩)
  · cases h

theorem cyclic_of_isCycle {c : List String} (h : IsCycle modules c) : Cyclic modules := by
  obtain ⟨a, inner, rfl, -, hchain⟩ := h
  refine ⟨a, ?_⟩
  obtain ⟨b, rest, hrest⟩ := List.exists_cons_of_ne_nil (List.append_ne_nil_of_right_ne_nil inner
    (List.cons_ne_nil a []))
  have hlast : (b :: rest).getLast (List.cons_ne_nil _ _) = a := by
    simp only [← hrest, List.getLast_append_singleton]
  rw [List.cons_append, hrest, List.isChain_cons_cons] at hchain
  have hwalk := List.relationReflTransGen_of_exists_isChain _ hchain.2 (List.cons_ne_nil _ _)
  rw [hlast] at hwalk
  exact .head' hchain.1 hwalk

/-- The search finds a cycle if and only if there is one. -/
theorem exists_findCycle_iff (hnd : (modules.map (·.name)).Nodup) :
    (∃ c, findCycle modules = some c) ↔ Cyclic modules := by
  constructor
  · rintro ⟨c, hc⟩
    exact cyclic_of_isCycle (isCycle_of_findCycle hc)
  · rintro ⟨a, ha⟩
    cases hc : findCycle modules with
    | some c => exact ⟨c, rfl⟩
    | none =>
      obtain ⟨b, ⟨⟨m, hm, hn, -⟩, -⟩, -⟩ := Relation.TransGen.head'_iff.mp ha
      exact absurd ha (hn ▸ settled_of_findCycle hnd hc hm).not_cyclic

end Imports

end Adl
