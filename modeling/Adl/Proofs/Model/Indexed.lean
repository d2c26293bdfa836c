import Adl.Proofs.Compile.Compiled
import Adl.Proofs.Model.Closed
import Adl.Proofs.Model.Shared
import Adl.Proofs.Value.Renaming

/-!
# Indexed — places of declarations are in range

Declarations are addressed by their places, and nothing that works on a resolved set checks a place
before it is used.  None has to: the places are numbered through the modules (`Indexed`), the types
that stand in declarations have places of the set only (`Decl.WellScoped`), and whatever types and
values are made from such types have no others (`Enclosed`).
-/

namespace Adl

open Resolve

/-! ### Indexed sets -/

/-- The declarations of a set are numbered in the order in which they are written, and found by
their names. -/
structure ModuleSet.Indexed (modules : List Source.Module) (set : ModuleSet) : Prop where
  /-- Every declaration knows its place. -/
  id_eq : ∀ (i : DeclId) (d : Decl), set.decls[i]? = some d → d.id = i
  /-- The modules have all places, one after the other. -/
  places_eq : set.modules.flatMap Module.decls = List.range set.decls.length
  /-- The places of a module are those of the declarations that are written in it. -/
  names_eq : set.modules.map (fun m => (m.name, m.decls.map set.scopedName)) =
    modules.map fun m => (m.name, m.decls.map fun d => ⟨m.name, d.name⟩)
  /-- Looking up a name and asking a declaration for its name undo each other. -/
  lookup_iff : ∀ n i, set.lookup n = some i ↔ i < set.decls.length ∧ set.scopedName i = n

/-- There is a declaration at every place of a module. -/
theorem ModuleSet.Indexed.exists_decl {modules : List Source.Module} {set : ModuleSet}
    (h : set.Indexed modules) {m : Module} {id : DeclId} (hm : m ∈ set.modules)
    (hid : id ∈ m.decls) : ∃ x, set.decls[id]? = some x := by
  have hplace := List.mem_flatMap.mpr ⟨m, hm, hid⟩
  rw [h.places_eq, List.mem_range] at hplace
  exact ⟨_, List.getElem?_eq_getElem hplace⟩

/-- A declaration of a set with `size` declarations mentions only these and its own parameters, and
has no two names for one thing. -/
structure Decl.WellScoped (size : Nat) (d : Decl) : Prop where
  within : ∀ t ∈ d.types, t.Within (· < size)
  params : ∀ t ∈ d.types, ∀ p, t.Mentions p → p ∈ d.typeParams
  nodup_names : (d.members.map Member.name).Nodup
  nodup_serializedNames : (d.members.map Member.serializedName).Nodup
  nodup_typeParams : d.typeParams.Nodup

/-- From types with places of the set, no other places are reached. -/
structure ModuleSet.Enclosed (set : ModuleSet) : Prop where
  instantiate : ∀ σ location t u, t.Within (· < set.decls.length) →
    (∀ b ∈ σ, b.2.Within (· < set.decls.length)) → set.instantiate σ location t = .ok u →
    u.Within (· < set.decls.length)
  members : ∀ id args location b, id < set.decls.length →
    (∀ t ∈ args, t.Within (· < set.decls.length)) → set.members id args location = .ok b →
    ∀ t ∈ b.toFields ++ b.target?.toList, t.Within (· < set.decls.length)
  expand : ∀ t location u, t.Within (· < set.decls.length) →
    ((Graph.plain set).expand t location).run = .ok u → u.Within (· < set.decls.length)
  normalize : ∀ l t location v, t.Within (· < set.decls.length) →
    ((Graph.plain set).normalize l t location).run = .ok v → v.Within (· < set.decls.length)
  defaults : ∀ id x, id < set.decls.length → ((Graph.plain set).defaults id).run = .ok x →
    x.Within (· < set.decls.length)

/-! ### Names of one declaration -/

namespace Resolve

variable {table : NameTable} {scope : Scope} {m : Source.Module} {id : DeclId} {d : Source.Decl}
  {x : Decl}

theorem mem_typeParams_of_resolveName {written p : String}
    (h : scope.resolveName written = .ok (.typeParam p)) : p ∈ scope.typeParams := by
  unfold Scope.resolveName at h
  dsimp only at h
  split at h
  · split at h <;> cases h
  · split at h
    · next hmem =>
      cases h
      exact hmem
    · split at h
      · cases h
      · cases h
      · split at h <;> cases h

/-- The parameters in a type whose names are looked up are those in scope. -/
theorem mem_typeParams_of_mentions {t : Source.TypeExpr} {u : TypeExpr} {p : String}
    (h : scope.resolveType t = .ok u) (hp : u.Mentions p) : p ∈ scope.typeParams := by
  induction t generalizing u with
  | mk name args position ih =>
    obtain ⟨head, us, hhead, hus, rfl⟩ := resolveType_eq_ok_iff.mp h
    cases hp with
    | head => exact mem_typeParams_of_resolveName hhead
    | arg hu hp =>
      obtain ⟨t, ht, hr⟩ := exists_of_forall₂ hus hu
      exact ih t ht hr hp

theorem map_name_of_resolveDecl (h : resolveDecl table m id d = .ok x) :
    x.members.map Member.name = d.members.map Source.Member.name := by
  have hms := members_of_resolveDecl h
  generalize x.members = ys at hms
  generalize d.members = ms at hms
  induction hms with
  | nil => rfl
  | cons hy _ ih =>
    obtain ⟨type, -, rfl⟩ := resolveMember_eq_ok_iff.mp hy
    rw [List.map_cons, List.map_cons, ih]

theorem nodup_typeParams_of_checkNames (h : checkNames m.name d = .ok ()) :
    d.typeParams.Nodup := by
  unfold checkNames at h
  split at h
  · cases h
  · split at h
    · cases h
    · next hr => exact (firstRepeated_eq_none_iff.mp hr).1

/-! ### Places of the modules -/

theorem flatMap_range'_numbered (k : DeclId) (modules : List Source.Module) :
    (numbered k modules).flatMap (fun p => List.range' p.1 p.2.decls.length) =
      List.range' k (places modules).length := by
  induction modules generalizing k with
  | nil => rfl
  | cons m modules ih =>
    have hplaces : places (m :: modules) = m.decls.map (fun d => (m, d)) ++ places modules := rfl
    rw [numbered, List.flatMap_cons, ih, hplaces, List.length_append, List.length_map]
    exact List.range'_append_1

end Resolve

/-! ### Resolved sets -/

namespace Resolved

variable {modules : List Source.Module} {set : ModuleSet} {i : DeclId} {x : Decl}
  (h : Resolved modules set)

include h

theorem length_decls : set.decls.length = (places modules).length := by
  rw [← h.decls_eq.length_eq, List.length_zipIdx]

theorem sharedSelf : SharedModules modules modules modules :=
  ⟨fun _ hm => hm, fun _ hm => hm, fun _ hm _ hn => h.dependencies_closed hm hn⟩

/-- The places that the modules of the list have in its set are all that there are. -/
theorem kept_iff : SharedModules.Kept modules modules i ↔ i < set.decls.length := by
  rw [h.length_decls]
  constructor
  · rintro ⟨m, -, d, hp⟩
    exact (List.getElem?_eq_some_iff.mp hp).1
  · intro hi
    have hp := List.getElem?_eq_getElem hi
    exact ⟨_, (mem_places_iff.mp (List.mem_of_getElem? hp)).1, _, hp⟩

/-- A set renamed to itself, all of its places kept: what is known of renamings says that no other
places are reached. -/
theorem exists_renaming : ∃ r : set.Renaming set, r.Kept = (· < set.decls.length) :=
  ⟨h.sharedSelf.toRenaming h h, funext fun _ => propext h.kept_iff⟩

theorem lookup_iff {n : ScopedName} :
    set.lookup n = some i ↔ i < set.decls.length ∧ set.scopedName i = n := by
  rw [ModuleSet.lookup, h.lookup_eq_some_iff]
  constructor
  · rintro ⟨m, d, hp, rfl⟩
    refine ⟨h.kept_iff.mp ⟨m, ?_, d, hp⟩, h.scopedName_of_place hp⟩
    exact (mem_places_iff.mp (List.mem_of_getElem? hp)).1
  · rintro ⟨hi, rfl⟩
    obtain ⟨m, -, d, hp⟩ := h.kept_iff.mpr hi
    exact ⟨m, d, hp, (h.scopedName_of_place hp).symm⟩

theorem scopedNames_eq {m : Source.Module} (hm : (i, m) ∈ numbered 0 modules) :
    (List.range' i m.decls.length).map set.scopedName =
      m.decls.map fun d => ⟨m.name, d.name⟩ := by
  refine List.ext_getElem (by simp) fun j hj _ => ?_
  rw [List.length_map, List.length_range'] at hj
  obtain ⟨k, hk, hp⟩ := (places_of_numbered hm).2 j _ (List.getElem?_eq_getElem hj)
  rw [Nat.zero_add] at hk
  rw [List.getElem_map, List.getElem_range', List.getElem_map, Nat.one_mul, hk]
  exact h.scopedName_of_place hp

theorem indexed : set.Indexed modules where
  id_eq _ _ hx := h.id_eq hx
  places_eq := by
    rw [h.modules_eq, List.flatMap_map, h.length_decls, List.range_eq_range']
    exact flatMap_range'_numbered 0 modules
  names_eq := by
    rw [h.modules_eq, List.map_map]
    conv_rhs => rw [← map_snd_numbered 0 modules, List.map_map]
    refine List.map_congr_left fun p hp => ?_
    exact congrArg (p.2.name, ·) (h.scopedNames_eq hp)
  lookup_iff _ _ := h.lookup_iff

theorem wellScoped (hx : set.decls[i]? = some x) : x.WellScoped set.decls.length := by
  obtain ⟨r, hr⟩ := h.exists_renaming
  obtain ⟨m, d, -, hd⟩ := h.place_of_decls hx
  obtain ⟨hc, -⟩ := resolveDecl_eq_ok_iff.mp hd
  obtain ⟨hnames, hserialized⟩ := nodup_of_checkNames hc
  refine ⟨?_, ?_, ?_, ?_, ?_⟩
  · have hi : r.Kept i := by
      rw [hr]
      exact (List.getElem?_eq_some_iff.mp hx).1
    rw [← hr, ← ModuleSet.decl_of_getElem? hx]
    exact r.closed i hi
  · intro u hu p hp
    obtain ⟨t, -, location, ht⟩ := exists_of_forall₂ (types_of_resolveDecl hd) hu
    obtain ⟨-, body, -, rfl⟩ := resolveDecl_eq_ok_iff.mp hd
    exact mem_typeParams_of_mentions ht hp
  · rwa [map_name_of_resolveDecl hd]
  · rwa [map_serializedName_of_resolveDecl hd]
  · obtain ⟨-, body, -, rfl⟩ := resolveDecl_eq_ok_iff.mp hd
    exact nodup_typeParams_of_checkNames hc

theorem nodup_typeParams (id : DeclId) : (set.decl id).typeParams.Nodup := by
  cases hx : set.decls[id]? with
  | none =>
    rw [ModuleSet.decl, hx]
    exact List.nodup_nil
  | some x =>
    rw [ModuleSet.decl_of_getElem? hx]
    exact (h.wellScoped hx).nodup_typeParams

theorem enclosed : set.Enclosed := by
  obtain ⟨r, hr⟩ := h.exists_renaming
  have hd := h.distinctNames
  refine ⟨?_, ?_, ?_, ?_, ?_⟩ <;> simp only [← hr]
  · intro σ location t u ht hσ hu
    obtain ⟨-, rfl⟩ := ModuleSet.instantiate_eq_ok_iff.mp hu
    exact ht.subst hσ
  · intro id args location b hid hargs hb t ht
    obtain ⟨hfields, htarget⟩ :=
      r.within_of_bodyAt (hr ▸ hid) hargs (ModuleSet.members_eq_ok_iff.mp hb)
    cases b with
    | fields types =>
      rw [Members.toFields, Members.target?, Option.toList_none, List.append_nil] at ht
      exact hfields types rfl t ht
    | target type =>
      obtain rfl : t = type := List.mem_singleton.mp ht
      exact htarget t rfl
  · intro t location u ht hu
    exact (r.expands ht (Graph.yields_expand_iff.mp hu)).2
  · intro l t location v ht hv
    exact (r.denotes ht ((Graph.yields_normalize_iff hd).mp hv)).2
  · intro id x hid hx
    exact (r.defaultsOf (hr ▸ hid) ((Graph.yields_defaults_iff hd).mp hx)).2

end Resolved

/-! ### Main statement -/

variable {modules : List Source.Module} {set : ModuleSet}

/-- A set that modules resolve to is indexed by the places of its declarations, all of which are
well scoped, and the places in it lead to places in it only.  A compilation has the defaults and the
record of a declaration at every place. -/
theorem resolve_indexed (h : ModuleSet.resolve modules = .ok set) :
    set.Indexed modules ∧ (∀ d ∈ set.decls, d.WellScoped set.decls.length) ∧ set.Enclosed ∧
      ∀ c, Compilation.ofModules modules = .ok c →
        c.set = set ∧ c.defaults.length = set.decls.length ∧
          c.records.length = set.decls.length ∧
          ∀ x ∈ c.defaults, x.Within (· < set.decls.length) := by
  have hr := resolve_eq_ok_iff.mp h
  refine ⟨hr.indexed, fun d hd => ?_, hr.enclosed, fun c hc => ?_⟩
  · obtain ⟨i, hi⟩ := List.mem_iff_getElem?.mp hd
    exact hr.wellScoped hi
  · have hcomp := ofModules_eq_ok_iff.mp hc
    obtain rfl : c.set = set :=
      Except.ok.inj ((resolve_eq_ok_iff.mpr hcomp.resolved).symm.trans h)
    refine ⟨rfl, hcomp.defaults_eq.length_eq.symm, ?_, fun x hx => ?_⟩
    · rw [hcomp.records_eq, List.length_map]
    · obtain ⟨d, hd, hx⟩ := exists_of_forall₂ hcomp.defaults_eq hx
      obtain ⟨i, hi⟩ := List.mem_iff_getElem?.mp hd
      refine hr.enclosed.defaults d.id x ?_ hx
      rw [hr.id_eq hi]
      exact (List.getElem?_eq_some_iff.mp hi).1

/-- The module of `struct Label<T> { T item; geometry.Point at; Vector<Label<T>> inner; };`, as it
is parsed. -/
def labelModule : Source.Module :=
  let param : Source.TypeExpr := .mk "T" [] .start
  ⟨"labels", [], [⟨"Label", ["T"], [], .struct
    [⟨"item", "item", param, none, [], .start⟩,
      ⟨"at", "at", .mk "geometry.Point" [] .start, none, [], .start⟩,
      ⟨"inner", "inner", .mk "Vector" [.mk "Label" [param] .start] .start, none, [], .start⟩],
    .start⟩], []⟩

/-- What `labelModule` resolves to, before the module of points. -/
def labelSet : ModuleSet :=
  let int8 : TypeExpr := .mk (.primitive .int8) []
  let inner : TypeExpr := .mk (.primitive .vector) [.mk (.decl 0) [.param "T"]]
  ⟨[⟨"labels", [], [0], []⟩, ⟨"geometry", [], [1], []⟩],
    [⟨0, "labels", "Label", ["T"], [], .struct
        [⟨"item", "item", .param "T", none, []⟩, ⟨"at", "at", .mk (.decl 1) [], none, []⟩,
          ⟨"inner", "inner", inner, none, []⟩]⟩,
      ⟨1, "geometry", "Point", [], [], .struct
        [⟨"x", "x", int8, none, []⟩, ⟨"y", "y", int8, some (.integer 7), []⟩]⟩],
    [(⟨"labels", "Label"⟩, 0), (⟨"geometry", "Point"⟩, 1)]⟩

/-- Labels mention each other, a point of the module behind them, and their parameter. -/
theorem label_indexed :
    ModuleSet.resolve [labelModule, Graph.pointModule] = .ok labelSet ∧
      labelSet.Indexed [labelModule, Graph.pointModule] ∧
      (∀ d ∈ labelSet.decls, d.WellScoped 2) ∧ labelSet.Enclosed := by
  have h : ModuleSet.resolve [labelModule, Graph.pointModule] = .ok labelSet := rfl
  obtain ⟨hindexed, hscoped, henclosed, -⟩ := resolve_indexed h
  exact ⟨h, hindexed, hscoped, henclosed⟩

end Adl
