import Adl.Model.Resolve
import Adl.Proofs.Value.Parts

/-!
# Resolved — what is known of a resolved set

`Resolved modules set` says what `ModuleSet.resolve` returns and when: the modules have passed the
checks, the table has all declared names in order, and every declaration is that of its place,
resolved in this table (`resolve_eq_ok_iff`).
-/

namespace Adl

namespace Resolve

/-! ### Places -/

/-- All declarations with their modules, in order. -/
def places (modules : List Source.Module) : List (Source.Module × Source.Decl) :=
  modules.flatMap fun m => m.decls.map fun d => (m, d)

/-- The scoped name of a declaration in its module. -/
def placeName (p : Source.Module × Source.Decl) : ScopedName := ⟨p.1.name, p.2.name⟩

theorem mem_places_iff {modules : List Source.Module} {m : Source.Module} {d : Source.Decl} :
    (m, d) ∈ places modules ↔ m ∈ modules ∧ d ∈ m.decls := by
  simp only [places, List.mem_flatMap, List.mem_map, Prod.mk.injEq]
  constructor
  · rintro ⟨_, hm, _, hd, rfl, rfl⟩
    exact ⟨hm, hd⟩
  · rintro ⟨hm, hd⟩
    exact ⟨m, hm, d, hd, rfl, rfl⟩

theorem declNames_eq (modules : List Source.Module) :
    declNames modules = (places modules).map placeName := by
  simp [declNames, places, placeName, List.map_flatMap, Function.comp_def]

variable {table : NameTable} {m : Source.Module}

theorem resolveDecls_eq_ok_iff {id : DeclId} {ds : List Source.Decl} {xs : List Decl} :
    resolveDecls table m id ds = .ok xs ↔
      List.Forall₂ (fun p x => resolveDecl table p.1.1 p.2 p.1.2 = .ok x)
        ((ds.map fun d => (m, d)).zipIdx id) xs := by
  induction ds generalizing id xs with
  | nil =>
    rw [resolveDecls, pure_eq_ok_iff, List.map_nil, List.zipIdx_nil, List.forall₂_nil_left_iff,
      eq_comm]
  | cons d ds ih =>
    rw [resolveDecls, List.map_cons, List.zipIdx_cons, List.forall₂_cons_left_iff]
    simp only [bind_eq_ok_iff, pure_eq_ok_iff, ih]
    constructor
    · rintro ⟨x, hx, xs, hxs, rfl⟩
      exact ⟨x, xs, hx, hxs, rfl⟩
    · rintro ⟨x, xs, hx, hxs, rfl⟩
      exact ⟨x, hx, xs, hxs, rfl⟩

/-- All results of a list are values. -/
theorem errorsOf_eq_nil_iff {α : Type} {results : List (Except Error α)} {as : List α} :
    errorsOf results = [] ∧ valuesOf results = as ↔ results = as.map .ok := by
  induction results generalizing as with
  | nil => simp [errorsOf, valuesOf, eq_comm]
  | cons r results ih =>
    cases r with
    | error e => cases as <;> simp [errorsOf]
    | ok a =>
      cases as with
      | nil => simp [errorsOf, valuesOf]
      | cons b as =>
        have h : errorsOf (.ok a :: results) = errorsOf results ∧
            valuesOf (.ok a :: results) = a :: valuesOf results := ⟨rfl, rfl⟩
        rw [h.1, h.2, List.map_cons, List.cons.injEq, List.cons.injEq, ← ih]
        simp only [Except.ok.injEq]
        exact and_left_comm

/-- The declarations of all modules, each list at its place, are those of the places. -/
theorem resolveDecls_modules_iff {id : DeclId} {modules : List Source.Module} {ds : List Decl} :
    (∃ dss : List (List Decl), (numbered id modules).map
        (fun p => resolveDecls table p.2 p.1 p.2.decls) = dss.map .ok ∧ dss.flatten = ds) ↔
      List.Forall₂ (fun p x => resolveDecl table p.1.1 p.2 p.1.2 = .ok x)
        ((places modules).zipIdx id) ds := by
  induction modules generalizing id ds with
  | nil =>
    simp only [numbered, places, List.flatMap_nil, List.zipIdx_nil, List.map_nil,
      List.forall₂_nil_left_iff]
    constructor
    · rintro ⟨dss, h, rfl⟩
      rw [List.map_eq_nil_iff.mp h.symm, List.flatten_nil]
    · rintro rfl
      exact ⟨[], rfl, rfl⟩
  | cons m modules ih =>
    have hplaces : places (m :: modules) = m.decls.map (fun d => (m, d)) ++ places modules := rfl
    rw [numbered, List.map_cons, hplaces, List.zipIdx_append, List.length_map]
    constructor
    · rintro ⟨dss, h, rfl⟩
      cases dss with
      | nil => cases h
      | cons xs dss =>
        obtain ⟨hx, hxs⟩ := List.cons.inj h
        rw [List.flatten_cons]
        exact List.rel_append (resolveDecls_eq_ok_iff.mp hx) (ih.mp ⟨dss, hxs, rfl⟩)
    · intro h
      obtain ⟨xs, ys, hxs, hys, rfl⟩ := forall₂_append_left_iff.mp h
      obtain ⟨dss, hdss, rfl⟩ := ih.mpr hys
      exact ⟨xs :: dss, congrArg₂ List.cons (resolveDecls_eq_ok_iff.mpr hxs) hdss, rfl⟩

theorem resolveWith_eq_ok_iff {modules : List (DeclId × Source.Module)} {set : ModuleSet} :
    resolveWith table modules = .ok set ↔
      ∃ dss : List (List Decl),
        (modules.map fun p => resolveDecls table p.2 p.1 p.2.decls) = dss.map .ok ∧
          ⟨modules.map fun p => resolveModule table p.1 p.2, dss.flatten, table⟩ = set := by
  unfold resolveWith
  dsimp only
  constructor
  · intro h
    split at h
    · next he => exact ⟨_, errorsOf_eq_nil_iff.mp ⟨he, rfl⟩, Except.ok.inj h⟩
    · cases h
  · rintro ⟨dss, hdss, rfl⟩
    obtain ⟨he, hv⟩ := errorsOf_eq_nil_iff.mpr hdss
    rw [he]
    dsimp only
    rw [hv]

end Resolve

/-- A set is what the modules resolve to. -/
structure Resolved (modules : List Source.Module) (set : ModuleSet) : Prop where
  names_distinct : firstRepeated [] (modules.map (·.name)) = none
  imports_ok : Imports.errors modules = []
  none_taken : modules.filterMap Resolve.takenError = []
  names_eq : set.names = ((Resolve.places modules).map Resolve.placeName).zipIdx
  modules_eq : set.modules =
    (Resolve.numbered 0 modules).map fun p => Resolve.resolveModule set.names p.1 p.2
  decls_eq : List.Forall₂ (fun p d => Resolve.resolveDecl set.names p.1.1 p.2 p.1.2 = .ok d)
    (Resolve.places modules).zipIdx set.decls

theorem resolve_eq_ok_iff {modules : List Source.Module} {set : ModuleSet} :
    ModuleSet.resolve modules = .ok set ↔ Resolved modules set := by
  unfold ModuleSet.resolve
  constructor
  · intro h
    split at h
    · cases h
    · next hnames =>
      split at h
      · next himports =>
        split at h
        · next htaken =>
          rw [Resolve.declNames_eq, Resolve.resolveWith_eq_ok_iff] at h
          obtain ⟨dss, hdss, rfl⟩ := h
          exact ⟨hnames, himports, htaken, rfl, rfl,
            Resolve.resolveDecls_modules_iff.mp ⟨dss, hdss, rfl⟩⟩
        · cases h
      · cases h
  · rintro ⟨hnames, himports, htaken, hn, hm, hd⟩
    obtain ⟨dss, hdss, hds⟩ := Resolve.resolveDecls_modules_iff.mpr hd
    obtain ⟨ms, ds, names⟩ := set
    dsimp only at hn hm hds hdss
    subst hn hm hds
    rw [hnames, himports, htaken, Resolve.declNames_eq]
    exact Resolve.resolveWith_eq_ok_iff.mpr ⟨dss, hdss, rfl⟩

namespace Resolve

variable {table : NameTable} {m : Source.Module} {scope : Scope} {id : DeclId} {d : Source.Decl}
  {x : Decl}

/-! ### One declaration -/

/-- The scope of a declaration. -/
def declScope (table : NameTable) (m : Source.Module) (d : Source.Decl) : Scope :=
  ⟨table, m, d.typeParams, .ofDecl m.name d.name⟩

/-- The scope of a member. -/
def memberScope (scope : Scope) (m : Source.Member) : Scope :=
  { scope with location := scope.location.within m.name }

theorem resolveDecl_eq_ok_iff :
    resolveDecl table m id d = .ok x ↔
      checkNames m.name d = .ok () ∧ ∃ body, resolveBody (declScope table m d) d.body = .ok body ∧
        ⟨id, m.name, d.name, d.typeParams,
          (declScope table m d).resolveAnnotations d.annotations, body⟩ = x := by
  rw [resolveDecl]
  simp only [bind_eq_ok_iff, pure_eq_ok_iff]
  constructor
  · rintro ⟨_, hc, body, hb, rfl⟩
    exact ⟨hc, body, hb, rfl⟩
  · rintro ⟨hc, body, hb, rfl⟩
    exact ⟨(), hc, body, hb, rfl⟩

theorem resolveTypes_eq_ok_iff {ts : List Source.TypeExpr} {us : List TypeExpr} :
    scope.resolveTypes ts = .ok us ↔
      List.Forall₂ (fun t u => scope.resolveType t = .ok u) ts us := by
  induction ts generalizing us with
  | nil =>
    rw [Scope.resolveTypes, pure_eq_ok_iff, List.forall₂_nil_left_iff, eq_comm]
  | cons t ts ih =>
    rw [Scope.resolveTypes, List.forall₂_cons_left_iff]
    simp only [bind_eq_ok_iff, pure_eq_ok_iff, ih]
    constructor
    · rintro ⟨u, hu, us, hus, rfl⟩
      exact ⟨u, us, hu, hus, rfl⟩
    · rintro ⟨u, us, hu, hus, rfl⟩
      exact ⟨u, hu, us, hus, rfl⟩

theorem resolveType_eq_ok_iff {name : String} {args : List Source.TypeExpr} {p : Position}
    {u : TypeExpr} :
    scope.resolveType (.mk name args p) = .ok u ↔
      ∃ head us, scope.resolveName name = .ok head ∧
        List.Forall₂ (fun t u => scope.resolveType t = .ok u) args us ∧ .mk head us = u := by
  rw [Scope.resolveType]
  simp only [bind_eq_ok_iff, pure_eq_ok_iff, resolveTypes_eq_ok_iff, exists_and_left]

theorem resolveMember_eq_ok_iff {sm : Source.Member} {y : Member} :
    resolveMember scope sm = .ok y ↔
      ∃ type, (memberScope scope sm).resolveType sm.type = .ok type ∧
        ⟨sm.name, sm.serializedName, type, sm.default,
          (memberScope scope sm).resolveAnnotations sm.annotations⟩ = y := by
  rw [resolveMember]
  exact bind_pure_eq_ok_iff

/-- A resolved body is of the same kind, with resolved parts. -/
inductive ResolvedBody (scope : Scope) : Source.Body → Body → Prop
  | struct {ms : List Source.Member} {ys : List Member}
      (h : List.Forall₂ (fun sm y => resolveMember scope sm = .ok y) ms ys) :
      ResolvedBody scope (.struct ms) (.struct ys)
  | union {ms : List Source.Member} {ys : List Member}
      (h : List.Forall₂ (fun sm y => resolveMember scope sm = .ok y) ms ys) :
      ResolvedBody scope (.union ms) (.union ys)
  | enum {ms : List Source.Member} {ys : List Member}
      (h : List.Forall₂ (fun sm y => resolveMember scope sm = .ok y) ms ys) :
      ResolvedBody scope (.enum ms) (.enum ys)
  | alias {t : Source.TypeExpr} {u : TypeExpr} (h : scope.resolveType t = .ok u) :
      ResolvedBody scope (.alias t) (.alias u)
  | newtype {t : Source.TypeExpr} {u : TypeExpr} (default : Option Literal)
      (h : scope.resolveType t = .ok u) :
      ResolvedBody scope (.newtype t default) (.newtype u default)

theorem resolveBody_eq_ok_iff {b : Source.Body} {c : Body} :
    resolveBody scope b = .ok c ↔ ResolvedBody scope b c := by
  constructor
  · intro h
    cases b with
    | struct ms =>
      obtain ⟨ys, hys, rfl⟩ := bind_pure_eq_ok_iff.mp h
      exact .struct (mapM_eq_ok_iff.mp hys)
    | union ms =>
      obtain ⟨ys, hys, rfl⟩ := bind_pure_eq_ok_iff.mp h
      exact .union (mapM_eq_ok_iff.mp hys)
    | enum ms =>
      obtain ⟨ys, hys, rfl⟩ := bind_pure_eq_ok_iff.mp h
      exact .enum (mapM_eq_ok_iff.mp hys)
    | «alias» t =>
      obtain ⟨u, hu, rfl⟩ := bind_pure_eq_ok_iff.mp h
      exact .alias hu
    | newtype t default =>
      obtain ⟨u, hu, rfl⟩ := bind_pure_eq_ok_iff.mp h
      exact .newtype default hu
  · intro h
    cases h with
    | struct h => exact bind_pure_eq_ok_iff.mpr ⟨_, mapM_eq_ok_iff.mpr h, rfl⟩
    | union h => exact bind_pure_eq_ok_iff.mpr ⟨_, mapM_eq_ok_iff.mpr h, rfl⟩
    | enum h => exact bind_pure_eq_ok_iff.mpr ⟨_, mapM_eq_ok_iff.mpr h, rfl⟩
    | «alias» h => exact bind_pure_eq_ok_iff.mpr ⟨_, h, rfl⟩
    | newtype default h => exact bind_pure_eq_ok_iff.mpr ⟨_, h, rfl⟩

/-- The members of a resolved declaration are its members, resolved. -/
theorem members_of_resolveDecl (h : resolveDecl table m id d = .ok x) :
    List.Forall₂ (fun sm y => resolveMember (declScope table m d) sm = .ok y)
      d.members x.members := by
  obtain ⟨-, body, hb, rfl⟩ := resolveDecl_eq_ok_iff.mp h
  have hr := resolveBody_eq_ok_iff.mp hb
  unfold Source.Decl.members Decl.members
  generalize d.body = b at hr
  cases hr with
  | struct hms => exact hms
  | union hms => exact hms
  | enum hms => exact hms
  | «alias» _ => exact .nil
  | newtype _ _ => exact .nil

/-- The types of a resolved declaration are the written ones, looked up where they stand. -/
theorem types_of_resolveDecl (h : resolveDecl table m id d = .ok x) :
    List.Forall₂ (fun t u => ∃ location,
      Scope.resolveType ⟨table, m, d.typeParams, location⟩ t = .ok u) d.types x.types := by
  obtain ⟨-, body, hb, rfl⟩ := resolveDecl_eq_ok_iff.mp h
  have hmembers (ms : List Source.Member) (ys : List Member)
      (hms : List.Forall₂ (fun sm y => resolveMember (declScope table m d) sm = .ok y) ms ys) :
      List.Forall₂ (fun t u => ∃ location,
        Scope.resolveType ⟨table, m, d.typeParams, location⟩ t = .ok u)
        (ms.map Source.Member.type) (ys.map Member.type) := by
    refine List.forall₂_map_left_iff.mpr (List.forall₂_map_right_iff.mpr (hms.imp ?_))
    intro sm y hy
    obtain ⟨type, htype, rfl⟩ := resolveMember_eq_ok_iff.mp hy
    exact ⟨_, htype⟩
  have hr := resolveBody_eq_ok_iff.mp hb
  unfold Source.Decl.types Decl.types Decl.members
  generalize d.body = b at hr
  cases hr with
  | struct hms => exact hmembers _ _ hms
  | union hms => exact hmembers _ _ hms
  | enum hms => exact hmembers _ _ hms
  | «alias» ht => exact .cons ⟨_, ht⟩ .nil
  | newtype _ ht => exact .cons ⟨_, ht⟩ .nil

theorem map_serializedName_of_resolveDecl (h : resolveDecl table m id d = .ok x) :
    x.members.map Member.serializedName = d.members.map Source.Member.serializedName := by
  have hms := members_of_resolveDecl h
  generalize x.members = ys at hms
  generalize d.members = ms at hms
  induction hms with
  | nil => rfl
  | cons hy _ ih =>
    obtain ⟨type, -, rfl⟩ := resolveMember_eq_ok_iff.mp hy
    rw [List.map_cons, List.map_cons, ih]

/-! ### Distinct names -/

theorem repeatedMember_eq_none_iff {names serialized : List String} {ms : List Source.Member} :
    repeatedMember names serialized ms = none ↔
      ((ms.map (·.name)).Nodup ∧ ∀ m ∈ ms, m.name ∉ names) ∧
        (ms.map (·.serializedName)).Nodup ∧ ∀ m ∈ ms, m.serializedName ∉ serialized := by
  induction ms generalizing names serialized with
  | nil => simp [repeatedMember]
  | cons m ms ih =>
    rw [repeatedMember]
    simp only [List.map_cons, List.nodup_cons, List.forall_mem_cons]
    by_cases hn : m.name ∈ names
    · rw [if_pos hn]
      simp [hn]
    · by_cases hs : m.serializedName ∈ serialized
      · rw [if_neg hn, if_pos hs]
        simp [hs]
      · rw [if_neg hn, if_neg hs, ih]
        simp only [List.mem_cons, List.mem_map]
        grind

theorem nodup_of_checkNames (h : checkNames m.name d = .ok ()) :
    (d.members.map (·.name)).Nodup ∧ (d.members.map (·.serializedName)).Nodup := by
  unfold checkNames at h
  split at h
  · cases h
  · next hr =>
    obtain ⟨⟨hn, -⟩, hs, -⟩ := repeatedMember_eq_none_iff.mp hr
    exact ⟨hn, hs⟩

end Resolve

theorem ModuleSet.decl_of_getElem? {set : ModuleSet} {id : DeclId} {x : Decl}
    (hx : set.decls[id]? = some x) : set.decl id = x := by
  rw [decl, hx, Option.getD_some]

namespace Resolved

variable {modules : List Source.Module} {set : ModuleSet}

/-- Every declaration is that of its place. -/
theorem place_of_decls (h : Resolved modules set) {id : DeclId} {x : Decl}
    (hx : set.decls[id]? = some x) :
    ∃ m d, (Resolve.places modules)[id]? = some (m, d) ∧
      Resolve.resolveDecl set.names m id d = .ok x := by
  obtain ⟨hlt, rfl⟩ := List.getElem?_eq_some_iff.mp hx
  have hlt' : id < (Resolve.places modules).zipIdx.length := by
    rwa [h.decls_eq.length_eq]
  have hr := h.decls_eq.get hlt' hlt
  rw [List.length_zipIdx] at hlt'
  refine ⟨_, _, List.getElem?_eq_getElem hlt', ?_⟩
  simpa using hr

/-- The place of a declaration is kept in it. -/
theorem id_eq (h : Resolved modules set) {id : DeclId} {x : Decl}
    (hx : set.decls[id]? = some x) : x.id = id := by
  obtain ⟨m, d, -, hr⟩ := h.place_of_decls hx
  obtain ⟨-, body, -, rfl⟩ := Resolve.resolveDecl_eq_ok_iff.mp hr
  rfl

/-- No two members of a declaration have the same serialized name. -/
theorem distinctNames (h : Resolved modules set) : set.DistinctNames := by
  intro id
  cases hx : set.decls[id]? with
  | none => simp [ModuleSet.decl, hx, Decl.members, default]
  | some x =>
    obtain ⟨m, d, -, hr⟩ := h.place_of_decls hx
    obtain ⟨hc, -⟩ := Resolve.resolveDecl_eq_ok_iff.mp hr
    rw [ModuleSet.decl_of_getElem? hx, Resolve.map_serializedName_of_resolveDecl hr]
    exact (Resolve.nodup_of_checkNames hc).2

end Resolved

end Adl
