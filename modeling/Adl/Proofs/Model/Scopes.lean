import Adl.Proofs.Model.Resolved
import Adl.Proofs.Source.Dependencies
import Adl.Proofs.Types.Renaming

/-!
# Scopes — names in two tables

A name is looked up in the module that it is declared in: its own module, an imported one, or the
one that qualifies it.  So two tables that agree on the modules that a module depends on, but for
the places of declarations, give the same declarations to all names in it
(`TableRenaming.resolveDecl`).
-/

namespace Adl.Resolve

/-- New places, in `table'`, for the declarations of some modules in `table`. -/
structure TableRenaming (Known : String → Prop) (table table' : NameTable) where
  /-- The new place of a declaration. -/
  place : DeclId → DeclId
  /-- The declarations that have a new place. -/
  Kept : DeclId → Prop
  injective : ∀ i j, Kept i → Kept j → place i = place j → i = j
  lookup_eq : ∀ n : ScopedName, Known n.module → table'.lookup n = (table.lookup n).map place
  kept_of_lookup : ∀ (n : ScopedName) i, Known n.module → table.lookup n = some i → Kept i

/-- A module and all that it depends on are among the given modules. -/
structure Settled (Known : String → Prop) (m : Source.Module) : Prop where
  name : Known m.name
  dependencies : ∀ n ∈ m.dependencies, Known n

namespace Settled

variable {Known : String → Prop} {m : Source.Module}

theorem import_module (h : Settled Known m) {i : Source.Import} (hi : i ∈ m.imports) :
    Known i.module :=
  h.dependencies i.module (Source.Module.mem_dependencies_iff.mpr (.inl ⟨i, hi, rfl⟩))

theorem qualifier (h : Settled Known m) {d : Source.Decl} (hd : d ∈ m.decls)
    {t : Source.TypeExpr} (ht : t ∈ d.types) {q : String} (hq : q ∈ t.qualifiers) : Known q :=
  h.dependencies q (Source.Module.mem_dependencies_iff.mpr (.inr ⟨d, hd, t, ht, hq⟩))

end Settled

namespace TableRenaming

variable {Known : String → Prop} {table table' : NameTable} (r : TableRenaming Known table table')
  {m : Source.Module} {ps : List String} {location : Location} {name : String}

/-! ### Names -/

/-- A candidate for a name with the new place of its declaration. -/
def candidate (c : DeclId × ScopedName) : DeclId × ScopedName := (r.place c.1, c.2)

/-- One more import adds the same candidate. -/
theorem addImported_eq (m : Source.Module) (ps : List String) (location : Location)
    (name : String) {found : List (DeclId × ScopedName)} {i : Source.Import}
    (hi : Known i.module) (hfound : ∀ c ∈ found, r.Kept c.1) :
    Scope.addImported ⟨table', m, ps, location⟩ name (found.map r.candidate) i =
        (Scope.addImported ⟨table, m, ps, location⟩ name found i).map r.candidate ∧
      ∀ c ∈ Scope.addImported ⟨table, m, ps, location⟩ name found i, r.Kept c.1 := by
  unfold Scope.addImported
  by_cases hs : Scope.supplies i name
  · rw [if_pos hs, if_pos hs, Scope.declOf, Scope.declOf, r.lookup_eq ⟨i.module, name⟩ hi]
    cases hl : table.lookup ⟨i.module, name⟩ with
    | none => exact ⟨rfl, hfound⟩
    | some id =>
      have hk := r.kept_of_lookup _ id hi hl
      -- Places are compared, and the new ones differ if the old ones do.
      have hany : (found.map r.candidate).any (·.1 = r.place id) = found.any (·.1 = id) := by
        rw [List.any_map, Bool.eq_iff_iff, List.any_eq_true, List.any_eq_true]
        refine exists_congr fun c => and_congr_right fun hc => ?_
        have hiff : r.place c.1 = r.place id ↔ c.1 = id :=
          ⟨r.injective _ _ (hfound c hc) hk, congrArg r.place⟩
        simp [candidate, hiff]
      simp only [Option.map_some, hany]
      by_cases hin : found.any (·.1 = id)
      · rw [if_pos hin, if_pos hin]
        exact ⟨rfl, hfound⟩
      · rw [if_neg hin, if_neg hin, List.map_append]
        refine ⟨rfl, fun c hc => ?_⟩
        rcases List.mem_append.mp hc with hc | hc
        · exact hfound c hc
        · rw [List.mem_singleton.mp hc]
          exact hk
  · rw [if_neg hs, if_neg hs]
    exact ⟨rfl, hfound⟩

/-- The imports supply the same candidates. -/
theorem imported_eq (hm : Settled Known m) (ps : List String) (location : Location)
    (name : String) :
    Scope.imported ⟨table', m, ps, location⟩ name =
        (Scope.imported ⟨table, m, ps, location⟩ name).map r.candidate ∧
      ∀ c ∈ Scope.imported ⟨table, m, ps, location⟩ name, r.Kept c.1 := by
  have hfold : ∀ (is : List Source.Import) (found : List (DeclId × ScopedName)),
      (∀ i ∈ is, Known i.module) → (∀ c ∈ found, r.Kept c.1) →
      is.foldl (Scope.addImported ⟨table', m, ps, location⟩ name) (found.map r.candidate) =
          (is.foldl (Scope.addImported ⟨table, m, ps, location⟩ name) found).map r.candidate ∧
        ∀ c ∈ is.foldl (Scope.addImported ⟨table, m, ps, location⟩ name) found, r.Kept c.1 := by
    intro is
    induction is with
    | nil => exact fun found _ hfound => ⟨rfl, hfound⟩
    | cons i is ih =>
      intro found his hfound
      obtain ⟨hi, his⟩ := List.forall_mem_cons.mp his
      obtain ⟨heq, hkept⟩ := r.addImported_eq m ps location name hi hfound
      rw [List.foldl_cons, List.foldl_cons, heq]
      exact ih _ his hkept
  exact hfold m.imports [] (fun i hi => hm.import_module hi) (fun _ h => nomatch h)

/-- A name stands for the same declaration. -/
theorem resolveName_eq {written : String} {head : TypeRef} (hm : Settled Known m)
    (hq : ∀ q, (splitName written).1 = some q → Known q)
    (h : Scope.resolveName ⟨table, m, ps, location⟩ written = .ok head) :
    Scope.resolveName ⟨table', m, ps, location⟩ written = .ok (head.rename r.place) ∧
      ∀ id, head = .decl id → r.Kept id := by
  unfold Scope.resolveName at h ⊢
  generalize splitName written = parts at h hq ⊢
  obtain ⟨qualifier, name⟩ := parts
  cases qualifier with
  | some q =>
    have hq' := hq q rfl
    simp only [Scope.declOf, r.lookup_eq ⟨q, name⟩ hq'] at h ⊢
    cases hl : table.lookup ⟨q, name⟩ with
    | none =>
      rw [hl] at h
      cases h
    | some id =>
      rw [hl] at h
      cases h
      refine ⟨rfl, ?_⟩
      rintro _ ⟨⟩
      exact r.kept_of_lookup _ id hq' hl
  | none =>
    by_cases hp : name ∈ ps
    · simp only [hp, if_true] at h ⊢
      cases h
      exact ⟨rfl, fun _ h => nomatch h⟩
    · obtain ⟨himported, hkept⟩ := r.imported_eq hm ps location name
      simp only [hp, if_false, Scope.declOf, r.lookup_eq ⟨m.name, name⟩ hm.name, himported]
        at h ⊢
      cases hprim : Primitive.ofName? name with
      | some p =>
        rw [hprim] at h
        cases h
        exact ⟨rfl, fun _ h => nomatch h⟩
      | none =>
        rw [hprim] at h
        cases hl : table.lookup ⟨m.name, name⟩ with
        | some id =>
          rw [hl] at h
          cases h
          refine ⟨rfl, ?_⟩
          rintro _ ⟨⟩
          exact r.kept_of_lookup _ id hm.name hl
        | none =>
          rw [hl] at h
          generalize Scope.imported ⟨table, m, ps, location⟩ name = candidates at h hkept ⊢
          cases candidates with
          | nil => cases h
          | cons c rest =>
            cases rest with
            | nil =>
              cases h
              refine ⟨rfl, ?_⟩
              rintro _ ⟨⟩
              exact hkept c List.mem_cons_self
            | cons c' rest => cases h

include r in
/-- An annotation as written stands for the same scoped name. -/
theorem annotationKey_eq {written : String} (hm : Settled Known m) :
    Scope.annotationKey ⟨table', m, ps, location⟩ written =
      Scope.annotationKey ⟨table, m, ps, location⟩ written := by
  unfold Scope.annotationKey
  generalize splitName written = parts
  obtain ⟨qualifier, name⟩ := parts
  cases qualifier with
  | some q => rfl
  | none =>
    obtain ⟨himported, -⟩ := r.imported_eq hm ps location name
    simp only [Scope.declOf, r.lookup_eq ⟨m.name, name⟩ hm.name, himported]
    cases table.lookup ⟨m.name, name⟩ with
    | some id => rfl
    | none =>
      generalize Scope.imported ⟨table, m, ps, location⟩ name = candidates
      match candidates with
      | [] => rfl
      | [_] => rfl
      | _ :: _ :: _ => rfl

include r in
theorem resolveAnnotations_eq (hm : Settled Known m) (written : List Source.AnnotationEntry) :
    Scope.resolveAnnotations ⟨table', m, ps, location⟩ written =
      Scope.resolveAnnotations ⟨table, m, ps, location⟩ written := by
  unfold Scope.resolveAnnotations
  simp only [r.annotationKey_eq hm]

/-! ### Types and declarations -/

/-- Written types stand for the same types, if each of them does. -/
theorem resolveTypes_eq {scope scope' : Scope} {ts : List Source.TypeExpr} {us : List TypeExpr}
    (hts : ∀ t ∈ ts, ∀ u, scope.resolveType t = .ok u →
      scope'.resolveType t = .ok (u.rename r.place) ∧ u.Within r.Kept)
    (h : List.Forall₂ (fun t u => scope.resolveType t = .ok u) ts us) :
    List.Forall₂ (fun t u => scope'.resolveType t = .ok u) ts
        (us.map (TypeExpr.rename r.place)) ∧
      ∀ u ∈ us, u.Within r.Kept := by
  induction h with
  | nil => exact ⟨.nil, fun _ h => nomatch h⟩
  | cons hu _ ih =>
    obtain ⟨ht, hts⟩ := List.forall_mem_cons.mp hts
    obtain ⟨hu', hw⟩ := ht _ hu
    obtain ⟨hus', hws⟩ := ih hts
    exact ⟨.cons hu' hus', List.forall_mem_cons.mpr ⟨hw, hws⟩⟩

/-- A written type stands for the same type. -/
theorem resolveType_eq {t : Source.TypeExpr} {u : TypeExpr} (hm : Settled Known m)
    (hq : ∀ q ∈ t.qualifiers, Known q)
    (h : Scope.resolveType ⟨table, m, ps, location⟩ t = .ok u) :
    Scope.resolveType ⟨table', m, ps, location⟩ t = .ok (u.rename r.place) ∧
      u.Within r.Kept := by
  induction t generalizing u with
  | mk name args position ih =>
    have hqname : ∀ q, (splitName name).1 = some q → Known q :=
      fun q h => hq q (Source.TypeExpr.mem_qualifiers_iff.mpr (.inl h))
    have hqargs : ∀ t ∈ args, ∀ q ∈ t.qualifiers, Known q :=
      fun t ht q h => hq q (Source.TypeExpr.mem_qualifiers_iff.mpr (.inr ⟨t, ht, h⟩))
    obtain ⟨head, us, hhead, hus, rfl⟩ := resolveType_eq_ok_iff.mp h
    obtain ⟨hhead', hk⟩ := r.resolveName_eq hm hqname hhead
    obtain ⟨hus', hws⟩ := r.resolveTypes_eq (fun t ht u => ih t ht (hqargs t ht)) hus
    rw [TypeExpr.rename_mk]
    exact ⟨resolveType_eq_ok_iff.mpr ⟨_, _, hhead', hus', rfl⟩, .mk hk hws⟩

/-- A written member becomes the same member. -/
theorem resolveMember_eq {sm : Source.Member} {x : Member} (hm : Settled Known m)
    (hq : ∀ q ∈ sm.type.qualifiers, Known q)
    (h : resolveMember ⟨table, m, ps, location⟩ sm = .ok x) :
    resolveMember ⟨table', m, ps, location⟩ sm = .ok (x.rename r.place) ∧
      x.type.Within r.Kept := by
  obtain ⟨type, htype, rfl⟩ := resolveMember_eq_ok_iff.mp h
  obtain ⟨htype', hw⟩ := r.resolveType_eq hm hq htype
  refine ⟨resolveMember_eq_ok_iff.mpr ⟨type.rename r.place, htype', ?_⟩, hw⟩
  rw [memberScope, memberScope, r.resolveAnnotations_eq hm]
  rfl

theorem resolveMembers_eq {ms : List Source.Member} {xs : List Member} (hm : Settled Known m)
    (hq : ∀ sm ∈ ms, ∀ q ∈ sm.type.qualifiers, Known q)
    (h : List.Forall₂ (fun sm x => resolveMember ⟨table, m, ps, location⟩ sm = .ok x) ms xs) :
    List.Forall₂ (fun sm x => resolveMember ⟨table', m, ps, location⟩ sm = .ok x) ms
        (xs.map (Member.rename r.place)) ∧
      ∀ x ∈ xs, x.type.Within r.Kept := by
  induction h with
  | nil => exact ⟨.nil, fun _ h => nomatch h⟩
  | cons hx _ ih =>
    obtain ⟨hqm, hqs⟩ := List.forall_mem_cons.mp hq
    obtain ⟨hx', hw⟩ := r.resolveMember_eq hm hqm hx
    obtain ⟨hxs', hws⟩ := ih hqs
    exact ⟨.cons hx' hxs', List.forall_mem_cons.mpr ⟨hw, hws⟩⟩

/-- A written body becomes the same body. -/
theorem resolvedBody_eq {d : Source.Decl} {x : Decl} (hm : Settled Known m) (hd : d ∈ m.decls)
    (h : ResolvedBody (declScope table m d) d.body x.body) :
    ResolvedBody (declScope table' m d) d.body (x.body.rename r.place) ∧
      ∀ t ∈ x.types, t.Within r.Kept := by
  have hq : ∀ t ∈ d.types, ∀ q ∈ t.qualifiers, Known q := fun t ht q => hm.qualifier hd ht
  rw [Source.Decl.types] at hq
  rw [Decl.types, Decl.members]
  generalize x.body = body at h ⊢
  generalize d.body = sbody at h hq ⊢
  cases h with
  | struct h =>
    obtain ⟨h', hw⟩ := r.resolveMembers_eq hm (List.forall_mem_map.mp hq) h
    exact ⟨.struct h', List.forall_mem_map.mpr hw⟩
  | union h =>
    obtain ⟨h', hw⟩ := r.resolveMembers_eq hm (List.forall_mem_map.mp hq) h
    exact ⟨.union h', List.forall_mem_map.mpr hw⟩
  | enum h =>
    obtain ⟨h', hw⟩ := r.resolveMembers_eq hm (List.forall_mem_map.mp hq) h
    exact ⟨.enum h', List.forall_mem_map.mpr hw⟩
  | «alias» h =>
    obtain ⟨h', hw⟩ := r.resolveType_eq hm (hq _ List.mem_cons_self) h
    exact ⟨.alias h', List.forall_mem_singleton.mpr hw⟩
  | newtype default h =>
    obtain ⟨h', hw⟩ := r.resolveType_eq hm (hq _ List.mem_cons_self) h
    exact ⟨.newtype default h', List.forall_mem_singleton.mpr hw⟩

/-- A written declaration becomes the same declaration, at its new place. -/
theorem resolveDecl_eq {id : DeclId} {d : Source.Decl} {x : Decl} (hm : Settled Known m)
    (hd : d ∈ m.decls) (h : Resolve.resolveDecl table m id d = .ok x) :
    Resolve.resolveDecl table' m (r.place id) d = .ok (x.rename r.place) ∧
      ∀ t ∈ x.types, t.Within r.Kept := by
  obtain ⟨hc, body, hbody, hx⟩ := resolveDecl_eq_ok_iff.mp h
  have hxbody : x.body = body := by rw [← hx]
  rw [← hxbody, resolveBody_eq_ok_iff] at hbody
  obtain ⟨hbody', hw⟩ := r.resolvedBody_eq hm hd hbody
  refine ⟨resolveDecl_eq_ok_iff.mpr ⟨hc, _, resolveBody_eq_ok_iff.mpr hbody', ?_⟩, hw⟩
  rw [← hx, declScope, declScope, r.resolveAnnotations_eq hm]
  rfl

end TableRenaming

end Adl.Resolve
