import Adl.Proofs.Types.Expansion

/-!
# Renaming — the same declarations at other places

A declaration gets a place in its module set, and other modules of the set change which one.  A
`Renaming` of `set` to `set'` gives the new places of some declarations of `set`, which mention
each other only; it says that they are the same in `set'` but for the places in their types.  All
that is done with types respects renamings: substitution, bodies with arguments, and the expansion
of aliases.
-/

namespace Adl

/-! ### Types -/

/-- A head with another place for the declaration. -/
def TypeRef.rename (ρ : DeclId → DeclId) : TypeRef → TypeRef
  | .primitive p => .primitive p
  | .typeParam name => .typeParam name
  | .decl id => .decl (ρ id)

theorem TypeRef.rename_eq_typeParam_iff {ρ : DeclId → DeclId} {head : TypeRef} {name : String} :
    head.rename ρ = .typeParam name ↔ head = .typeParam name := by
  cases head <;> simp [TypeRef.rename]

theorem TypeRef.rename_eq_primitive_iff {ρ : DeclId → DeclId} {head : TypeRef} {p : Primitive} :
    head.rename ρ = .primitive p ↔ head = .primitive p := by
  cases head <;> simp [TypeRef.rename]

namespace TypeExpr

mutual

/-- A type with other places for the declarations. -/
def rename (ρ : DeclId → DeclId) : TypeExpr → TypeExpr
  | .mk head args => .mk (head.rename ρ) (renameAll ρ args)

/-- The same for a list of types. -/
def renameAll (ρ : DeclId → DeclId) : List TypeExpr → List TypeExpr
  | [] => []
  | t :: ts => rename ρ t :: renameAll ρ ts

end

/-- All declarations in a type are among the given ones. -/
inductive Within (K : DeclId → Prop) : TypeExpr → Prop
  | mk {head : TypeRef} {args : List TypeExpr} (hhead : ∀ id, head = .decl id → K id)
      (hargs : ∀ t ∈ args, Within K t) : Within K (.mk head args)

variable {ρ : DeclId → DeclId} {K : DeclId → Prop} {t : TypeExpr}

theorem renameAll_eq_map (ts : List TypeExpr) : renameAll ρ ts = ts.map (rename ρ) := by
  induction ts with
  | nil => rfl
  | cons t ts ih => rw [renameAll, ih, List.map_cons]

@[simp] theorem rename_mk (head : TypeRef) (args : List TypeExpr) :
    (mk head args).rename ρ = .mk (head.rename ρ) (args.map (rename ρ)) := by
  rw [rename, renameAll_eq_map]

theorem head_rename : (t.rename ρ).head = t.head.rename ρ := by
  cases t
  rw [rename_mk]
  rfl

theorem Within.args {head : TypeRef} {args : List TypeExpr}
    (h : (TypeExpr.mk head args).Within K) : ∀ t ∈ args, t.Within K := by
  cases h with
  | mk _ hargs => exact hargs

theorem Within.decl {id : DeclId} {args : List TypeExpr}
    (h : (TypeExpr.mk (.decl id) args).Within K) : K id := by
  cases h with
  | mk hhead _ => exact hhead id rfl

theorem mentions_rename_iff {p : String} : (t.rename ρ).Mentions p ↔ t.Mentions p := by
  induction t with
  | mk head args ih =>
    rw [rename_mk]
    constructor
    · intro h
      generalize hu : mk (head.rename ρ) (args.map (rename ρ)) = u at h
      cases h with
      | head =>
        obtain ⟨hh, -⟩ := mk.inj hu
        rw [TypeRef.rename_eq_typeParam_iff.mp hh]
        exact .head args
      | arg ht h =>
        obtain ⟨-, rfl⟩ := mk.inj hu
        obtain ⟨t, hmem, rfl⟩ := List.mem_map.mp ht
        exact .arg hmem ((ih t hmem).mp h)
    · intro h
      cases h with
      | head => exact .head _
      | arg ht h => exact .arg (List.mem_map_of_mem ht) ((ih _ ht).mpr h)

/-- Renaming after a substitution is renaming the type and the types that are put in. -/
theorem rename_subst (σ : Bindings) :
    (t.subst σ).rename ρ = (t.rename ρ).subst (σ.map fun b => (b.1, b.2.rename ρ)) := by
  induction t with
  | mk head args ih =>
    have hmap : (args.map (subst σ)).map (rename ρ) =
        (args.map (rename ρ)).map (subst (σ.map fun b => (b.1, b.2.rename ρ))) := by
      rw [List.map_map, List.map_map]
      exact List.map_congr_left ih
    cases head with
    | primitive p => simp only [subst_primitive, rename_mk, TypeRef.rename, hmap]
    | decl id => simp only [subst_decl, rename_mk, TypeRef.rename, hmap]
    | typeParam name =>
      simp only [subst_typeParam, rename_mk, TypeRef.rename, lookup_map_snd]
      cases σ.lookup name with
      | none => simp [TypeRef.rename]
      | some u => simp

theorem Within.subst {σ : Bindings} (h : t.Within K) (hσ : ∀ b ∈ σ, b.2.Within K) :
    (t.subst σ).Within K := by
  induction h with
  | @mk head args hhead hargs ih =>
    have hmap : ∀ u ∈ args.map (TypeExpr.subst σ), u.Within K := List.forall_mem_map.mpr ih
    by_cases hh : ∀ p, head ≠ .typeParam p
    · rw [subst_mk_of_ne σ hh]
      exact .mk hhead hmap
    · obtain ⟨name, rfl⟩ := not_forall_not.mp hh
      rw [subst_typeParam]
      cases hl : σ.lookup name with
      | none => exact .mk hhead hargs
      | some u => exact hσ (name, u) (mem_of_lookup hl)

end TypeExpr

/-! ### Declarations -/

/-- A member with other places in its type. -/
def Member.rename (ρ : DeclId → DeclId) (m : Member) : Member :=
  { m with type := m.type.rename ρ }

/-- A body with other places in its types. -/
def Body.rename (ρ : DeclId → DeclId) : Body → Body
  | .struct ms => .struct (ms.map (Member.rename ρ))
  | .union ms => .union (ms.map (Member.rename ρ))
  | .enum ms => .enum (ms.map (Member.rename ρ))
  | .alias t => .alias (t.rename ρ)
  | .newtype t default => .newtype (t.rename ρ) default

/-- A declaration with other places for itself and in its types. -/
def Decl.rename (ρ : DeclId → DeclId) (d : Decl) : Decl :=
  { d with id := ρ d.id, body := d.body.rename ρ }

variable {ρ : DeclId → DeclId}

theorem Decl.members_rename (d : Decl) : (d.rename ρ).members = d.members.map (Member.rename ρ) := by
  rw [members, members, rename]
  cases d.body <;> rfl

theorem Decl.type_mem_types {d : Decl} {m : Member} (h : m ∈ d.members) : m.type ∈ d.types := by
  rw [types, members] at *
  cases hb : d.body with
  | struct ms => exact List.mem_map_of_mem (by simpa only [hb] using h)
  | union ms => exact List.mem_map_of_mem (by simpa only [hb] using h)
  | enum ms => exact List.mem_map_of_mem (by simpa only [hb] using h)
  | «alias» t => simp [hb] at h
  | newtype t default => simp [hb] at h

theorem Decl.types_rename (d : Decl) : (d.rename ρ).types = d.types.map (TypeExpr.rename ρ) := by
  have hms : ∀ ms : List Member, (ms.map (Member.rename ρ)).map Member.type =
      (ms.map Member.type).map (TypeExpr.rename ρ) := by
    intro ms
    rw [List.map_map, List.map_map]
    rfl
  rw [types, types, members_rename, members, rename]
  cases d.body with
  | struct ms => exact hms ms
  | union ms => exact hms ms
  | enum ms => exact hms ms
  | «alias» t => rfl
  | newtype t default => rfl

theorem Decl.isAlias_rename (d : Decl) : (d.rename ρ).isAlias = d.isAlias := by
  rw [isAlias, isAlias, rename]
  cases d.body <;> rfl

theorem Body.subst_rename (σ : Bindings) (b : Body) :
    (b.rename ρ).subst (σ.map fun e => (e.1, e.2.rename ρ)) =
      (b.subst σ).map (TypeExpr.rename ρ) := by
  have hms : ∀ ms : List Member,
      (ms.map (Member.rename ρ)).map
          (fun m => m.type.subst (σ.map fun e => (e.1, e.2.rename ρ))) =
        (ms.map fun m => m.type.subst σ).map (TypeExpr.rename ρ) := by
    intro ms
    rw [List.map_map, List.map_map]
    exact List.map_congr_left fun m _ => (TypeExpr.rename_subst σ).symm
  cases b with
  | struct ms => exact congrArg Members.fields (hms ms)
  | union ms => exact congrArg Members.fields (hms ms)
  | enum ms => exact congrArg Members.fields (hms ms)
  | «alias» t => exact congrArg Members.target (TypeExpr.rename_subst σ).symm
  | newtype t default => exact congrArg Members.target (TypeExpr.rename_subst σ).symm

namespace ModuleSet

/-- New places, in `set'`, for some declarations of `set`, which mention no others. -/
structure Renaming (set set' : ModuleSet) where
  /-- The new place of a declaration. -/
  place : DeclId → DeclId
  /-- The declarations that have a new place. -/
  Kept : DeclId → Prop
  injective : ∀ i j, Kept i → Kept j → place i = place j → i = j
  id_eq : ∀ i, Kept i → (set.decl i).id = i
  decl_eq : ∀ i, Kept i → set'.decl (place i) = (set.decl i).rename place
  closed : ∀ i, Kept i → ∀ t ∈ (set.decl i).types, t.Within Kept

namespace Renaming

variable {set set' : ModuleSet} (r : set.Renaming set') {id : DeclId} {args : List TypeExpr}
  {t u : TypeExpr} {b : Members}

theorem typeParams_eq (h : r.Kept id) :
    (set'.decl (r.place id)).typeParams = (set.decl id).typeParams := by
  rw [r.decl_eq id h]
  rfl

theorem scopedName_eq (h : r.Kept id) : set'.scopedName (r.place id) = set.scopedName id := by
  rw [scopedName, scopedName, r.decl_eq id h]
  rfl

theorem body_eq (h : r.Kept id) :
    (set'.decl (r.place id)).body = (set.decl id).body.rename r.place := by
  rw [r.decl_eq id h]
  rfl

theorem members_eq (h : r.Kept id) :
    (set'.decl (r.place id)).members = (set.decl id).members.map (Member.rename r.place) := by
  rw [r.decl_eq id h, Decl.members_rename]

theorem within_of_mem_members (h : r.Kept id) {m : Member} (hm : m ∈ (set.decl id).members) :
    m.type.Within r.Kept :=
  r.closed id h m.type (Decl.type_mem_types hm)

theorem member_eq (h : r.Kept id) (index : Nat) :
    (set'.decl (r.place id)).member index = ((set.decl id).member index).rename r.place := by
  rw [Decl.member, Decl.member, r.members_eq h, List.getElem?_map]
  cases (set.decl id).members[index]? <;> rfl

theorem within_member (h : r.Kept id) (index : Nat) :
    ((set.decl id).member index).type.Within r.Kept := by
  rw [Decl.member]
  cases hm : (set.decl id).members[index]? with
  | none => exact .mk (fun _ h => nomatch h) fun _ h => nomatch h
  | some m => exact r.within_of_mem_members h (List.mem_of_getElem? hm)

theorem isAlias_eq (h : r.Kept id) : set'.isAlias (r.place id) = set.isAlias id := by
  rw [isAlias, isAlias, r.decl_eq id h, Decl.isAlias_rename]

theorem arity_eq {head : TypeRef} (h : ∀ id, head = .decl id → r.Kept id) :
    set'.arity (head.rename r.place) = set.arity head := by
  cases head with
  | primitive p => rfl
  | typeParam name => rfl
  | decl id => exact congrArg List.length (r.typeParams_eq (h id rfl))

theorem saturated (ht : t.Within r.Kept) (h : set.Saturated t) :
    set'.Saturated (t.rename r.place) := by
  induction h with
  | @mk head args hlen _ ih =>
    cases ht with
    | mk hhead hargs =>
      rw [TypeExpr.rename_mk]
      refine .mk (by rw [r.arity_eq hhead, hlen, List.length_map]) ?_
      exact List.forall_mem_map.mpr fun t ht => ih t ht (hargs t ht)

theorem proper (hk : r.Kept id) (h : set.Proper (set.decl id)) :
    set'.Proper (set'.decl (r.place id)) := by
  rw [Proper, r.decl_eq id hk, Decl.types_rename]
  refine List.forall_mem_map.mpr fun t ht => ⟨r.saturated (r.closed id hk t ht) (h t ht).1, ?_⟩
  intro p hp
  exact (h t ht).2 p (TypeExpr.mentions_rename_iff.mp hp)

/-- The body of a declaration with arguments is the same at the new place. -/
theorem bodyAt (hk : r.Kept id) (h : set.BodyAt id args b) :
    set'.BodyAt (r.place id) (args.map (TypeExpr.rename r.place))
      (b.map (TypeExpr.rename r.place)) := by
  obtain ⟨hlen, hproper, rfl⟩ := h
  refine ⟨by rw [r.typeParams_eq hk, hlen, List.length_map], r.proper hk hproper, ?_⟩
  rw [r.typeParams_eq hk, r.decl_eq id hk, List.zip_map_right]
  exact Body.subst_rename _ _

/-- The types in a body with arguments mention only declarations that have new places. -/
theorem within_of_bodyAt (hk : r.Kept id) (hargs : ∀ t ∈ args, t.Within r.Kept)
    (h : set.BodyAt id args b) :
    (∀ types, b = .fields types → ∀ t ∈ types, t.Within r.Kept) ∧
      ∀ t, b = .target t → t.Within r.Kept := by
  have hσ : ∀ e ∈ (set.decl id).typeParams.zip args, e.2.Within r.Kept :=
    fun e he => hargs e.2 (List.of_mem_zip he).2
  have hsubst : ∀ t ∈ (set.decl id).types,
      (t.subst ((set.decl id).typeParams.zip args)).Within r.Kept :=
    fun t ht => (r.closed id hk t ht).subst hσ
  rw [← h.body_eq]
  rcases (set.decl id).subst_body with hb | ⟨t, ht, hb⟩
  · rw [hb]
    constructor
    · rintro _ ⟨⟩
      exact List.forall_mem_map.mpr hsubst
    · rintro _ ⟨⟩
  · rw [hb]
    constructor
    · rintro _ ⟨⟩
    · rintro _ ⟨⟩
      exact hsubst t (by simp [ht])

/-! ### Expansion -/

theorem aliasHead_iff (ht : t.Within r.Kept) :
    set'.AliasHead (t.rename r.place) ↔ set.AliasHead t := by
  obtain ⟨head, args⟩ := t
  rw [AliasHead, AliasHead, TypeExpr.head_rename]
  cases head with
  | primitive p => simp [TypeExpr.head, TypeRef.rename]
  | typeParam name => simp [TypeExpr.head, TypeRef.rename]
  | decl id => simp [TypeExpr.head, TypeRef.rename, r.isAlias_eq ht.decl]

theorem aliasStep (ht : t.Within r.Kept) (h : set.AliasStep t u) :
    set'.AliasStep (t.rename r.place) (u.rename r.place) ∧ u.Within r.Kept := by
  obtain ⟨ha, hb⟩ := h
  have hk := ht.decl
  rw [TypeExpr.rename_mk]
  refine ⟨⟨by rwa [r.isAlias_eq hk], r.bodyAt hk hb⟩, ?_⟩
  exact (r.within_of_bodyAt hk ht.args hb).2 u rfl

theorem aliasSteps {n : Nat} (ht : t.Within r.Kept) (h : set.AliasSteps n t u) :
    set'.AliasSteps n (t.rename r.place) (u.rename r.place) ∧ u.Within r.Kept := by
  induction h with
  | refl t => exact ⟨.refl _, ht⟩
  | step first _ ih =>
    obtain ⟨hfirst, hu⟩ := r.aliasStep ht first
    obtain ⟨hrest, hv⟩ := ih hu
    exact ⟨.step hfirst hrest, hv⟩

/-- The expansion of a renamed type is the renamed expansion. -/
theorem expands (ht : t.Within r.Kept) (h : set.Expands t u) :
    set'.Expands (t.rename r.place) (u.rename r.place) ∧ u.Within r.Kept := by
  obtain ⟨⟨n, hn, hsteps⟩, hna⟩ := h
  obtain ⟨hsteps', hu⟩ := r.aliasSteps ht hsteps
  refine ⟨⟨⟨n, hn, hsteps'⟩, ?_⟩, hu⟩
  rwa [r.aliasHead_iff hu]

theorem expands_mk {head : TypeRef} (ht : t.Within r.Kept) (h : set.Expands t (.mk head args)) :
    set'.Expands (t.rename r.place)
        (.mk (head.rename r.place) (args.map (TypeExpr.rename r.place))) ∧
      (TypeExpr.mk head args).Within r.Kept := by
  have h' := r.expands ht h
  rwa [TypeExpr.rename_mk] at h'

end Renaming

end ModuleSet

end Adl
