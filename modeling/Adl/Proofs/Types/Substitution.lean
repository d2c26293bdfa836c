import Adl.Proofs.Lookup
import Adl.Proofs.Success
import Adl.Types.Instantiate
import Mathlib.Data.List.Forall2

/-!
# Substitution — types in place of the parameters of a type

`instantiate` substitutes and checks at once.  Here the two are separated: `TypeExpr.subst` puts
types in place of parameters and never fails, `ModuleSet.Saturated` says that every part of a type
has as many arguments as its head takes, and `TypeExpr.Mentions` says which parameters occur.
`instantiate` succeeds exactly on saturated types all of whose parameters are bound, and then it is
the substitution (`instantiate_eq_ok_iff`); in particular the location only matters for errors.
In the same way `BodyAt` says what `ModuleSet.members` returns.
-/

namespace Adl

namespace TypeExpr

/-! ### Induction and mentioned parameters -/

/-- Induction on a type, where a property may be assumed of all arguments. -/
@[elab_as_elim, induction_eliminator]
theorem ind {motive : TypeExpr → Prop}
    (mk : ∀ head args, (∀ t ∈ args, motive t) → motive (.mk head args)) (t : TypeExpr) :
    motive t :=
  @TypeExpr.rec motive (fun ts => ∀ t ∈ ts, motive t) mk (fun _ h => nomatch h)
    (fun _ _ h hs _ ht => (List.mem_cons.mp ht).elim (fun e => e ▸ h) (hs _)) t

/-- A parameter occurs in a type. -/
inductive Mentions (p : String) : TypeExpr → Prop
  | head (args : List TypeExpr) : Mentions p (.mk (.typeParam p) args)
  | arg {head : TypeRef} {args : List TypeExpr} {t : TypeExpr} (ht : t ∈ args)
      (h : Mentions p t) : Mentions p (.mk head args)

@[simp] theorem mentions_param {p q : String} : Mentions p (param q) ↔ p = q := by
  constructor
  · intro h
    cases h with
    | head => rfl
    | arg ht _ => cases ht
  · rintro rfl
    exact .head []

/-! ### Substitution -/

mutual

/-- A type with the bound types in place of its parameters; other parameters stay. -/
def subst (σ : Bindings) : TypeExpr → TypeExpr
  | .mk head args =>
    match head with
    | .typeParam name => (σ.lookup name).getD (.mk (.typeParam name) args)
    | head => .mk head (substAll σ args)

/-- The same for a list of types. -/
def substAll (σ : Bindings) : List TypeExpr → List TypeExpr
  | [] => []
  | t :: ts => subst σ t :: substAll σ ts

end

variable (σ : Bindings)

@[simp] theorem substAll_eq_map (ts : List TypeExpr) : substAll σ ts = ts.map (subst σ) := by
  induction ts with
  | nil => rfl
  | cons t ts ih => rw [substAll, ih, List.map_cons]

@[simp] theorem subst_typeParam (name : String) (args : List TypeExpr) :
    subst σ (.mk (.typeParam name) args) = (σ.lookup name).getD (.mk (.typeParam name) args) := by
  rw [subst]

theorem subst_mk_of_ne {head : TypeRef} (hh : ∀ p, head ≠ .typeParam p) (args : List TypeExpr) :
    subst σ (.mk head args) = .mk head (args.map (subst σ)) := by
  rw [subst, substAll_eq_map]
  exact fun p h => hh p h

@[simp] theorem subst_primitive (p : Primitive) (args : List TypeExpr) :
    subst σ (.mk (.primitive p) args) = .mk (.primitive p) (args.map (subst σ)) :=
  subst_mk_of_ne σ (fun _ h => by cases h) args

@[simp] theorem subst_decl (id : DeclId) (args : List TypeExpr) :
    subst σ (.mk (.decl id) args) = .mk (.decl id) (args.map (subst σ)) :=
  subst_mk_of_ne σ (fun _ h => by cases h) args

theorem head_subst_of_primitive {t : TypeExpr} {p : Primitive} (h : t.head = .primitive p) :
    (t.subst σ).head = .primitive p := by
  obtain ⟨head, args⟩ := t
  obtain rfl : head = .primitive p := h
  rw [subst_primitive]
  rfl

/-- Only the types that are bound to the parameters of a type matter. -/
theorem subst_congr {σ τ : Bindings} {t : TypeExpr}
    (h : ∀ p, t.Mentions p → σ.lookup p = τ.lookup p) : t.subst σ = t.subst τ := by
  induction t with
  | mk head args ih =>
    by_cases hh : ∀ p, head ≠ .typeParam p
    · rw [subst_mk_of_ne σ hh, subst_mk_of_ne τ hh]
      congr 1
      exact List.map_congr_left fun t ht => ih t ht fun p hp => h p (.arg ht hp)
    · obtain ⟨name, rfl⟩ := not_forall_not.mp hh
      rw [subst_typeParam, subst_typeParam, h name (.head args)]

/-- Two substitutions in a row are one, if the first binds all parameters. -/
theorem subst_subst {σ τ : Bindings} {t : TypeExpr}
    (h : ∀ p, t.Mentions p → (σ.lookup p).isSome) :
    (t.subst σ).subst τ = t.subst (σ.map fun b => (b.1, b.2.subst τ)) := by
  induction t with
  | mk head args ih =>
    by_cases hh : ∀ p, head ≠ .typeParam p
    · have hmap : (args.map (subst σ)).map (subst τ) =
          args.map (subst (σ.map fun b => (b.1, b.2.subst τ))) := by
        rw [List.map_map]
        exact List.map_congr_left fun t ht => ih t ht fun p hp => h p (.arg ht hp)
      rw [subst_mk_of_ne _ hh, subst_mk_of_ne _ hh, subst_mk_of_ne _ hh, hmap]
    · obtain ⟨name, rfl⟩ := not_forall_not.mp hh
      obtain ⟨u, hu⟩ := Option.isSome_iff_exists.mp (h name (.head args))
      simp only [subst_typeParam, lookup_map_snd, hu, Option.getD_some, Option.map_some]

end TypeExpr

namespace ModuleSet

variable (set : ModuleSet)

/-! ### Instantiation -/

/-- Every part of a type has as many arguments as its head takes. -/
inductive Saturated : TypeExpr → Prop
  | mk {head : TypeRef} {args : List TypeExpr} (length_eq : set.arity head = args.length)
      (args_saturated : ∀ t ∈ args, Saturated t) : Saturated (.mk head args)

variable {set} {σ : Bindings} {location : Location}

theorem saturated_mk_iff {head : TypeRef} {args : List TypeExpr} :
    set.Saturated (.mk head args) ↔
      set.arity head = args.length ∧ ∀ t ∈ args, set.Saturated t :=
  ⟨fun ⟨h, hs⟩ => ⟨h, hs⟩, fun ⟨h, hs⟩ => ⟨h, hs⟩⟩

theorem checkArity_eq_ok_iff {head : TypeRef} {found : Nat} :
    set.checkArity head found location = .ok () ↔ set.arity head = found := by
  unfold checkArity
  split_ifs with h <;> simp [h]

/-- All parameters of a type are bound. -/
def Binds (σ : Bindings) (t : TypeExpr) : Prop := ∀ p, t.Mentions p → (σ.lookup p).isSome

theorem binds_mk_of_ne {head : TypeRef} {args : List TypeExpr}
    (hh : ∀ p, head ≠ .typeParam p) :
    Binds σ (.mk head args) ↔ ∀ t ∈ args, Binds σ t := by
  constructor
  · exact fun h t ht p hp => h p (.arg ht hp)
  · intro h p hp
    cases hp with
    | head => exact absurd rfl (hh p)
    | arg ht hp => exact h _ ht p hp

theorem binds_typeParam {name : String} :
    Binds σ (.mk (.typeParam name) []) ↔ (σ.lookup name).isSome := by
  constructor
  · exact fun h => h name (.head [])
  · intro h p hp
    cases hp with
    | head => exact h
    | arg ht _ => cases ht

/-- If instantiating each of several types is a check and a function, so is instantiating all. -/
theorem instantiateAll_eq_ok_iff_of {P : TypeExpr → Prop} {f : TypeExpr → TypeExpr}
    {ts : List TypeExpr}
    (h : ∀ t ∈ ts, ∀ u, set.instantiate σ location t = .ok u ↔ P t ∧ f t = u)
    {us : List TypeExpr} :
    set.instantiateAll σ location ts = .ok us ↔ (∀ t ∈ ts, P t) ∧ ts.map f = us := by
  induction ts generalizing us with
  | nil => simp [instantiateAll, pure_eq_ok_iff]
  | cons t ts ih =>
    rw [instantiateAll, bind_eq_ok_iff]
    simp only [bind_eq_ok_iff, pure_eq_ok_iff, h t List.mem_cons_self,
      ih fun t ht => h t (List.mem_cons_of_mem _ ht), List.forall_mem_cons, List.map_cons]
    constructor
    · rintro ⟨_, ⟨ht, rfl⟩, _, ⟨hts, rfl⟩, rfl⟩
      exact ⟨⟨ht, hts⟩, rfl⟩
    · rintro ⟨⟨ht, hts⟩, rfl⟩
      exact ⟨_, ⟨ht, rfl⟩, _, ⟨hts, rfl⟩, rfl⟩

theorem instantiate_mk_of_ne {head : TypeRef} (hh : ∀ p, head ≠ .typeParam p)
    (args : List TypeExpr) :
    set.instantiate σ location (.mk head args) = do
      set.checkArity head args.length location
      return .mk head (← set.instantiateAll σ location args) := by
  rw [instantiate]
  exact fun p h => hh p h

/-- A type can be instantiated if it is saturated and all its parameters are bound, and the result
is the substitution. -/
theorem instantiate_eq_ok_iff {t u : TypeExpr} :
    set.instantiate σ location t = .ok u ↔
      (set.Saturated t ∧ Binds σ t) ∧ t.subst σ = u := by
  induction t generalizing u with
  | mk head args ih =>
    by_cases hh : ∀ p, head ≠ .typeParam p
    · have hall : ∀ us, set.instantiateAll σ location args = .ok us ↔
          (∀ t ∈ args, set.Saturated t ∧ Binds σ t) ∧ args.map (TypeExpr.subst σ) = us :=
        fun us => instantiateAll_eq_ok_iff_of fun t ht u => ih t ht
      rw [instantiate_mk_of_ne hh, saturated_mk_iff, binds_mk_of_ne hh,
        TypeExpr.subst_mk_of_ne σ hh, and_assoc (a := _ = _), ← forall₂_and, bind_eq_ok_iff]
      simp only [bind_eq_ok_iff, pure_eq_ok_iff, hall]
      constructor
      · rintro ⟨_, hlen, _, ⟨hargs, rfl⟩, rfl⟩
        exact ⟨⟨checkArity_eq_ok_iff.mp hlen, hargs⟩, rfl⟩
      · rintro ⟨⟨hlen, hargs⟩, rfl⟩
        exact ⟨(), checkArity_eq_ok_iff.mpr hlen, _, ⟨hargs, rfl⟩, rfl⟩
    · obtain ⟨name, rfl⟩ := not_forall_not.mp hh
      rw [instantiate, bind_eq_ok_iff, TypeExpr.subst_typeParam]
      constructor
      · rintro ⟨_, hlen, h⟩
        obtain rfl : args = [] := List.length_eq_zero_iff.mp (checkArity_eq_ok_iff.mp hlen).symm
        cases hl : σ.lookup name with
        | none => simp [hl, throw, throwThe, MonadExceptOf.throw] at h
        | some v =>
          simp only [hl, pure_eq_ok_iff] at h
          exact ⟨⟨.mk rfl (by simp), binds_typeParam.mpr (by simp [hl])⟩, h⟩
      · rintro ⟨⟨hsat, hb⟩, rfl⟩
        obtain ⟨hlen, -⟩ := saturated_mk_iff.mp hsat
        obtain rfl : args = [] := List.length_eq_zero_iff.mp hlen.symm
        obtain ⟨v, hl⟩ := Option.isSome_iff_exists.mp (binds_typeParam.mp hb)
        exact ⟨(), checkArity_eq_ok_iff.mpr rfl, by simp [hl, pure_eq_ok_iff]⟩

/-- Parameters that are bound to themselves stay. -/
theorem Saturated.subst_eq_self {t : TypeExpr} (h : set.Saturated t)
    (hσ : ∀ p u, t.Mentions p → σ.lookup p = some u → u = .param p) : t.subst σ = t := by
  induction h with
  | @mk head args hlen _ ih =>
    by_cases hh : ∀ p, head ≠ .typeParam p
    · have hmap : args.map (TypeExpr.subst σ) = args := by
        conv_rhs => rw [← List.map_id args]
        exact List.map_congr_left fun t ht => ih t ht fun p u hp => hσ p u (.arg ht hp)
      rw [TypeExpr.subst_mk_of_ne σ hh, hmap]
    · obtain ⟨name, rfl⟩ := not_forall_not.mp hh
      obtain rfl : args = [] := List.length_eq_zero_iff.mp hlen.symm
      rw [TypeExpr.subst_typeParam]
      cases hl : σ.lookup name with
      | none => rfl
      | some u => exact hσ name u (.head []) hl

/-- Saturated types put into a saturated type make a saturated type. -/
theorem Saturated.subst {t : TypeExpr} (h : set.Saturated t)
    (hσ : ∀ p u, σ.lookup p = some u → set.Saturated u) : set.Saturated (t.subst σ) := by
  induction h with
  | @mk head args hlen hargs ih =>
    by_cases hh : ∀ p, head ≠ .typeParam p
    · rw [TypeExpr.subst_mk_of_ne σ hh]
      exact .mk (by rw [hlen, List.length_map]) (List.forall_mem_map.mpr ih)
    · obtain ⟨name, rfl⟩ := not_forall_not.mp hh
      rw [TypeExpr.subst_typeParam]
      cases hl : σ.lookup name with
      | none => exact .mk hlen hargs
      | some u => exact hσ name u hl

end ModuleSet

/-! ### Bodies -/

/-- The same body, with a function applied to each type in it. -/
def Members.map (f : TypeExpr → TypeExpr) : Members → Members
  | .fields types => .fields (types.map f)
  | .target type => .target (f type)

/-- The types in a body with the bound types in place of parameters. -/
def Body.subst (σ : Bindings) : Body → Members
  | .struct ms => .fields (ms.map (·.type.subst σ))
  | .union ms => .fields (ms.map (·.type.subst σ))
  | .enum ms => .fields (ms.map (·.type.subst σ))
  | .alias t => .target (t.subst σ)
  | .newtype t _ => .target (t.subst σ)

/-- A body consists of the types of its members, or of one target. -/
theorem Decl.subst_body (d : Decl) :
    (∀ σ, d.body.subst σ = .fields (d.types.map (·.subst σ))) ∨
      ∃ t, d.types = [t] ∧ ∀ σ, d.body.subst σ = .target (t.subst σ) := by
  unfold Decl.types Decl.members
  cases hb : d.body with
  | struct ms => exact .inl fun σ => by rw [Body.subst, List.map_map]; rfl
  | union ms => exact .inl fun σ => by rw [Body.subst, List.map_map]; rfl
  | enum ms => exact .inl fun σ => by rw [Body.subst, List.map_map]; rfl
  | «alias» t => exact .inr ⟨t, rfl, fun σ => rfl⟩
  | newtype t l => exact .inr ⟨t, rfl, fun σ => rfl⟩

namespace ModuleSet

/-- The types in the body of a declaration are saturated and mention no parameters but those of the
declaration. -/
def Proper (set : ModuleSet) (d : Decl) : Prop :=
  ∀ t ∈ d.types, set.Saturated t ∧ ∀ p, t.Mentions p → p ∈ d.typeParams

/-- `b` is the body of the declaration `id` with arguments for its parameters. -/
structure BodyAt (set : ModuleSet) (id : DeclId) (args : List TypeExpr) (b : Members) : Prop where
  length_eq : (set.decl id).typeParams.length = args.length
  proper : set.Proper (set.decl id)
  body_eq : (set.decl id).body.subst ((set.decl id).typeParams.zip args) = b

variable {set : ModuleSet} {id : DeclId} {args : List TypeExpr} {b : Members}
  {location : Location}

theorem lookup_zip_isSome_iff {ps : List String} (h : ps.length = args.length) {p : String} :
    ((ps.zip args).lookup p).isSome ↔ p ∈ ps := by
  rw [List.lookup_isSome_iff]
  constructor
  · rintro ⟨b, hb, hp⟩
    rw [beq_iff_eq.mp hp]
    exact (List.of_mem_zip hb).1
  · intro hp
    rw [← List.map_fst_zip (Nat.le_of_eq h), List.mem_map] at hp
    obtain ⟨b, hb, rfl⟩ := hp
    exact ⟨b, hb, beq_self_eq_true _⟩

theorem bind_eq_ok_bindings_iff {σ : Bindings} :
    set.bind id args location = .ok σ ↔
      (set.decl id).typeParams.length = args.length ∧ (set.decl id).typeParams.zip args = σ := by
  rw [bind, bind_eq_ok_iff]
  simp only [pure_eq_ok_iff]
  constructor
  · rintro ⟨_, h, rfl⟩
    exact ⟨checkArity_eq_ok_iff.mp h, rfl⟩
  · rintro ⟨h, rfl⟩
    exact ⟨(), checkArity_eq_ok_iff.mpr h, rfl⟩

theorem fields_eq_ok_iff {σ : Bindings} {ts : List TypeExpr} :
    (do return Members.fields (← set.instantiateAll σ location ts)) = .ok b ↔
      (∀ t ∈ ts, set.Saturated t ∧ Binds σ t) ∧ Members.fields (ts.map (·.subst σ)) = b := by
  rw [bind_pure_eq_ok_iff]
  simp only [instantiateAll_eq_ok_iff_of fun t _ u => instantiate_eq_ok_iff]
  constructor
  · rintro ⟨_, ⟨h, rfl⟩, rfl⟩
    exact ⟨h, rfl⟩
  · rintro ⟨h, rfl⟩
    exact ⟨_, ⟨h, rfl⟩, rfl⟩

theorem target_eq_ok_iff {σ : Bindings} {t : TypeExpr} :
    (do return Members.target (← set.instantiate σ location t)) = .ok b ↔
      (set.Saturated t ∧ Binds σ t) ∧ Members.target (t.subst σ) = b := by
  rw [bind_pure_eq_ok_iff]
  simp only [instantiate_eq_ok_iff]
  constructor
  · rintro ⟨_, ⟨h, rfl⟩, rfl⟩
    exact ⟨h, rfl⟩
  · rintro ⟨h, rfl⟩
    exact ⟨_, ⟨h, rfl⟩, rfl⟩

/-- What `members` returns, and when. -/
theorem members_eq_ok_iff : set.members id args location = .ok b ↔ set.BodyAt id args b := by
  have hproper : (set.decl id).typeParams.length = args.length →
      ((∀ t ∈ (set.decl id).types, set.Saturated t ∧
        Binds ((set.decl id).typeParams.zip args) t) ↔ set.Proper (set.decl id)) := by
    intro hlen
    simp only [Proper, Binds, lookup_zip_isSome_iff hlen]
  have hbody : ((set.decl id).typeParams.length = args.length ∧
      (∀ t ∈ (set.decl id).types, set.Saturated t ∧
        Binds ((set.decl id).typeParams.zip args) t) ∧
      (set.decl id).body.subst ((set.decl id).typeParams.zip args) = b) ↔
        set.BodyAt id args b :=
    ⟨fun ⟨h1, h2, h3⟩ => ⟨h1, (hproper h1).mp h2, h3⟩,
      fun ⟨h1, h2, h3⟩ => ⟨h1, (hproper h1).mpr h2, h3⟩⟩
  rw [← hbody, members, bind_eq_ok_iff]
  simp only [bind_eq_ok_bindings_iff, and_assoc, exists_eq_left', exists_and_left]
  refine and_congr_right fun _ => ?_
  cases hb : (set.decl id).body with
  | struct ms =>
    simp only [fields_eq_ok_iff, Decl.types, Decl.members, hb, Body.subst, List.map_map]
    rfl
  | union ms =>
    simp only [fields_eq_ok_iff, Decl.types, Decl.members, hb, Body.subst, List.map_map]
    rfl
  | enum ms =>
    simp only [fields_eq_ok_iff, Decl.types, Decl.members, hb, Body.subst, List.map_map]
    rfl
  | «alias» t =>
    simp only [target_eq_ok_iff, Decl.types, hb, Body.subst, List.forall_mem_singleton]
  | newtype t l =>
    simp only [target_eq_ok_iff, Decl.types, hb, Body.subst, List.forall_mem_singleton]

/-- Two bodies of one declaration at the same arguments are equal. -/
theorem BodyAt.unique {b' : Members} (h : set.BodyAt id args b) (h' : set.BodyAt id args b') :
    b = b' :=
  h.body_eq.symm.trans h'.body_eq

/-- A body with arguments can be substituted into, which is the same as in the arguments. -/
theorem BodyAt.subst (h : set.BodyAt id args b) (τ : Bindings) :
    set.BodyAt id (args.map (·.subst τ)) (b.map (·.subst τ)) := by
  obtain ⟨hlen, hproper, rfl⟩ := h
  refine ⟨by rw [hlen, List.length_map], hproper, ?_⟩
  have hzip : (set.decl id).typeParams.zip (args.map (·.subst τ)) =
      ((set.decl id).typeParams.zip args).map fun b => (b.1, b.2.subst τ) := by
    rw [List.zip_map_right]
    rfl
  have htype : ∀ t ∈ (set.decl id).types,
      (t.subst ((set.decl id).typeParams.zip args)).subst τ =
        t.subst ((set.decl id).typeParams.zip (args.map (·.subst τ))) := by
    intro t ht
    rw [hzip]
    exact TypeExpr.subst_subst fun p hp =>
      (lookup_zip_isSome_iff hlen).mpr ((hproper t ht).2 p hp)
  rcases (set.decl id).subst_body with hb | ⟨t, ht, hb⟩
  · rw [hb, hb, Members.map, List.map_map]
    exact congrArg Members.fields (List.map_congr_left fun t ht => (htype t ht).symm)
  · rw [hb, hb, Members.map, htype t (by simp [ht])]

/-- A body with substituted arguments is a substituted body. -/
theorem BodyAt.of_subst {τ : Bindings} (h : set.BodyAt id (args.map (·.subst τ)) b) :
    ∃ b', set.BodyAt id args b' ∧ b = b'.map (·.subst τ) := by
  have h' : set.BodyAt id args ((set.decl id).body.subst ((set.decl id).typeParams.zip args)) :=
    ⟨by rw [h.length_eq, List.length_map], h.proper, rfl⟩
  exact ⟨_, h', h.unique (h'.subst τ)⟩

/-- What holds of the types of a body with the arguments put in holds of the types in the body with
arguments. -/
theorem BodyAt.forall_types {P : TypeExpr → Prop} (h : set.BodyAt id args b)
    (hP : ∀ t ∈ (set.decl id).types, P (t.subst ((set.decl id).typeParams.zip args))) :
    ∀ t ∈ b.toFields ++ b.target?.toList, P t := by
  rw [← h.body_eq]
  rcases (set.decl id).subst_body with hb | ⟨t, ht, hb⟩
  · rw [hb, Members.toFields, Members.target?, Option.toList_none, List.append_nil]
    exact List.forall_mem_map.mpr hP
  · rw [hb, Members.toFields, Members.target?, Option.toList_some, List.nil_append]
    exact List.forall_mem_singleton.mpr (hP t (by simp [ht]))

/-- The types in a body with arguments are saturated, if the arguments are. -/
theorem BodyAt.saturated (h : set.BodyAt id args b) (hargs : ∀ t ∈ args, set.Saturated t) :
    ∀ t ∈ b.toFields ++ b.target?.toList, set.Saturated t :=
  h.forall_types fun t ht => (h.proper t ht).1.subst fun _ u hu =>
    hargs u (List.of_mem_zip (mem_of_lookup hu)).2

end ModuleSet

end Adl
