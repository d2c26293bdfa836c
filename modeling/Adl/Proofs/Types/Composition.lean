import Adl.Proofs.Types.Faults

/-!
# Composition — substituting more than once

Types with parameters are put into types with parameters, and declarations may use the same names
for theirs.  This does no harm, because a substitution puts all types in at once and does not look
into them again: where a parameter stands, the result has the bound type as it is
(`Saturated.at?_subst`), so two substitutions in a row are one, which binds each parameter to
its type with the second substitution made (`Composite.subst_subst`).  The laws hold of the
instantiation that checks types while it substitutes, with the same faults on both sides
(`substitutionLaws`).
-/

namespace Adl

/-! ### The laws of substitution -/

/-- The type at a place in a type; a place is the numbers of the arguments that lead to it. -/
def TypeExpr.at? : TypeExpr → List Nat → Option TypeExpr
  | t, [] => some t
  | .mk _ args, i :: path => args[i]?.bind fun t => at? t path

namespace ModuleSet

variable (set : ModuleSet)

/-- The types in a body with the bound types in place of parameters. -/
def instantiateMembers (τ : Bindings) (location : Location) : Members → Except TypeError Members
  | .fields types => return .fields (← set.instantiateAll τ location types)
  | .target type => return .target (← set.instantiate τ location type)

/-- `ρ` binds what `σ` binds, to the types that `τ` makes of those that `σ` has. -/
structure Composite (location : Location) (σ τ ρ : Bindings) : Prop where
  bound : ∀ p u, σ.lookup p = some u →
    ∃ v, set.instantiate τ location u = .ok v ∧ ρ.lookup p = some v
  unbound : ∀ p, σ.lookup p = none → ρ.lookup p = none

/-- The laws of instantiating types over the declarations of a set. -/
structure SubstitutionLaws : Prop where
  /-- Two instantiations in a row are one. -/
  compose : ∀ location σ τ ρ, set.Composite location σ τ ρ → ∀ t,
    (do set.instantiate τ location (← set.instantiate σ location t)) =
      set.instantiate ρ location t
  exists_composite : ∀ location σ τ,
    (∀ p u, σ.lookup p = some u → ∃ v, set.instantiate τ location u = .ok v) →
    ∃ ρ, set.Composite location σ τ ρ
  /-- Parameters that stand for themselves change nothing. -/
  identity : ∀ location ρ t, set.Saturated t →
    (∀ p, t.Mentions p → ρ.lookup p = some (.param p)) → set.instantiate ρ location t = .ok t
  /-- Where a parameter stands, the result has the bound type as it is. -/
  at_param : ∀ location σ t u, set.instantiate σ location t = .ok u →
    ∀ path p, t.at? path = some (.param p) → u.at? path = σ.lookup p
  /-- Where anything else stands, the result has the same head with as many arguments. -/
  at_other : ∀ location σ t u, set.instantiate σ location t = .ok u →
    ∀ path head args, t.at? path = some (.mk head args) → (∀ p, head ≠ .typeParam p) →
      ∃ args', u.at? path = some (.mk head args') ∧ args'.length = args.length
  /-- The body of a declaration with arguments is instantiated by instantiating the arguments, also
  if they mention parameters that are called like those of the declaration. -/
  members : ∀ location τ id args args' b, set.members id args location = .ok b →
    set.instantiateAll τ location args = .ok args' →
    set.instantiateMembers τ location b = set.members id args' location

end ModuleSet

/-! ### Places in types -/

section

variable {σ τ : Bindings} {t u v : TypeExpr} {path : List Nat} {p : String}

theorem TypeExpr.at?_cons (head : TypeRef) (args : List TypeExpr) (i : Nat) (path : List Nat) :
    (mk head args).at? (i :: path) = args[i]?.bind (·.at? path) := rfl

theorem TypeExpr.mentions_of_at? (h : t.at? path = some v) (hp : v.Mentions p) :
    t.Mentions p := by
  induction path generalizing t with
  | nil =>
    obtain rfl : t = v := Option.some.inj h
    exact hp
  | cons i path ih =>
    obtain ⟨head, args⟩ := t
    obtain ⟨a, ha, hv⟩ := Option.bind_eq_some_iff.mp h
    exact .arg (List.mem_of_getElem? ha) (ih hv)

/-- Every place of a type is a place of the result, where what stood there is substituted into: a
parameter has no places below it, so the types that are put in are not looked into. -/
theorem ModuleSet.Saturated.at?_subst {set : ModuleSet} (ht : set.Saturated t)
    (h : t.at? path = some v) : (t.subst σ).at? path = some (v.subst σ) := by
  induction path generalizing t with
  | nil =>
    obtain rfl : t = v := Option.some.inj h
    rfl
  | cons i path ih =>
    obtain ⟨head, args⟩ := t
    obtain ⟨hlen, hargs⟩ := saturated_mk_iff.mp ht
    obtain ⟨a, ha, hv⟩ := Option.bind_eq_some_iff.mp h
    have hmem := List.mem_of_getElem? ha
    have hh : ∀ p, head ≠ .typeParam p := by
      rintro p rfl
      rw [List.length_eq_zero_iff.mp hlen.symm] at hmem
      cases hmem
    rw [TypeExpr.subst_mk_of_ne σ hh, TypeExpr.at?_cons, List.getElem?_map, ha]
    exact ih (hargs a hmem) hv

end

/-! ### Two substitutions in a row -/

namespace ModuleSet

variable {set : ModuleSet} {σ τ ρ : Bindings} {location : Location} {t u : TypeExpr} {q : String}

/-- The parameters of a result are those of the types that are put in. -/
theorem Binds.mentions_subst (hb : Binds σ t) (h : (t.subst σ).Mentions q) :
    ∃ p u, t.Mentions p ∧ σ.lookup p = some u ∧ u.Mentions q := by
  induction t with
  | mk head args ih =>
    by_cases hh : ∀ p, head ≠ .typeParam p
    · rw [TypeExpr.subst_mk_of_ne σ hh] at h
      cases h with
      | head => exact absurd rfl (hh q)
      | arg hmem hq =>
        obtain ⟨a, ha, rfl⟩ := List.mem_map.mp hmem
        obtain ⟨p, u, hp, hu, hq⟩ := ih a ha ((binds_mk_of_ne hh).mp hb a ha) hq
        exact ⟨p, u, .arg ha hp, hu, hq⟩
    · obtain ⟨name, rfl⟩ := not_forall_not.mp hh
      obtain ⟨u, hu⟩ := Option.isSome_iff_exists.mp (hb name (.head args))
      rw [TypeExpr.subst_typeParam, hu, Option.getD_some] at h
      exact ⟨name, u, .head args, hu, h⟩

namespace Composite

variable (h : set.Composite location σ τ ρ)

include h

theorem isSome_eq (p : String) : (ρ.lookup p).isSome = (σ.lookup p).isSome := by
  cases hu : σ.lookup p with
  | none => rw [h.unbound p hu]
  | some u =>
    obtain ⟨v, -, hv⟩ := h.bound p u hu
    rw [hv]
    rfl

theorem lookup_eq (p : String) : ρ.lookup p = (σ.lookup p).map (TypeExpr.subst τ) := by
  cases hu : σ.lookup p with
  | none => rw [h.unbound p hu, Option.map_none]
  | some u =>
    obtain ⟨v, hv, hlookup⟩ := h.bound p u hu
    rw [hlookup, Option.map_some, (instantiate_eq_ok_iff.mp hv).2]

theorem subst_subst (hb : Binds σ t) : (t.subst σ).subst τ = t.subst ρ := by
  rw [TypeExpr.subst_subst hb]
  refine TypeExpr.subst_congr fun p _ => ?_
  rw [lookup_map_snd, h.lookup_eq]

/-- Two instantiations in a row succeed where the first one does, and report its fault elsewhere. -/
theorem instantiate_eq (t : TypeExpr) :
    (do set.instantiate τ location (← set.instantiate σ location t)) =
      set.instantiate ρ location t := by
  cases ht : set.instantiate σ location t with
  | ok t₁ =>
    obtain ⟨⟨hsat, hb⟩, rfl⟩ := instantiate_eq_ok_iff.mp ht
    have hvalues : ∀ p u, σ.lookup p = some u → set.Saturated u ∧ Binds τ u := by
      intro p u hu
      obtain ⟨v, hv, -⟩ := h.bound p u hu
      exact (instantiate_eq_ok_iff.mp hv).1
    have hfirst : set.Saturated (t.subst σ) := hsat.subst fun p u hu => (hvalues p u hu).1
    have hsecond : Binds τ (t.subst σ) := by
      intro q hq
      obtain ⟨p, u, -, hu, hq⟩ := hb.mentions_subst hq
      exact (hvalues p u hu).2 q hq
    have hρ : Binds ρ t := fun p hp => by rw [h.isSome_eq, hb p hp]
    calc set.instantiate τ location (t.subst σ)
        = .ok ((t.subst σ).subst τ) := instantiate_eq_ok_iff.mpr ⟨⟨hfirst, hsecond⟩, rfl⟩
      _ = .ok (t.subst ρ) := by rw [h.subst_subst hb]
      _ = set.instantiate ρ location t := (instantiate_eq_ok_iff.mpr ⟨⟨hsat, hρ⟩, rfl⟩).symm
  | error e =>
    have hfault : set.fault? ρ location = set.fault? σ location :=
      funext fun u => fault?_congr h.isSome_eq
    rw [instantiate_eq_error_iff, ← hfault, ← instantiate_eq_error_iff] at ht
    exact ht.symm

end Composite

theorem exists_composite
    (h : ∀ p u, σ.lookup p = some u → ∃ v, set.instantiate τ location u = .ok v) :
    ∃ ρ, set.Composite location σ τ ρ := by
  refine ⟨σ.map fun b => (b.1, b.2.subst τ), fun p u hu => ?_, fun p hp => ?_⟩
  · obtain ⟨v, hv⟩ := h p u hu
    refine ⟨v, hv, ?_⟩
    rw [lookup_map_snd, hu, Option.map_some, (instantiate_eq_ok_iff.mp hv).2]
  · rw [lookup_map_snd, hp, Option.map_none]

theorem instantiateAll_eq_ok_iff {ts us : List TypeExpr} :
    set.instantiateAll σ location ts = .ok us ↔
      (∀ t ∈ ts, set.Saturated t ∧ Binds σ t) ∧ ts.map (·.subst σ) = us :=
  instantiateAll_eq_ok_iff_of fun _ _ _ => instantiate_eq_ok_iff

theorem instantiateMembers_eq_ok {b : Members}
    (h : ∀ t ∈ b.toFields ++ b.target?.toList, set.Saturated t ∧ Binds τ t) :
    set.instantiateMembers τ location b = .ok (b.map (·.subst τ)) := by
  cases b with
  | fields types =>
    rw [Members.toFields, Members.target?, Option.toList_none, List.append_nil] at h
    exact fields_eq_ok_iff.mpr ⟨h, rfl⟩
  | target type => exact target_eq_ok_iff.mpr ⟨h type (List.mem_singleton_self _), rfl⟩

/-- A body with arguments mentions the parameters of the arguments only. -/
theorem BodyAt.binds {id : DeclId} {args : List TypeExpr} {b : Members} (h : set.BodyAt id args b)
    (hargs : ∀ t ∈ args, Binds τ t) :
    ∀ t ∈ b.toFields ++ b.target?.toList, Binds τ t := by
  refine h.forall_types fun t ht q hq => ?_
  have hb : Binds ((set.decl id).typeParams.zip args) t := fun p hp =>
    (lookup_zip_isSome_iff h.length_eq).mpr ((h.proper t ht).2 p hp)
  obtain ⟨p, u, -, hu, hq⟩ := hb.mentions_subst hq
  exact hargs u (List.of_mem_zip (mem_of_lookup hu)).2 q hq

/-! ### Main statement -/

/-- Instantiating types composes, has an identity, and puts all types in at once. -/
theorem substitutionLaws (set : ModuleSet) : set.SubstitutionLaws where
  compose location σ τ ρ h t := h.instantiate_eq t
  exists_composite location σ τ h := exists_composite h
  identity location ρ t ht hρ := by
    refine instantiate_eq_ok_iff.mpr ⟨⟨ht, fun p hp => by rw [hρ p hp]; rfl⟩, ?_⟩
    exact ht.subst_eq_self fun p u hp hu => Option.some.inj (hu.symm.trans (hρ p hp))
  at_param location σ t u hu path p hp := by
    obtain ⟨⟨ht, hb⟩, rfl⟩ := instantiate_eq_ok_iff.mp hu
    obtain ⟨v, hv⟩ := Option.isSome_iff_exists.mp
      (hb p (TypeExpr.mentions_of_at? hp (.head [])))
    rw [ht.at?_subst hp, TypeExpr.param, TypeExpr.subst_typeParam, hv, Option.getD_some]
  at_other location σ t u hu path head args hp hh := by
    obtain ⟨⟨ht, -⟩, rfl⟩ := instantiate_eq_ok_iff.mp hu
    refine ⟨args.map (TypeExpr.subst σ), ?_, List.length_map _⟩
    rw [ht.at?_subst hp, TypeExpr.subst_mk_of_ne σ hh]
  members location τ id args args' b hb hall := by
    have hbody := members_eq_ok_iff.mp hb
    obtain ⟨hargs, rfl⟩ := instantiateAll_eq_ok_iff.mp hall
    have hsat := hbody.saturated fun t ht => (hargs t ht).1
    have hbinds := hbody.binds fun t ht => (hargs t ht).2
    rw [instantiateMembers_eq_ok fun t ht => ⟨hsat t ht, hbinds t ht⟩]
    exact (members_eq_ok_iff.mpr (hbody.subst τ)).symm

end ModuleSet

/-- What `struct Pair<A, B> { first: A; second: B }` and `type Swap<A, B> = Pair<B, A>;` resolve
to. -/
def swapSet : ModuleSet :=
  ⟨[⟨"swaps", [], [0, 1], []⟩],
    [⟨0, "swaps", "Pair", ["A", "B"], [],
        .struct [⟨"first", "first", .param "A", none, []⟩,
          ⟨"second", "second", .param "B", none, []⟩]⟩,
      ⟨1, "swaps", "Swap", ["A", "B"], [],
        .alias (.mk (.decl 0) [.param "B", .param "A"])⟩],
    [(⟨"swaps", "Pair"⟩, 0), (⟨"swaps", "Swap"⟩, 1)]⟩

/-- The alias puts its parameters in the places of each other, and so do the bindings; what comes of
both is the pair as it was. -/
theorem swap_members :
    swapSet.members 1 [.param "B", .param "A"] (.ofDecl "swaps" "Swap") =
      .ok (.target (.mk (.decl 0) [.param "A", .param "B"])) := by
  have hmembers := (ModuleSet.substitutionLaws swapSet).members (.ofDecl "swaps" "Swap")
    [("A", .param "B"), ("B", .param "A")] 1 [.param "A", .param "B"] [.param "B", .param "A"]
    (.target (.mk (.decl 0) [.param "B", .param "A"])) rfl rfl
  exact hmembers.symm

end Adl
