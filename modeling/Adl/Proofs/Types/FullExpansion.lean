import Adl.Proofs.Types.Acyclic
import Adl.Proofs.Types.Composition

/-!
# FullExpansion — types without any aliases

`ModuleSet.Expands` replaces the aliases at the head of a type and leaves the arguments alone.  Here
all aliases are replaced, those in arguments too (`FullyExpands`).  The expansion of a type with
bound parameters is that of the type with the expansions of what is bound (`FullyExpands.subst`),
and so an alias is expanded by expanding its body and its arguments.  In a checked set every
saturated type has exactly one full expansion (`existsUnique_fullyExpands`).

A full expansion has no new parameters (`FullyExpands.mentions`), but an alias that does not mention
one of its own drops what stands in its place.  If no alias does, nothing is lost
(`FullyExpands.mentions_of_aliasesMention`).
-/

namespace Adl

namespace ModuleSet

variable {set : ModuleSet} {id : DeclId} {t u v w body : TypeExpr} {args us : List TypeExpr}
  {head : TypeRef} {σ τ : Bindings} {p : String}

/-- `u` is `t` with the aliases in it replaced by their bodies, at every depth. -/
inductive FullyExpands (set : ModuleSet) : TypeExpr → TypeExpr → Prop
  | step {t u v : TypeExpr} (first : set.AliasStep t u) (rest : FullyExpands set u v) :
      FullyExpands set t v
  | mk {head : TypeRef} {args us : List TypeExpr} (no_alias : ¬ set.AliasHead (.mk head args))
      (length_eq : args.length = us.length)
      (h : ∀ t u, (t, u) ∈ args.zip us → FullyExpands set t u) :
      FullyExpands set (.mk head args) (.mk head us)

namespace FullyExpands

theorem of_forall₂ (hno : ¬ set.AliasHead (.mk head args))
    (h : List.Forall₂ set.FullyExpands args us) :
    set.FullyExpands (.mk head args) (.mk head us) := by
  obtain ⟨hlen, h⟩ := List.forall₂_iff_zip.mp h
  exact .mk hno hlen fun _ _ => h

theorem unique (hu : set.FullyExpands t u) (hv : set.FullyExpands t v) : u = v := by
  induction hu generalizing v with
  | step first _ ih =>
    cases hv with
    | step first' rest => exact ih (first.deterministic first' ▸ rest)
    | mk hno => exact absurd first.aliasHead hno
  | @mk head args us hno hlen _ ih =>
    cases hv with
    | step first => exact absurd first.aliasHead hno
    | @mk _ _ us' _ hlen' h' =>
      have hus : List.Forall₂ (fun t u => ∀ v, set.FullyExpands t v → u = v) args us :=
        List.forall₂_iff_zip.mpr ⟨hlen, fun hmem v hv => ih _ _ hmem hv⟩
      have hus' : List.Forall₂ set.FullyExpands args us' :=
        List.forall₂_iff_zip.mpr ⟨hlen', fun hmem => h' _ _ hmem⟩
      rw [eq_of_forall₂ hus hus']

/-- There are no aliases left. -/
theorem not_isAlias (h : set.FullyExpands t u) (ha : u.Applies id) : ¬ set.isAlias id := by
  induction h with
  | step _ _ ih => exact ih ha
  | @mk head args us hno hlen _ ih =>
    cases ha with
    | head => exact fun halias => hno ⟨id, rfl, halias⟩
    | arg hu ha =>
      obtain ⟨t, hmem⟩ := exists_mem_zip hlen hu
      exact ih t _ hmem ha

/-- A type with bound parameters is expanded by expanding the type and what is bound. -/
theorem subst (h : set.FullyExpands t u)
    (hσ : ∀ p, Option.Rel set.FullyExpands (σ.lookup p) (τ.lookup p)) :
    set.FullyExpands (t.subst σ) (u.subst τ) := by
  induction h with
  | step first _ ih => exact .step (first.subst σ) ih
  | @mk head args us hno hlen h ih =>
    by_cases hh : ∀ p, head ≠ .typeParam p
    · rw [TypeExpr.subst_mk_of_ne σ hh, TypeExpr.subst_mk_of_ne τ hh]
      refine .of_forall₂ hno (List.forall₂_map_left_iff.mpr (List.forall₂_map_right_iff.mpr ?_))
      exact List.forall₂_iff_zip.mpr ⟨hlen, fun hmem => ih _ _ hmem⟩
    · obtain ⟨name, rfl⟩ := not_forall_not.mp hh
      have hname := hσ name
      rw [TypeExpr.subst_typeParam, TypeExpr.subst_typeParam]
      generalize σ.lookup name = x at hname
      generalize τ.lookup name = y at hname
      cases hname with
      | some hv => exact hv
      | none => exact .mk hno hlen h

end FullyExpands

/-! ### Existence -/

theorem Proper.alias_body (hproper : set.Proper (set.decl id))
    (hbody : (set.decl id).body = .alias body) :
    set.Saturated body ∧ ∀ p, body.Mentions p → p ∈ (set.decl id).typeParams := by
  refine hproper body ?_
  rw [types_of_alias hbody]
  exact List.mem_singleton_self body

/-- Of related types for the same parameters, those of one parameter are related. -/
theorem rel_lookup_zip {R : TypeExpr → TypeExpr → Prop} (h : List.Forall₂ R args us)
    (ps : List String) (p : String) :
    Option.Rel R ((ps.zip args).lookup p) ((ps.zip us).lookup p) := by
  induction h generalizing ps with
  | nil =>
    rw [List.zip_nil_right]
    exact .none
  | @cons t u args us htu _ ih =>
    cases ps with
    | nil => exact .none
    | cons q ps =>
      rw [List.zip_cons_cons, List.zip_cons_cons, List.lookup_cons, List.lookup_cons]
      split
      · exact .some htu
      · exact ih ps

/-- An alias is expanded by expanding its body and its arguments. -/
theorem FullyExpands.of_alias (hproper : set.Proper (set.decl id))
    (hbody : (set.decl id).body = .alias body)
    (hlen : (set.decl id).typeParams.length = args.length) (hw : set.FullyExpands body w)
    (hus : List.Forall₂ set.FullyExpands args us) :
    set.FullyExpands (.mk (.decl id) args) (w.subst ((set.decl id).typeParams.zip us)) := by
  have hstep : set.AliasStep (.mk (.decl id) args)
      (body.subst ((set.decl id).typeParams.zip args)) := by
    refine ⟨isAlias_iff.mpr ⟨body, hbody⟩, hlen, hproper, ?_⟩
    rw [hbody, Body.subst]
  exact .step hstep (hw.subst (rel_lookup_zip hus _))

/-- A saturated type can be expanded if the bodies of the aliases in it can be. -/
theorem exists_fullyExpands_of_applied (hproper : ∀ id, set.Proper (set.decl id))
    (ht : set.Saturated t) (h : ∀ id, t.Applies id → set.isAlias id →
      ∃ body w, (set.decl id).body = .alias body ∧ set.FullyExpands body w) :
    ∃ u, set.FullyExpands t u := by
  induction t with
  | mk head args ih =>
    obtain ⟨hlen, hargs⟩ := saturated_mk_iff.mp ht
    obtain ⟨us, hus⟩ := exists_forall₂ fun t hmem =>
      ih t hmem (hargs t hmem) fun id happlies => h id (.arg hmem happlies)
    by_cases ha : set.AliasHead (.mk head args)
    · obtain ⟨id, rfl, ha⟩ := ha
      obtain ⟨body, w, hbody, hw⟩ := h id (.head args) ha
      exact ⟨_, .of_alias (hproper id) hbody hlen hw hus⟩
    · exact ⟨_, .of_forall₂ ha hus⟩

/-- Where no alias leads back to itself, the bodies of all aliases can be expanded.  The induction
is on the aliases that a body applies. -/
theorem exists_fullyExpands_body (hwf : WellFounded fun b a => set.AliasUse a b)
    (hproper : ∀ id, set.Proper (set.decl id)) (ha : set.isAlias id) :
    ∃ body w, (set.decl id).body = .alias body ∧ set.FullyExpands body w := by
  induction id using hwf.induction with
  | h id ih =>
    obtain ⟨body, hbody⟩ := isAlias_iff.mp ha
    obtain ⟨hsaturated, -⟩ := (hproper id).alias_body hbody
    obtain ⟨w, hw⟩ := exists_fullyExpands_of_applied hproper hsaturated fun b happlies hb =>
      ih b ⟨hb, body, hbody, happlies⟩ hb
    exact ⟨body, w, hbody, hw⟩

/-- Where no alias leads back to itself, each saturated type has one full expansion. -/
theorem existsUnique_fullyExpands (hwf : WellFounded fun b a => set.AliasUse a b)
    (hproper : ∀ id, set.Proper (set.decl id)) (ht : set.Saturated t) :
    ∃! u, set.FullyExpands t u := by
  obtain ⟨u, hu⟩ := exists_fullyExpands_of_applied hproper ht fun _ _ ha =>
    exists_fullyExpands_body hwf hproper ha
  exact ⟨u, hu, fun v hv => hv.unique hu⟩

/-! ### Parameters -/

/-- What is bound to a parameter that a type mentions is there after the substitution. -/
theorem Saturated.mentions_subst {q : String} (ht : set.Saturated t) (hq : t.Mentions q)
    (hv : σ.lookup q = some v) (hp : v.Mentions p) : (t.subst σ).Mentions p := by
  induction hq with
  | head args => rwa [TypeExpr.subst_typeParam, hv, Option.getD_some]
  | @arg head args t hmem _ ih =>
    obtain ⟨hlen, hargs⟩ := saturated_mk_iff.mp ht
    have hh : ∀ p, head ≠ .typeParam p := by
      rintro p rfl
      rw [List.length_eq_zero_iff.mp hlen.symm] at hmem
      cases hmem
    rw [TypeExpr.subst_mk_of_ne σ hh]
    exact .arg (List.mem_map_of_mem hmem) (ih (hargs t hmem))

/-- Every alias mentions each of its parameters. -/
def AliasesMention (set : ModuleSet) : Prop :=
  ∀ id body, (set.decl id).body = .alias body → ∀ p ∈ (set.decl id).typeParams, body.Mentions p

namespace FullyExpands

/-- The parameters of a full expansion are parameters of the type. -/
theorem mentions (h : set.FullyExpands t u) (hp : u.Mentions p) : t.Mentions p := by
  induction h with
  | step first _ ih =>
    obtain ⟨ha, hb⟩ := first
    obtain ⟨body, hbody, rfl⟩ := hb.alias_eq ha
    obtain ⟨-, hparams⟩ := hb.proper.alias_body hbody
    have hbinds : Binds _ body := fun q hq =>
      (lookup_zip_isSome_iff hb.length_eq).mpr (hparams q hq)
    obtain ⟨q, v, -, hv, hp⟩ := hbinds.mentions_subst (ih hp)
    exact .arg (List.of_mem_zip (mem_of_lookup hv)).2 hp
  | @mk head args us _ hlen _ ih =>
    cases hp with
    | head => exact .head args
    | arg hu hp =>
      obtain ⟨t, hmem⟩ := exists_mem_zip hlen hu
      exact .arg (List.of_mem_zip hmem).1 (ih t _ hmem hp)

/-- Where every alias mentions its parameters, a full expansion has all parameters of the type. -/
theorem mentions_of_aliasesMention (hkeep : set.AliasesMention)
    (hnodup : ∀ id, (set.decl id).typeParams.Nodup) (h : set.FullyExpands t u)
    (hp : t.Mentions p) : u.Mentions p := by
  induction h with
  | step first _ ih =>
    refine ih ?_
    obtain ⟨ha, hb⟩ := first
    obtain ⟨body, hbody, rfl⟩ := hb.alias_eq ha
    cases hp with
    | @arg _ args v hmem hp =>
      -- the argument is bound to the parameter in its place, which the body mentions
      obtain ⟨i, hi⟩ := List.mem_iff_getElem?.mp hmem
      obtain ⟨q, hq⟩ := exists_getElem?_of_length_eq hb.length_eq hi
      obtain ⟨hsaturated, -⟩ := hb.proper.alias_body hbody
      refine hsaturated.mentions_subst (hkeep _ body hbody q (List.mem_of_getElem? hq)) ?_ hp
      refine lookup_of_mem ?_ (mem_zip_iff.mpr ⟨i, hq, hi⟩)
      rw [List.map_fst_zip (Nat.le_of_eq hb.length_eq)]
      exact hnodup _
  | @mk head args us _ hlen _ ih =>
    cases hp with
    | head => exact .head us
    | @arg _ _ t hmem hp =>
      obtain ⟨i, hi⟩ := List.mem_iff_getElem?.mp hmem
      obtain ⟨u, hu⟩ := exists_getElem?_of_length_eq hlen.symm hi
      exact .arg (List.mem_of_getElem? hu) (ih t u (mem_zip_iff.mpr ⟨i, hi, hu⟩) hp)

end FullyExpands

end ModuleSet

end Adl
