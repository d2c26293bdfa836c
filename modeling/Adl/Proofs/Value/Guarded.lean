import Adl.Proofs.Value.Links
import Mathlib.Order.WellFoundedSet

/-!
# Guarded — types that do not stand for themselves

A literal is handed on by aliases, by newtypes and by `Nullable`, and so it gets to the declarations
that a target exposes: those at its head, or in the arguments of what hands the literal on.  A set
is guarded if no declaration gets to itself in this way.  Then every chain of links ends, at any
type (`Guarded.acc_link`): a declaration ends if those that its target exposes do, and putting types
that end in place of parameters gives a type that ends.
-/

namespace Adl

namespace ModuleSet

variable (set : ModuleSet)

/-- A declaration that stands for another type: an alias or a newtype. -/
def IsTransparent (id : DeclId) : Prop := (set.decl id).target?.isSome

/-- A declaration stands in a type where nothing but `Nullable`, aliases and newtypes is around
it. -/
inductive Exposes (id : DeclId) : TypeExpr → Prop
  | head (args : List TypeExpr) : Exposes id (.mk (.decl id) args)
  | nullable {args : List TypeExpr} {t : TypeExpr} (ht : t ∈ args) (h : Exposes id t) :
      Exposes id (.mk (.primitive .nullable) args)
  | applied {outer : DeclId} {args : List TypeExpr} {t : TypeExpr}
      (houter : set.IsTransparent outer) (ht : t ∈ args) (h : Exposes id t) :
      Exposes id (.mk (.decl outer) args)

/-- The target of the alias or newtype `a` exposes the alias or newtype `b`. -/
def Unfolds (a b : DeclId) : Prop :=
  set.IsTransparent b ∧ ∃ t, (set.decl a).target? = some t ∧ set.Exposes b t

/-- No alias or newtype gets to itself. -/
def Guarded : Prop := ∀ id, ¬ Relation.TransGen set.Unfolds id id

/-- The links from a type end. -/
abbrev LinksEnd (null : Bool) (t : TypeExpr) : Prop := Acc (fun u t => ∃ c, set.Link null t c u) t

/-- The links from a declaration end, if those from its arguments do. -/
def LinksEndApplied (null : Bool) (id : DeclId) : Prop :=
  ∀ args, (∀ t ∈ args, set.LinksEnd null t) → set.LinksEnd null (.mk (.decl id) args)

variable {set} {null : Bool} {id : DeclId} {t u v : TypeExpr} {σ : Bindings}

/-! ### Declarations -/

theorem IsTransparent.lt_length (h : set.IsTransparent id) : id < set.decls.length := by
  obtain ⟨t, ht⟩ := Option.isSome_iff_exists.mp h
  exact lt_length_of_target? ht

/-- In a guarded set nothing is exposed for ever, since there are finitely many declarations. -/
theorem Guarded.wellFounded (h : set.Guarded) : WellFounded fun b a => set.Unfolds a b := by
  let before (b a : DeclId) : Prop := Relation.TransGen set.Unfolds a b
  have htrans : IsTrans DeclId before := ⟨fun _ _ _ hba hcb => hcb.trans hba⟩
  have hirrefl : Std.Irrefl before := ⟨h⟩
  have horder : IsStrictOrder DeclId before := {}
  have hwf := Set.wellFoundedOn_iff.mp
    (Set.Finite.wellFoundedOn (r := before) (Set.finite_lt_nat set.decls.length))
  refine Subrelation.wf (fun {b a} hab => ?_) hwf
  obtain ⟨t, ht, -⟩ := hab.2
  exact ⟨.single hab, hab.1.lt_length, lt_length_of_target? ht⟩

/-- A set is guarded if all targets expose earlier declarations only. -/
theorem guarded_of_lt (h : ∀ a b, set.Unfolds a b → b < a) : set.Guarded := by
  have hlt : ∀ a b, Relation.TransGen set.Unfolds a b → b < a := by
    intro a b hab
    induction hab with
    | single hab => exact h _ _ hab
    | tail _ hbc ih => exact Nat.lt_trans (h _ _ hbc) ih
  exact fun a ha => Nat.lt_irrefl a (hlt a a ha)

/-! ### Types -/

theorem linksEnd_of_last (h : set.Last null t) : set.LinksEnd null t :=
  .intro _ fun u ⟨c, hl⟩ => absurd hl (h c u)

/-- A type ends if its arguments do, where the literal may be handed on to them. -/
theorem linksEnd_nullable {args : List TypeExpr} (h : ∀ t ∈ args, set.LinksEnd null t) :
    set.LinksEnd null (.mk (.primitive .nullable) args) := by
  refine .intro _ fun u ⟨c, hl⟩ => ?_
  cases hl with
  | «alias» hl => cases hl
  | nullable _ => exact h u List.mem_cons_self

/-- Putting types that end in place of parameters gives a type that ends. -/
theorem linksEnd_subst (hσ : ∀ b ∈ σ, set.LinksEnd null b.2)
    (h : ∀ id, set.Exposes id t → set.IsTransparent id → set.LinksEndApplied null id) :
    set.LinksEnd null (t.subst σ) := by
  induction t with
  | mk head args ih =>
    cases head with
    | primitive p =>
      rw [TypeExpr.subst_primitive]
      by_cases hp : p = .nullable
      · subst hp
        refine linksEnd_nullable (List.forall_mem_map.mpr fun t ht => ?_)
        exact ih t ht fun id hid => h id (.nullable ht hid)
      · exact linksEnd_of_last (last_of_primitive hp)
    | decl outer =>
      rw [TypeExpr.subst_decl]
      by_cases houter : set.IsTransparent outer
      · refine h outer (.head args) houter _ (List.forall_mem_map.mpr fun t ht => ?_)
        exact ih t ht fun id hid => h id (.applied houter ht hid)
      · exact linksEnd_of_last (last_of_target?_eq_none (Option.not_isSome_iff_eq_none.mp houter))
    | typeParam name =>
      rw [TypeExpr.subst_typeParam]
      cases hl : σ.lookup name with
      | none => exact linksEnd_of_last (last_typeParam name args)
      | some u => exact hσ (name, u) (mem_of_lookup hl)

/-- A link of an applied declaration leads to an instance of its target. -/
theorem Link.exists_target {c : Nat} {args : List TypeExpr}
    (h : set.Link null (.mk (.decl id) args) c u) : ∃ t, (set.decl id).target? = some t ∧
      u = t.subst ((set.decl id).typeParams.zip args) := by
  cases h with
  | «alias» h =>
    obtain ⟨-, hb⟩ := h
    exact hb.target_eq
  | newtype _ hb => exact hb.target_eq

/-- In a guarded set every declaration ends.  The induction is on the declarations that its target
exposes. -/
theorem Guarded.linksEndApplied (h : set.Guarded) (id : DeclId) :
    set.LinksEndApplied null id := by
  induction id using h.wellFounded.induction with
  | h id ih =>
    refine fun args hargs => .intro _ fun u ⟨c, hl⟩ => ?_
    obtain ⟨t, ht, rfl⟩ := hl.exists_target
    refine linksEnd_subst (fun b hb => hargs b.2 (List.of_mem_zip hb).2) fun inner hinner htr => ?_
    exact ih inner ⟨htr, t, ht, hinner⟩

/-- In a guarded set the links from every type end. -/
theorem Guarded.acc_link (h : set.Guarded) (t : TypeExpr) : set.LinksEnd null t := by
  induction t with
  | mk head args ih =>
    cases head with
    | primitive p =>
      by_cases hp : p = .nullable
      · subst hp
        exact linksEnd_nullable ih
      · exact linksEnd_of_last (last_of_primitive hp)
    | decl id => exact h.linksEndApplied id args ih
    | typeParam name => exact linksEnd_of_last (last_typeParam name args)

end ModuleSet

end Adl
