import Adl.Proofs.Types.Substitution
import Adl.Types.Expand

/-!
# Expansion — the head of a type without aliases

One `AliasStep` replaces an alias at the head of a type by its body with arguments.  `Expands t u`
says that at most `maxAliasDepth` such steps lead from `t` to `u`, whose head is no alias.  This is
what `Graph.expand` computes (`yields_expand_iff`): its check for an alias that comes back with the
same arguments never stops steps that would have ended, because steps are deterministic.
-/

namespace Adl

namespace ModuleSet

variable (set : ModuleSet)

/-- The head of a type is an alias. -/
def AliasHead (t : TypeExpr) : Prop := ∃ id, t.head = .decl id ∧ set.isAlias id

/-- An alias at the head is replaced by its body. -/
inductive AliasStep : TypeExpr → TypeExpr → Prop
  | mk {id : DeclId} {args : List TypeExpr} {body : TypeExpr} (is_alias : set.isAlias id)
      (body_at : set.BodyAt id args (.target body)) : AliasStep (.mk (.decl id) args) body

/-- A number of alias steps. -/
inductive AliasSteps : Nat → TypeExpr → TypeExpr → Prop
  | refl (t : TypeExpr) : AliasSteps 0 t t
  | step {n : Nat} {t u v : TypeExpr} (first : set.AliasStep t u) (rest : AliasSteps n u v) :
      AliasSteps (n + 1) t v

/-- `u` is `t` with all aliases at its head expanded. -/
structure Expands (t u : TypeExpr) : Prop where
  steps : ∃ n ≤ maxAliasDepth, set.AliasSteps n t u
  no_alias : ¬ set.AliasHead u

/-- After any number of steps there is still an alias at the head. -/
def Endless (t : TypeExpr) : Prop := ∀ n, ∃ u, set.AliasSteps n t u ∧ set.AliasHead u

variable {set} {t u v : TypeExpr} {n k : Nat}

theorem AliasStep.aliasHead (h : set.AliasStep t u) : set.AliasHead t := by
  obtain ⟨ha, -⟩ := h
  exact ⟨_, rfl, ha⟩

theorem AliasStep.deterministic (hu : set.AliasStep t u) (hv : set.AliasStep t v) : u = v := by
  cases hu with
  | mk _ hu =>
    cases hv with
    | mk _ hv => exact Members.target.inj (hu.unique hv)

theorem AliasSteps.trans (h : set.AliasSteps n t u) (h' : set.AliasSteps k u v) :
    set.AliasSteps (n + k) t v := by
  induction h with
  | refl t => rwa [Nat.zero_add]
  | step first _ ih =>
    rw [Nat.add_right_comm]
    exact .step first (ih h')

/-- Of two runs of steps from one type, the shorter one is the beginning of the longer one. -/
theorem AliasSteps.rest (h : set.AliasSteps n t u) (h' : set.AliasSteps (n + k) t v) :
    set.AliasSteps k u v := by
  induction h with
  | refl t => rwa [Nat.zero_add] at h'
  | step first _ ih =>
    rw [Nat.add_right_comm] at h'
    cases h' with
    | step first' rest =>
      rw [← first.deterministic first'] at rest
      exact ih rest

theorem AliasSteps.eq_of_not_aliasHead (h : set.AliasSteps n t u) (ht : ¬ set.AliasHead t) :
    n = 0 ∧ u = t := by
  cases h with
  | refl => exact ⟨rfl, rfl⟩
  | step first _ => exact absurd first.aliasHead ht

/-- Where the steps from a type end does not depend on how many are made. -/
theorem AliasSteps.unique_end (hu : set.AliasSteps n t u) (hv : set.AliasSteps k t v)
    (hnu : ¬ set.AliasHead u) (hnv : ¬ set.AliasHead v) : n = k ∧ u = v := by
  rcases Nat.le_total n k with hle | hle
  · obtain ⟨j, rfl⟩ := Nat.exists_eq_add_of_le hle
    obtain ⟨rfl, rfl⟩ := (hu.rest hv).eq_of_not_aliasHead hnu
    exact ⟨rfl, rfl⟩
  · obtain ⟨j, rfl⟩ := Nat.exists_eq_add_of_le hle
    obtain ⟨rfl, rfl⟩ := (hv.rest hu).eq_of_not_aliasHead hnv
    exact ⟨rfl, rfl⟩

/-- A primitive type is its own expansion. -/
theorem Expands.of_primitive (p : Primitive) (args : List TypeExpr) :
    set.Expands (.mk (.primitive p) args) (.mk (.primitive p) args) :=
  ⟨⟨0, Nat.zero_le _, .refl _⟩, fun ⟨_, h, _⟩ => by cases h⟩

/-- So is a declared type that is no alias. -/
theorem Expands.of_decl {id : DeclId} (h : ¬ set.isAlias id) (args : List TypeExpr) :
    set.Expands (.mk (.decl id) args) (.mk (.decl id) args) :=
  ⟨⟨0, Nat.zero_le _, .refl _⟩, fun ⟨_, hid, ha⟩ => by cases hid; exact h ha⟩

theorem Expands.unique (hu : set.Expands t u) (hv : set.Expands t v) : u = v := by
  obtain ⟨⟨n, -, hn⟩, hnu⟩ := hu
  obtain ⟨⟨k, -, hk⟩, hnv⟩ := hv
  exact (hn.unique_end hk hnu hnv).2

theorem AliasSteps.aliasHead (h : set.AliasSteps (n + 1) t u) : set.AliasHead t := by
  cases h with
  | step first _ => exact first.aliasHead

theorem AliasSteps.unique (hu : set.AliasSteps n t u) (hv : set.AliasSteps n t v) : u = v := by
  have h : set.AliasSteps 0 u v := hu.rest hv
  cases h
  rfl

/-- On the way to an alias there are aliases only. -/
theorem AliasSteps.aliasHead_of_le (h : set.AliasSteps n t u) (ha : set.AliasHead u)
    (hv : set.AliasSteps k t v) (hle : k ≤ n) : set.AliasHead v := by
  obtain ⟨j, rfl⟩ := Nat.exists_eq_add_of_le hle
  cases hv.rest h with
  | refl => exact ha
  | step first _ => exact first.aliasHead

/-- Steps can be stopped on the way. -/
theorem AliasSteps.split (h : set.AliasSteps (n + k) t v) :
    ∃ u, set.AliasSteps n t u ∧ set.AliasSteps k u v := by
  induction n generalizing t with
  | zero => exact ⟨t, .refl t, Nat.zero_add k ▸ h⟩
  | succ n ih =>
    rw [Nat.add_right_comm] at h
    cases h with
    | step first rest =>
      obtain ⟨u, hu, hv⟩ := ih rest
      exact ⟨u, .step first hu, hv⟩

/-- It suffices that there is no bound on how many steps there are. -/
theorem endless_of_unbounded (h : ∀ n, ∃ k v, n < k ∧ set.AliasSteps k t v) : set.Endless t := by
  intro n
  obtain ⟨_, v, hlt, hsteps⟩ := h n
  obtain ⟨j, rfl⟩ := Nat.exists_eq_add_of_lt hlt
  obtain ⟨u, hu, hrest⟩ := AliasSteps.split (k := j + 1) hsteps
  exact ⟨u, hu, hrest.aliasHead⟩

/-- Steps that come back to a type never end, for they can be made over and over again. -/
theorem AliasSteps.endless (h : set.AliasSteps n t u) (hcycle : set.AliasSteps (k + 1) u u) :
    set.Endless t := by
  have hround (m : Nat) : ∃ j ≥ m, set.AliasSteps j u u := by
    induction m with
    | zero => exact ⟨0, Nat.le_refl 0, .refl u⟩
    | succ m ih =>
      obtain ⟨j, hj, hsteps⟩ := ih
      exact ⟨j + (k + 1), by omega, hsteps.trans hcycle⟩
  refine endless_of_unbounded fun m => ?_
  obtain ⟨j, hj, hsteps⟩ := hround (m + 1)
  exact ⟨n + j, u, by omega, h.trans hsteps⟩

/-- Steps that never end do not end. -/
theorem Endless.aliasHead (h : set.Endless t) (hu : set.AliasSteps n t u) : set.AliasHead u := by
  obtain ⟨v, hv, ha⟩ := h n
  exact hu.unique hv ▸ ha

theorem isAlias_iff {id : DeclId} :
    set.isAlias id ↔ ∃ body, (set.decl id).body = .alias body := by
  rw [isAlias, Decl.isAlias]
  cases (set.decl id).body <;> simp

theorem types_of_alias {id : DeclId} {body : TypeExpr}
    (h : (set.decl id).body = .alias body) : (set.decl id).types = [body] := by
  rw [Decl.types, h]

theorem BodyAt.eq_target {id : DeclId} {args : List TypeExpr} {b : Members}
    (h : set.BodyAt id args b) (ha : set.isAlias id) : ∃ body, b = .target body := by
  obtain ⟨body, hb⟩ := isAlias_iff.mp ha
  have heq := h.body_eq
  rw [hb] at heq
  exact ⟨_, heq.symm⟩

/-! ### Substitution -/

/-- A step at a type with parameters is a step at every instance. -/
theorem AliasStep.subst (h : set.AliasStep t u) (τ : Bindings) :
    set.AliasStep (t.subst τ) (u.subst τ) := by
  obtain ⟨ha, hb⟩ := h
  rw [TypeExpr.subst_decl]
  exact ⟨ha, hb.subst τ⟩

theorem AliasSteps.subst (h : set.AliasSteps n t u) (τ : Bindings) :
    set.AliasSteps n (t.subst τ) (u.subst τ) := by
  induction h with
  | refl t => exact .refl _
  | step first _ ih => exact .step (first.subst τ) ih

/-- The expansion of an instance is the instance of the expansion, unless this is a parameter. -/
theorem Expands.subst (h : set.Expands t u) (hu : ∀ p, u.head ≠ .typeParam p) (τ : Bindings) :
    set.Expands (t.subst τ) (u.subst τ) := by
  obtain ⟨⟨n, hn, hsteps⟩, hna⟩ := h
  refine ⟨⟨n, hn, hsteps.subst τ⟩, ?_⟩
  obtain ⟨head, args⟩ := u
  have heq : (TypeExpr.mk head args).subst τ = .mk head (args.map (TypeExpr.subst τ)) :=
    TypeExpr.subst_mk_of_ne τ hu args
  rw [heq]
  exact hna

theorem Expands.subst_primitive {p : Primitive} {args : List TypeExpr}
    (h : set.Expands t (.mk (.primitive p) args)) (τ : Bindings) :
    set.Expands (t.subst τ) (.mk (.primitive p) (args.map (TypeExpr.subst τ))) := by
  have hs := h.subst (fun _ hp => by cases hp) τ
  rwa [TypeExpr.subst_primitive] at hs

theorem Expands.subst_decl {id : DeclId} {args : List TypeExpr}
    (h : set.Expands t (.mk (.decl id) args)) (τ : Bindings) :
    set.Expands (t.subst τ) (.mk (.decl id) (args.map (TypeExpr.subst τ))) := by
  have hs := h.subst (fun _ hp => by cases hp) τ
  rwa [TypeExpr.subst_decl] at hs

end ModuleSet

/-! ### The expansion that is computed -/

namespace Graph

variable {set : ModuleSet} {location : Location} {t u : TypeExpr}

@[simp] theorem plain_set : (plain set).set = set := rfl

theorem yields_members {id : DeclId} {args : List TypeExpr} {b : Members} :
    Yields ((plain set).members id args location) b ↔ set.BodyAt id args b :=
  ModuleSet.members_eq_ok_iff

theorem expandFrom_of_not_aliasHead (h : ¬ set.AliasHead t) (fuel : Nat) (seen : List Instance) :
    (plain set).expandFrom location fuel seen t = pure t := by
  obtain ⟨head, args⟩ := t
  rw [expandFrom.eq_def]
  cases head with
  | primitive p => rfl
  | typeParam name => rfl
  | decl id => exact if_neg fun ha => h ⟨id, rfl, ha⟩

/-- One round of the expansion of an alias: a step, if one may still be made. -/
theorem yields_expandFrom_alias {fuel : Nat} {seen : List Instance} {id : DeclId}
    {args : List TypeExpr} (ha : set.isAlias id) :
    Yields ((plain set).expandFrom location fuel seen (.mk (.decl id) args)) u ↔
      ∃ fuel' body, fuel = fuel' + 1 ∧ (id, args) ∉ seen ∧ set.BodyAt id args (.target body) ∧
        Yields ((plain set).expandFrom location fuel' ((id, args) :: seen) body) u := by
  rw [expandFrom.eq_def]
  simp only [TypeExpr.head, TypeExpr.args, plain_set, ha, if_true]
  cases fuel with
  | zero =>
    constructor
    · exact fun h => absurd h not_yields_throw
    · rintro ⟨_, _, h, _⟩
      cases h
  | succ fuel =>
    by_cases hs : (id, args) ∈ seen
    · simp only [hs, if_true]
      constructor
      · exact fun h => absurd h not_yields_throw
      · rintro ⟨_, _, _, hns, _⟩
        exact absurd trivial hns
    · simp only [hs, if_false, yields_bind, yields_members]
      constructor
      · rintro ⟨b, hb, h⟩
        obtain ⟨body, rfl⟩ := hb.eq_target ha
        exact ⟨fuel, body, rfl, not_false, hb, h⟩
      · rintro ⟨_, body, hf, _, hb, h⟩
        cases hf
        exact ⟨_, hb, h⟩

/-- What the expansion returns is reached by alias steps. -/
theorem steps_of_yields_expandFrom {fuel : Nat} {seen : List Instance}
    (h : Yields ((plain set).expandFrom location fuel seen t) u) :
    (∃ n ≤ fuel, set.AliasSteps n t u) ∧ ¬ set.AliasHead u := by
  induction fuel generalizing seen t with
  | zero =>
    by_cases ha : set.AliasHead t
    · obtain ⟨id, hid, ha⟩ := ha
      obtain ⟨head, args⟩ := t
      cases hid
      obtain ⟨_, _, h, _⟩ := (yields_expandFrom_alias ha).mp h
      cases h
    · rw [expandFrom_of_not_aliasHead ha, yields_pure] at h
      exact h ▸ ⟨⟨0, Nat.le_refl 0, .refl t⟩, ha⟩
  | succ fuel ih =>
    by_cases ha : set.AliasHead t
    · obtain ⟨id, hid, ha⟩ := ha
      obtain ⟨head, args⟩ := t
      cases hid
      obtain ⟨_, body, hf, _, hb, h⟩ := (yields_expandFrom_alias ha).mp h
      cases hf
      obtain ⟨⟨n, hn, hsteps⟩, hu⟩ := ih h
      exact ⟨⟨n + 1, Nat.succ_le_succ hn, .step ⟨ha, hb⟩ hsteps⟩, hu⟩
    · rw [expandFrom_of_not_aliasHead ha, yields_pure] at h
      exact h ▸ ⟨⟨0, Nat.zero_le _, .refl t⟩, ha⟩

/-- Steps that end are made by the expansion.  What it has seen are types on the way to `t`, so an
alias that it has seen would lead back to itself. -/
theorem yields_expandFrom_of_steps {n : Nat} (h : set.AliasSteps n t u) (hu : ¬ set.AliasHead u)
    {fuel : Nat} (hn : n ≤ fuel) {seen : List Instance}
    (hseen : ∀ i ∈ seen, ∃ k, set.AliasSteps (k + 1) (.mk (.decl i.1) i.2) t) :
    Yields ((plain set).expandFrom location fuel seen t) u := by
  induction h generalizing fuel seen with
  | refl t =>
    rw [expandFrom_of_not_aliasHead hu]
    exact yields_pure.mpr rfl
  | step first rest ih =>
    obtain ⟨ha, hb⟩ := first
    obtain ⟨fuel, rfl⟩ : ∃ f, fuel = f + 1 := ⟨fuel - 1, by omega⟩
    refine (yields_expandFrom_alias ha).mpr ⟨fuel, _, rfl, ?_, hb, ih hu (by omega) ?_⟩
    · intro hmem
      obtain ⟨k, hk⟩ := hseen _ hmem
      have hendless : set.Endless _ := (ModuleSet.AliasSteps.refl _).endless hk
      exact hu (hendless.aliasHead (.step ⟨ha, hb⟩ rest))
    · intro i hi
      rcases List.mem_cons.mp hi with rfl | hi
      · exact ⟨0, .step ⟨ha, hb⟩ (.refl _)⟩
      · obtain ⟨k, hk⟩ := hseen i hi
        exact ⟨k + 1, hk.trans (.step ⟨ha, hb⟩ (.refl _))⟩

/-- The expansion returns the type with all aliases at its head expanded. -/
theorem yields_expand_iff : Yields ((plain set).expand t location) u ↔ set.Expands t u := by
  constructor
  · intro h
    obtain ⟨hsteps, hu⟩ := steps_of_yields_expandFrom h
    exact ⟨hsteps, hu⟩
  · rintro ⟨⟨n, hn, hsteps⟩, hu⟩
    exact yields_expandFrom_of_steps hsteps hu hn fun _ h => nomatch h

end Graph

end Adl
