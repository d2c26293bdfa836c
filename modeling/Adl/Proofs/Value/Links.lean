import Adl.Proofs.Types.Expansion
import Adl.Value.Normalize
import Mathlib.Data.Finset.Card
import Mathlib.Data.Finset.Range
import Mathlib.Tactic.Ring

/-!
# Links — the types that are read at one literal

An alias, a newtype and `Nullable` hand a literal on to another type.  Such a `Link` counts if it
is not an alias, and a chain of links ends at a type that takes the literal apart.  The main
statement is that a chain that ends has at most `chainBound` links that count (`Chain.le_bound`).

The links of a type do not depend on what stands for its parameters, until a parameter is reached.
So the chain of an applied declaration is the chain of its target, and after it possibly that of
one argument.  The chain of a target that ends does not come back to the declaration, since its
length is determined.
-/

namespace Adl

/-- Whether a literal is null. -/
def Literal.isNull : Literal → Bool
  | null => true
  | _ => false

theorem Literal.isNull_eq_false_iff {l : Literal} : l.isNull = false ↔ l ≠ .null := by
  cases l <;> simp [isNull]

/-- The type that a declaration stands for. -/
def Decl.target? (d : Decl) : Option TypeExpr :=
  match d.body with
  | .alias t => some t
  | .newtype t _ => some t
  | _ => none

namespace ModuleSet

variable (set : ModuleSet) (null : Bool)

/-- A literal that is read at the first type is read at the second one next; the number is how
much this counts.  `null` tells whether the literal is null. -/
inductive Link : TypeExpr → Nat → TypeExpr → Prop
  | alias {t u : TypeExpr} (h : set.AliasStep t u) : Link t 0 u
  | newtype {id : DeclId} {args : List TypeExpr} {target type : TypeExpr}
      {default : Option Literal} (hbody : (set.decl id).body = .newtype target default)
      (h : set.BodyAt id args (.target type)) : Link (.mk (.decl id) args) 1 type
  | nullable {elem : TypeExpr} {rest : List TypeExpr} (h : null = false) :
      Link (.mk (.primitive .nullable) (elem :: rest)) 1 elem

/-- The literal is handed on by no link. -/
def Last (t : TypeExpr) : Prop := ∀ c u, ¬ set.Link null t c u

/-- A number of links, and how much they count. -/
inductive Chain : Nat → Nat → TypeExpr → TypeExpr → Prop
  | refl (t : TypeExpr) : Chain 0 0 t t
  | link {s c k : Nat} {t u v : TypeExpr} (first : set.Link null t c u) (rest : Chain s k u v) :
      Chain (s + 1) (c + k) t v

variable {set null} {t u v : TypeExpr} {c c' s s' k k' : Nat} {σ : Bindings}

/-! ### One link -/

theorem BodyAt.target_eq {id : DeclId} {args : List TypeExpr} (h : set.BodyAt id args (.target u)) :
    ∃ t, (set.decl id).target? = some t ∧ u = t.subst ((set.decl id).typeParams.zip args) := by
  have heq := h.body_eq
  unfold Decl.target?
  cases hb : (set.decl id).body with
  | struct ms => rw [hb] at heq; cases heq
  | union ms => rw [hb] at heq; cases heq
  | enum ms => rw [hb] at heq; cases heq
  | «alias» t =>
    rw [hb] at heq
    cases heq
    exact ⟨t, rfl, rfl⟩
  | newtype t d =>
    rw [hb] at heq
    cases heq
    exact ⟨t, rfl, rfl⟩

theorem not_isAlias_of_newtype {id : DeclId} {t : TypeExpr} {d : Option Literal}
    (hb : (set.decl id).body = .newtype t d) : set.isAlias id = false := by
  rw [isAlias, Decl.isAlias, hb]

theorem Link.deterministic (h : set.Link null t c u) (h' : set.Link null t c' v) :
    c = c' ∧ u = v := by
  cases h with
  | «alias» h =>
    cases h' with
    | «alias» h' => exact ⟨rfl, h.deterministic h'⟩
    | newtype hb _ =>
      obtain ⟨ha, -⟩ := h
      rw [not_isAlias_of_newtype hb] at ha
      cases ha
    | nullable _ => cases h
  | newtype hb h =>
    cases h' with
    | «alias» h' =>
      obtain ⟨ha, -⟩ := h'
      rw [not_isAlias_of_newtype hb] at ha
      cases ha
    | newtype _ h' => exact ⟨rfl, Members.target.inj (h.unique h')⟩
  | nullable _ =>
    cases h' with
    | «alias» h' => cases h'
    | nullable _ => exact ⟨rfl, rfl⟩

theorem last_typeParam (name : String) (args : List TypeExpr) :
    set.Last null (.mk (.typeParam name) args) := by
  intro c u h
  cases h with
  | «alias» h => cases h

/-! ### Where chains end -/

theorem last_of_primitive {p : Primitive} {args : List TypeExpr} (h : p ≠ .nullable) :
    set.Last null (.mk (.primitive p) args) := by
  intro c u hl
  cases hl with
  | «alias» hl => cases hl
  | nullable _ => exact h rfl

theorem last_of_null {args : List TypeExpr} :
    set.Last true (.mk (.primitive .nullable) args) := by
  intro c u hl
  cases hl with
  | «alias» hl => cases hl
  | nullable h => cases h

/-- A declaration that stands for no type takes the literal apart. -/
theorem last_of_target?_eq_none {id : DeclId} {args : List TypeExpr}
    (h : (set.decl id).target? = none) : set.Last null (.mk (.decl id) args) := by
  intro c u hl
  cases hl with
  | «alias» hl =>
    obtain ⟨-, hb⟩ := hl
    obtain ⟨t, ht, -⟩ := hb.target_eq
    cases h.symm.trans ht
  | newtype _ hb =>
    obtain ⟨t, ht, -⟩ := hb.target_eq
    cases h.symm.trans ht

theorem last_of_struct {id : DeclId} {args : List TypeExpr} {ms : List Member}
    (h : (set.decl id).body = .struct ms) : set.Last null (.mk (.decl id) args) :=
  last_of_target?_eq_none (by rw [Decl.target?, h])

theorem last_of_union {id : DeclId} {args : List TypeExpr} {ms : List Member}
    (h : (set.decl id).body = .union ms) : set.Last null (.mk (.decl id) args) :=
  last_of_target?_eq_none (by rw [Decl.target?, h])

theorem last_of_enum {id : DeclId} {args : List TypeExpr} {ms : List Member}
    (h : (set.decl id).body = .enum ms) : set.Last null (.mk (.decl id) args) :=
  last_of_target?_eq_none (by rw [Decl.target?, h])

/-! ### Substitution -/

/-- A link stays when types are put in place of parameters. -/
theorem Link.subst (h : set.Link null t c u) (σ : Bindings) :
    set.Link null (t.subst σ) c (u.subst σ) := by
  cases h with
  | «alias» h => exact .alias (h.subst σ)
  | newtype hb h =>
    rw [TypeExpr.subst_decl]
    exact .newtype hb (h.subst σ)
  | nullable h =>
    rw [TypeExpr.subst_primitive]
    exact .nullable h

/-- A link of a type with other types in place of its parameters is a link of the type itself,
unless this is a parameter. -/
theorem Link.of_subst (h : set.Link null (t.subst σ) c v) (ht : ∀ p, t.head ≠ .typeParam p) :
    ∃ u, set.Link null t c u ∧ v = u.subst σ := by
  obtain ⟨head, args⟩ := t
  have hsubst : (TypeExpr.mk head args).subst σ = .mk head (args.map (TypeExpr.subst σ)) :=
    TypeExpr.subst_mk_of_ne σ ht args
  rw [hsubst] at h
  generalize hargs : args.map (TypeExpr.subst σ) = args' at h
  cases h with
  | «alias» h =>
    obtain ⟨ha, hb⟩ := h
    rw [← hargs] at hb
    obtain ⟨b, hb', heq⟩ := hb.of_subst
    obtain ⟨body, rfl⟩ := hb'.eq_target ha
    exact ⟨body, .alias ⟨ha, hb'⟩, Members.target.inj heq⟩
  | newtype hbody h =>
    rw [← hargs] at h
    obtain ⟨b, hb', heq⟩ := h.of_subst
    cases b with
    | fields _ => cases heq
    | target type => exact ⟨type, .newtype hbody hb', Members.target.inj heq⟩
  | nullable h =>
    obtain ⟨elem, rest, rfl, rfl, -⟩ := List.map_eq_cons_iff.mp hargs
    exact ⟨elem, .nullable h, rfl⟩

/-! ### Chains -/

theorem Chain.trans (h : set.Chain null s k t u) (h' : set.Chain null s' k' u v) :
    set.Chain null (s + s') (k + k') t v := by
  induction h with
  | refl t => rwa [Nat.zero_add, Nat.zero_add]
  | @link s c k _ _ _ first _ ih =>
    rw [Nat.add_right_comm s 1 s', Nat.add_assoc c k k']
    exact .link first (ih h')

/-- The expansion of aliases is a chain that counts nothing. -/
theorem Expands.chain (h : set.Expands t u) (null : Bool) : ∃ s, set.Chain null s 0 t u := by
  obtain ⟨⟨n, -, hn⟩, -⟩ := h
  refine ⟨n, ?_⟩
  induction hn with
  | refl t => exact .refl t
  | step first _ ih => exact .link (.alias first) ih

/-- Where a chain ends, how long it is and how much it counts is determined. -/
theorem Chain.unique (h : set.Chain null s k t u) (h' : set.Chain null s' k' t v)
    (hu : set.Last null u) (hv : set.Last null v) : s = s' ∧ k = k' ∧ u = v := by
  induction h generalizing s' k' with
  | refl t =>
    cases h' with
    | refl => exact ⟨rfl, rfl, rfl⟩
    | link first _ => exact absurd first (hu _ _)
  | link first _ ih =>
    cases h' with
    | refl => exact absurd first (hv _ _)
    | link first' rest' =>
      obtain ⟨rfl, rfl⟩ := first.deterministic first'
      obtain ⟨rfl, rfl, rfl⟩ := ih rest' hu
      exact ⟨rfl, rfl, rfl⟩

/-- A chain begins with the chain of the type before substitution.  What follows is the chain of
what stands for a parameter, or nothing. -/
theorem Chain.of_subst (h : set.Chain null s k (t.subst σ) v) (hv : set.Last null v) :
    ∃ s₁ k₁ u s₂ k₂, set.Chain null s₁ k₁ t u ∧ set.Last null u ∧
      set.Chain null s₂ k₂ (u.subst σ) v ∧ s = s₁ + s₂ ∧ k = k₁ + k₂ ∧
      (k₂ = 0 ∨ ∃ p, u.head = .typeParam p) := by
  induction s generalizing t k with
  | zero =>
    cases h with
    | refl =>
      refine ⟨0, 0, t, 0, 0, .refl t, fun c u hl => hv _ _ (hl.subst σ), .refl _, rfl, rfl, ?_⟩
      exact .inl rfl
  | succ s ih =>
    by_cases ht : ∀ p, t.head ≠ .typeParam p
    · cases h with
      | link first rest =>
        obtain ⟨u, first', rfl⟩ := first.of_subst ht
        obtain ⟨s₁, k₁, w, s₂, k₂, h₁, hw, h₂, rfl, rfl, hp⟩ := ih rest
        exact ⟨s₁ + 1, _, w, s₂, k₂, .link first' h₁, hw, h₂, by omega, by omega, hp⟩
    · obtain ⟨p, hp⟩ := not_forall_not.mp ht
      obtain ⟨head, args⟩ := t
      cases hp
      exact ⟨0, 0, _, s + 1, k, .refl _, last_typeParam p args, h, by omega, by omega,
        .inr ⟨p, rfl⟩⟩

/-! ### How long a chain is -/

/-- The target of a declaration has a chain of less than `s` links that ends. -/
def EndsWithin (set : ModuleSet) (null : Bool) (s : Nat) (id : DeclId) : Prop :=
  ∃ t, (set.decl id).target? = some t ∧
    ∃ s' < s, ∃ k u, set.Chain null s' k t u ∧ set.Last null u

theorem EndsWithin.mono {id : DeclId} (h : set.EndsWithin null s id) (hs : s ≤ s') :
    set.EndsWithin null s' id := by
  obtain ⟨t, ht, r, hr, hc⟩ := h
  exact ⟨t, ht, r, Nat.lt_of_lt_of_le hr hs, hc⟩

theorem lt_length_of_target? {id : DeclId} (h : (set.decl id).target? = some t) :
    id < set.decls.length := by
  by_contra hlt
  rw [decl, List.getElem?_eq_none (Nat.le_of_not_lt hlt)] at h
  cases h

open Classical in
/-- The declarations whose targets have a chain of less than `s` links that ends. -/
noncomputable def shorter (set : ModuleSet) (null : Bool) (s : Nat) : Finset DeclId :=
  (Finset.range set.decls.length).filter (set.EndsWithin null s)

theorem mem_shorter {id : DeclId} : id ∈ set.shorter null s ↔ set.EndsWithin null s id := by
  classical
  rw [shorter, Finset.mem_filter, Finset.mem_range]
  refine ⟨fun h => h.2, fun h => ⟨?_, h⟩⟩
  obtain ⟨t, ht, -⟩ := h
  exact lt_length_of_target? ht

theorem shorter_subset (h : s ≤ s') : set.shorter null s ⊆ set.shorter null s' :=
  fun _ hid => mem_shorter.mpr ((mem_shorter.mp hid).mono h)

theorem card_shorter_le : (set.shorter null s).card ≤ set.decls.length := by
  classical
  calc (set.shorter null s).card
      ≤ (Finset.range set.decls.length).card := Finset.card_filter_le _ _
    _ = set.decls.length := Finset.card_range _

/-- A declaration whose target has a chain of `s` links does not count for its own chain. -/
theorem card_shorter_lt {id : DeclId} (ht : (set.decl id).target? = some t)
    (h : set.Chain null s k t u) (hu : set.Last null u) (hs : s < s') :
    (set.shorter null s).card < (set.shorter null s').card := by
  refine Finset.card_lt_card ⟨shorter_subset (Nat.le_of_lt hs), fun hsub => ?_⟩
  have hmem : id ∈ set.shorter null s' := mem_shorter.mpr ⟨t, ht, s, hs, k, u, h, hu⟩
  obtain ⟨t', ht', r, hr, _, _, hr', hu'⟩ := mem_shorter.mp (hsub hmem)
  cases ht.symm.trans ht'
  obtain ⟨rfl, -, -⟩ := h.unique hr' hu hu'
  exact Nat.lt_irrefl _ hr

/-- The size of the largest target. -/
def largest (set : ModuleSet) : Nat := (set.decls.map targetSize).foldl max 0

theorem le_foldl_max {n : Nat} {ns : List Nat} (a : Nat) (h : n ∈ ns) : n ≤ ns.foldl max a := by
  have hle : ∀ (ns : List Nat) (a : Nat), a ≤ ns.foldl max a := by
    intro ns
    induction ns with
    | nil => exact fun a => Nat.le_refl a
    | cons m ns ih => exact fun a => Nat.le_trans (Nat.le_max_left a m) (ih (max a m))
  induction ns generalizing a with
  | nil => cases h
  | cons m ns ih =>
    rcases List.mem_cons.mp h with rfl | h
    · exact Nat.le_trans (Nat.le_max_right a n) (hle ns (max a n))
    · exact ih (max a m) h

theorem size_le_largest {id : DeclId} (h : (set.decl id).target? = some t) :
    t.size ≤ set.largest := by
  have hlt := lt_length_of_target? h
  have hsize : targetSize (set.decl id) = t.size := by
    unfold Decl.target? at h
    unfold targetSize
    generalize (set.decl id).body = body at h
    cases body with
    | struct ms => cases h
    | union ms => cases h
    | enum ms => cases h
    | «alias» u => exact congrArg TypeExpr.size (Option.some.inj h)
    | newtype u d => exact congrArg TypeExpr.size (Option.some.inj h)
  rw [← hsize]
  refine le_foldl_max 0 (List.mem_map_of_mem ?_)
  rw [decl, List.getElem?_eq_getElem hlt]
  exact List.getElem_mem hlt

theorem size_pos (t : TypeExpr) : 0 < t.size := by
  cases t with
  | mk head args => exact Nat.succ_pos _

theorem size_lt_of_mem {head : TypeRef} {args : List TypeExpr} (h : t ∈ args) :
    t.size < (TypeExpr.mk head args).size := by
  have hle : ∀ ts : List TypeExpr, t ∈ ts → t.size ≤ TypeExpr.sizes ts := by
    intro ts
    induction ts with
    | nil => exact fun h => nomatch h
    | cons u ts ih =>
      intro h
      rw [TypeExpr.sizes]
      rcases List.mem_cons.mp h with rfl | h
      · exact Nat.le_add_right _ _
      · exact Nat.le_trans (ih h) (Nat.le_add_left _ _)
  rw [TypeExpr.size]
  exact Nat.lt_succ_of_le (hle args h)

/-- A chain through the target of a declaration counts at most as much as the chain of the target,
and then that of an argument. -/
theorem Chain.of_target {id : DeclId} {args : List TypeExpr}
    (hb : set.BodyAt id args (.target t)) (h : set.Chain null s k t v) (hv : set.Last null v) :
    ∃ body s₁ k₁ u, (set.decl id).target? = some body ∧ set.Chain null s₁ k₁ body u ∧
      set.Last null u ∧ s₁ ≤ s ∧
      (k = k₁ ∨ ∃ arg ∈ args, ∃ s₂ ≤ s, ∃ k₂, set.Chain null s₂ k₂ arg v ∧ k = k₁ + k₂) := by
  obtain ⟨body, hbody, rfl⟩ := hb.target_eq
  obtain ⟨s₁, k₁, u, s₂, k₂, h₁, hu, h₂, rfl, rfl, hp⟩ := h.of_subst hv
  refine ⟨body, s₁, k₁, u, hbody, h₁, hu, Nat.le_add_right _ _, ?_⟩
  rcases hp with rfl | ⟨p, hp⟩
  · exact .inl rfl
  · obtain ⟨head, args'⟩ := u
    cases hp
    rw [TypeExpr.subst_typeParam] at h₂
    cases hl : ((set.decl id).typeParams.zip args).lookup p with
    | none =>
      rw [hl] at h₂
      cases h₂ with
      | refl => exact .inl rfl
      | link first _ => exact absurd first (last_typeParam p args' _ _)
    | some arg =>
      rw [hl] at h₂
      have harg : arg ∈ args := (List.of_mem_zip (mem_of_lookup hl)).2
      exact .inr ⟨arg, harg, s₂, by omega, k₂, h₂, rfl⟩

/-- One link, the chain of a target and the chain of an argument count less than the bound of the
applied type. -/
theorem applied_le_pow {largest body arg applied n n₁ k₁ k₂ : Nat} (hbody : body ≤ largest)
    (hn : n₁ < n) (hc : c ≤ 1) (hk₁ : k₁ ≤ body * (largest + 2) ^ n₁)
    (harg : arg < applied) (hk₂ : k₂ ≤ arg * (largest + 2) ^ n) :
    c + (k₁ + k₂) ≤ applied * (largest + 2) ^ n := by
  have hpos : 1 ≤ (largest + 2) ^ n₁ := Nat.one_le_pow _ _ (by omega)
  have htarget : c + k₁ ≤ (largest + 2) ^ n :=
    calc c + k₁ ≤ (largest + 2) ^ n₁ + largest * (largest + 2) ^ n₁ :=
          Nat.add_le_add (Nat.le_trans hc hpos)
            (Nat.le_trans hk₁ (Nat.mul_le_mul_right _ hbody))
      _ = (largest + 1) * (largest + 2) ^ n₁ := by ring
      _ ≤ (largest + 2) * (largest + 2) ^ n₁ := Nat.mul_le_mul_right _ (by omega)
      _ = (largest + 2) ^ (n₁ + 1) := by ring
      _ ≤ (largest + 2) ^ n := Nat.pow_le_pow_right (by omega) hn
  calc c + (k₁ + k₂) = (c + k₁) + k₂ := by omega
    _ ≤ (largest + 2) ^ n + arg * (largest + 2) ^ n := Nat.add_le_add htarget hk₂
    _ = (arg + 1) * (largest + 2) ^ n := by ring
    _ ≤ applied * (largest + 2) ^ n := Nat.mul_le_mul_right _ harg

theorem one_add_le_mul {inner outer b : Nat} (h : inner < outer) (hb : 1 ≤ b)
    (hk : k ≤ inner * b) : 1 + k ≤ outer * b :=
  calc 1 + k ≤ b + inner * b := Nat.add_le_add hb hk
    _ = (inner + 1) * b := by ring
    _ ≤ outer * b := Nat.mul_le_mul_right _ h

/-- The bound of a type grows with the number of declarations that count. -/
theorem mul_pow_card_le {size : Nat} (h : s ≤ s') :
    size * (set.largest + 2) ^ (set.shorter null s).card ≤
      size * (set.largest + 2) ^ (set.shorter null s').card :=
  Nat.mul_le_mul_left _ (Nat.pow_le_pow_right (by omega) (Finset.card_le_card (shorter_subset h)))

/-- A chain that ends counts at most as much as the size of the type, times a power of the largest
target: one factor for each declaration with a shorter chain. -/
theorem Chain.le_pow (h : set.Chain null s k t v) (hv : set.Last null v) :
    k ≤ t.size * (set.largest + 2) ^ (set.shorter null s).card := by
  induction s using Nat.strongRecOn generalizing t k v with
  | ind s ih =>
    -- A link through a declaration, after which the chain of the target is a shorter one.
    have through : ∀ {id args c body s' k'}, c ≤ 1 → set.BodyAt id args (.target body) →
        set.Chain null s' k' body v → s = s' + 1 →
        c + k' ≤ (TypeExpr.mk (.decl id) args).size *
          (set.largest + 2) ^ (set.shorter null s).card := by
      rintro id args c body s' k' hc hb hrest rfl
      obtain ⟨target, s₁, k₁, u, htarget, h₁, hu, hs₁, hk⟩ := hrest.of_target hb hv
      have hlt : (set.shorter null s₁).card < (set.shorter null (s' + 1)).card :=
        card_shorter_lt htarget h₁ hu (Nat.lt_succ_of_le hs₁)
      have hk₁ := ih s₁ (by omega) h₁ hu
      rcases hk with rfl | ⟨arg, harg, s₂, hs₂, k₂, h₂, rfl⟩
      · exact applied_le_pow (size_le_largest htarget) hlt hc hk₁ (size_pos _) (Nat.zero_le _)
      · refine applied_le_pow (size_le_largest htarget) hlt hc hk₁ (size_lt_of_mem harg) ?_
        exact Nat.le_trans (ih s₂ (by omega) h₂ hv) (mul_pow_card_le (by omega))
    cases h with
    | refl => exact Nat.zero_le _
    | @link r _ _ _ _ _ first rest =>
      cases first with
      | «alias» h =>
        obtain ⟨-, hb⟩ := h
        exact through (Nat.zero_le 1) hb rest rfl
      | newtype _ hb => exact through (Nat.le_refl 1) hb rest rfl
      | nullable _ =>
        refine one_add_le_mul (size_lt_of_mem List.mem_cons_self) (Nat.one_le_pow _ _ (by omega)) ?_
        exact Nat.le_trans (ih r (by omega) rest hv) (mul_pow_card_le (by omega))

/-- A chain that ends counts at most as much as is allowed for. -/
theorem Chain.le_bound (h : set.Chain null s k t v) (hv : set.Last null v) :
    k ≤ set.chainBound t :=
  calc k ≤ t.size * (set.largest + 2) ^ (set.shorter null s).card := h.le_pow hv
    _ ≤ (t.size + 1) * (set.largest + 2) ^ (set.decls.length + 1) :=
      Nat.mul_le_mul (Nat.le_succ _)
        (Nat.pow_le_pow_right (by omega) (Nat.le_succ_of_le card_shorter_le))

end ModuleSet

end Adl
