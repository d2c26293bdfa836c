import Adl.Proofs.Value.Normalization
import Adl.Value.Defaults

/-!
# Declared — the defaults that a declaration declares

`Graph.defaults` reads each declared default at its type as it is written, so the type parameters
of the declaration stand for themselves there.  `DefaultsOf` says what it returns without saying how
(`yields_defaults_iff`), and a set passes the check of all defaults exactly if each declaration has
such defaults (`yields_allDefaults_iff`).
-/

namespace Adl

variable {set : ModuleSet} {location : Location} {d : Decl} {t : TypeExpr} {l : Literal} {v : Value}

/-! ### Parameters that stand for themselves -/

/-- Every parameter is bound to itself. -/
def ownBindings (ps : List String) : Bindings := ps.map fun p => (p, TypeExpr.param p)

theorem lookup_ownBindings (ps : List String) (p : String) :
    (ownBindings ps).lookup p = if p ∈ ps then some (.param p) else none := by
  induction ps with
  | nil => rfl
  | cons q ps ih =>
    rw [ownBindings, List.map_cons, List.lookup_cons]
    by_cases h : p = q
    · subst h
      simp
    · have hne : (p == q) = false := beq_eq_false_iff_ne.mpr h
      rw [hne]
      show (ownBindings ps).lookup p = _
      rw [ih]
      simp [h]

theorem binds_ownBindings_iff {ps : List String} :
    ModuleSet.Binds (ownBindings ps) t ↔ ∀ p, t.Mentions p → p ∈ ps := by
  refine forall₂_congr fun p _ => ?_
  rw [lookup_ownBindings]
  split_ifs with h <;> simp [h]

/-- Parameters that stand for themselves change nothing. -/
theorem TypeExpr.subst_ownBindings (h : set.Saturated t) (ps : List String) :
    t.subst (ownBindings ps) = t := by
  refine h.subst_eq_self fun p u _ hu => ?_
  rw [lookup_ownBindings] at hu
  split_ifs at hu
  exact (Option.some.inj hu).symm

/-- A literal denotes a value at a type of a declaration, whose parameters stand for themselves. -/
structure OwnDenotes (set : ModuleSet) (d : Decl) (t : TypeExpr) (l : Literal) (v : Value) :
    Prop where
  saturated : set.Saturated t
  bound : ∀ p, t.Mentions p → p ∈ d.typeParams
  denotes : Denotes set maxDefaultDepth l v t

/-- The default of a member, if it declares one. -/
inductive FieldDefault (set : ModuleSet) (d : Decl) (m : Member) : Option Value → Prop
  | none (hm : m.default = none) : FieldDefault set d m none
  | some {l : Literal} {v : Value} (hm : m.default = some l) (h : OwnDenotes set d m.type l v) :
      FieldDefault set d m (some v)

/-- The defaults of the declaration `d`, which has the place `id`, by its body. -/
inductive DefaultsOf (set : ModuleSet) (id : DeclId) (d : Decl) : Body → Defaults → Prop
  | struct {ms : List Member} {vs : List (Option Value)}
      (h : List.Forall₂ (FieldDefault set d) ms vs) : DefaultsOf set id d (.struct ms) ⟨vs, none⟩
  | union (ms : List Member) : DefaultsOf set id d (.union ms) ⟨ms.map fun _ => none, none⟩
  | enum (ms : List Member) : DefaultsOf set id d (.enum ms) ⟨ms.map fun _ => none, none⟩
  | newtype {t : TypeExpr} {l : Literal} {v : Value} (h : OwnDenotes set d t l v) :
      DefaultsOf set id d (.newtype t (some l)) ⟨[], some (.newtype id v)⟩
  | newtype_none (t : TypeExpr) : DefaultsOf set id d (.newtype t none) .empty
  | alias (t : TypeExpr) : DefaultsOf set id d (.alias t) .empty

/-- The default of a field is denoted by what it declares. -/
theorem DefaultsOf.exists_member {id : DeclId} {b : Body} {x : Defaults} {i : Nat}
    (h : DefaultsOf set id d b x) (hv : x.member? i = some v) :
    ∃ ms m l, b = .struct ms ∧ ms[i]? = some m ∧ m.default = some l ∧
      OwnDenotes set d m.type l v := by
  rw [Defaults.member?, Option.join_eq_some_iff] at hv
  have hnone : ∀ ms : List Member, (ms.map fun _ => (none : Option Value))[i]? ≠ some (some v) := by
    intro ms hm
    rw [List.getElem?_map] at hm
    cases hi : ms[i]? <;> simp [hi] at hm
  cases h with
  | @struct ms vs h =>
    obtain ⟨m, hm, hdefault⟩ := forall₂_getElem? h hv
    cases hdefault with
    | @some l v hl hown => exact ⟨ms, m, l, rfl, hm, hl, hown⟩
  | union ms => exact absurd hv (hnone ms)
  | enum ms => exact absurd hv (hnone ms)
  | newtype h => simp at hv
  | newtype_none t => simp [Defaults.empty] at hv
  | «alias» t => simp [Defaults.empty] at hv

/-- The default of a newtype is denoted by what it declares for the target. -/
theorem DefaultsOf.exists_newtype {id : DeclId} {b : Body} {x : Defaults}
    (h : DefaultsOf set id d b x) (hv : x.newtype = some v) :
    ∃ t l w, b = .newtype t (some l) ∧ v = .newtype id w ∧ OwnDenotes set d t l w := by
  cases h with
  | @newtype t l w hown =>
    cases hv
    exact ⟨t, l, w, rfl, rfl, hown⟩
  | struct h => cases hv
  | union ms => cases hv
  | enum ms => cases hv
  | newtype_none t => cases hv
  | «alias» t => cases hv

/-- What a field declares is stored. -/
theorem DefaultsOf.member_of_default {id : DeclId} {ms : List Member} {m : Member} {x : Defaults}
    {i : Nat} (h : DefaultsOf set id d (.struct ms) x) (hm : ms[i]? = some m)
    (hl : m.default = some l) : ∃ v, x.member? i = some v ∧ OwnDenotes set d m.type l v := by
  cases h with
  | @struct ms vs h =>
    obtain ⟨y, hy⟩ := exists_getElem?_of_length_eq h.length_eq.symm hm
    cases (forall₂_iff_getElem?.mp h).2 i m y hm hy with
    | none hnone => cases hnone.symm.trans hl
    | @some l' v hl' hown =>
      cases hl'.symm.trans hl
      exact ⟨v, by rw [Defaults.member?, hy, Option.join_some], hown⟩

/-- What a newtype declares for its target is stored in the newtype. -/
theorem DefaultsOf.newtype_of_default {id : DeclId} {x : Defaults}
    (h : DefaultsOf set id d (.newtype t (some l)) x) :
    ∃ v, x.newtype = some (.newtype id v) ∧ OwnDenotes set d t l v := by
  cases h with
  | newtype hown => exact ⟨_, rfl, hown⟩

namespace Graph

/-! ### One declaration -/

theorem yields_ownValue_iff (hd : set.DistinctNames) :
    Yields ((plain set).ownValue d location t l) v ↔ OwnDenotes set d t l v := by
  have hown : ∀ u, set.instantiate (ownBindings d.typeParams) location t = .ok u ↔
      (set.Saturated t ∧ ∀ p, t.Mentions p → p ∈ d.typeParams) ∧ t = u := by
    intro u
    rw [ModuleSet.instantiate_eq_ok_iff, binds_ownBindings_iff]
    refine and_congr_right fun h => ?_
    rw [TypeExpr.subst_ownBindings h.1]
  unfold ownValue
  dsimp only
  split
  · next u hi =>
    obtain ⟨⟨hs, hb⟩, rfl⟩ := (hown u).mp hi
    exact (yields_normalize_iff hd).trans ⟨fun h => ⟨hs, hb, h⟩, fun h => h.denotes⟩
  · next e hi =>
    refine iff_of_false not_yields_throw fun h => ?_
    cases hi.symm.trans ((hown t).mpr ⟨⟨h.saturated, h.bound⟩, rfl⟩)

theorem yields_fieldDefault_iff (hd : set.DistinctNames) {m : Member} {x : Option Value} :
    Yields ((plain set).fieldDefault d m) x ↔ FieldDefault set d m x := by
  rw [fieldDefault]
  cases hm : m.default with
  | none =>
    rw [yields_pure]
    constructor
    · rintro rfl
      exact .none hm
    · intro h
      cases h with
      | none => rfl
      | some hs _ => cases hm.symm.trans hs
  | some l =>
    rw [yields_map]
    constructor
    · rintro ⟨v, hv, rfl⟩
      exact .some hm ((yields_ownValue_iff hd).mp hv)
    · intro h
      cases h with
      | none hn => cases hm.symm.trans hn
      | @some l' v hs h =>
        cases hm.symm.trans hs
        exact ⟨v, (yields_ownValue_iff hd).mpr h, rfl⟩

/-- What the defaults of a declaration are, and when there are any. -/
theorem yields_defaults_iff (hd : set.DistinctNames) {id : DeclId} {x : Defaults} :
    Yields ((plain set).defaults id) x ↔
      DefaultsOf set id (set.decl id) (set.decl id).body x := by
  rw [defaults, plain_set]
  cases hb : (set.decl id).body with
  | struct ms =>
    simp only [yields_bind, yields_mapM, yields_pure, yields_fieldDefault_iff hd]
    constructor
    · rintro ⟨vs, hvs, rfl⟩
      exact .struct hvs
    · intro h
      cases h with
      | struct h => exact ⟨_, h, rfl⟩
  | union ms =>
    simp only [yields_pure]
    constructor
    · rintro rfl
      exact .union ms
    · rintro ⟨⟩
      rfl
  | enum ms =>
    simp only [yields_pure]
    constructor
    · rintro rfl
      exact .enum ms
    · rintro ⟨⟩
      rfl
  | «alias» t =>
    simp only [yields_pure]
    constructor
    · rintro rfl
      exact .alias t
    · rintro ⟨⟩
      rfl
  | newtype t default =>
    cases default with
    | none =>
      simp only [yields_pure]
      constructor
      · rintro rfl
        exact .newtype_none t
      · rintro ⟨⟩
        rfl
    | some l =>
      simp only [yields_bind, yields_pure, yields_ownValue_iff hd]
      constructor
      · rintro ⟨v, hv, rfl⟩
        exact .newtype hv
      · intro h
        cases h with
        | newtype h => exact ⟨_, h, rfl⟩

end Graph

/-! ### All declarations -/

theorem firstPerModule_eq_nil_iff {errors : List (String × Error)} :
    firstPerModule errors = [] ↔ errors = [] := by
  cases errors with
  | nil => simp [firstPerModule, firstPerModule.go]
  | cons e errors => simp [firstPerModule, firstPerModule.go]

namespace Defaults

/-- The defaults that were read, and the modules where this failed. -/
abbrev Results := List (String × Except Error Defaults)

/-- The errors of results with their modules. -/
def errorsOf (results : Results) : List (String × Error) :=
  results.filterMap fun
    | (_, .ok _) => none
    | (module, .error e) => some (module, e)

/-- The defaults among results. -/
def valuesOf (results : Results) : List Defaults :=
  results.filterMap fun
    | (_, .ok defaults) => some defaults
    | (_, .error _) => none

/-- If there are no errors, every result is the value in its place. -/
theorem errorsOf_eq_nil_iff {f : Decl → Except Error Defaults} {ds : List Decl}
    {xs : List Defaults} :
    errorsOf (ds.map fun d => (d.module, f d)) = [] ∧
        valuesOf (ds.map fun d => (d.module, f d)) = xs ↔
      List.Forall₂ (fun d x => f d = .ok x) ds xs := by
  induction ds generalizing xs with
  | nil => simp [errorsOf, valuesOf, List.forall₂_nil_left_iff, eq_comm]
  | cons d ds ih =>
    rw [List.map_cons, List.forall₂_cons_left_iff]
    cases hf : f d with
    | error e => simp [errorsOf]
    | ok x =>
      have hcons : errorsOf ((d.module, .ok x) :: ds.map fun d => (d.module, f d)) =
            errorsOf (ds.map fun d => (d.module, f d)) ∧
          valuesOf ((d.module, .ok x) :: ds.map fun d => (d.module, f d)) =
            x :: valuesOf (ds.map fun d => (d.module, f d)) := ⟨rfl, rfl⟩
      rw [hcons.1, hcons.2]
      constructor
      · rintro ⟨he, rfl⟩
        exact ⟨x, _, rfl, ih.mp ⟨he, rfl⟩, rfl⟩
      · rintro ⟨y, ys, hy, hys, rfl⟩
        cases hy
        obtain ⟨he, rfl⟩ := ih.mpr hys
        exact ⟨he, rfl⟩

end Defaults

namespace Graph

/-- What is read as the defaults of each declaration. -/
def defaultResults (set : ModuleSet) : Defaults.Results :=
  set.decls.map fun d => (d.module, ((plain set).defaults d.id).run)

theorem allDefaults_plain (set : ModuleSet) :
    (plain set).allDefaults =
      match firstPerModule (Defaults.errorsOf (defaultResults set)) with
      | [] => pure (Defaults.valuesOf (defaultResults set))
      | errors => throw errors := by
  have hresults : (set.decls.mapM fun d => show ExceptT (List Error) Id
      (String × Except Error Defaults) from ExceptT.lift
        ((fun r => (d.module, r)) <$> ((plain set).defaults d.id).run)) =
      pure (defaultResults set) :=
    List.mapM_pure
  rw [allDefaults, plain_set, hresults, pure_bind]
  rfl

/-- The defaults of all declarations are had if those of each declaration are. -/
theorem yields_allDefaults_iff {xs : List Defaults} :
    Yields (plain set).allDefaults xs ↔
      List.Forall₂ (fun d x => Yields ((plain set).defaults d.id) x) set.decls xs := by
  rw [allDefaults_plain]
  refine Iff.trans ?_ Defaults.errorsOf_eq_nil_iff
  change _ ↔ Defaults.errorsOf (defaultResults set) = [] ∧
    Defaults.valuesOf (defaultResults set) = xs
  split
  · next he =>
    have hnil := firstPerModule_eq_nil_iff.mp he
    exact yields_pure.trans ⟨fun h => ⟨hnil, h⟩, fun h => h.2⟩
  · next errors he =>
    exact iff_of_false not_yields_throw fun h => he (firstPerModule_eq_nil_iff.mpr h.1)

end Graph

end Adl
