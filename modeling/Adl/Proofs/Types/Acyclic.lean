import Adl.Proofs.Types.Checked

/-!
# Acyclic — aliases that do not lead back to themselves

The check of a declaration follows the aliases that it mentions, at any depth of arguments, and
counts how many bodies it is inside of; the expansion of a type follows the aliases at its head
only, and counts how often it replaces one.  In a set that passes the check no alias leads back to
itself (`wellFounded_aliasUse`), and so no type can be expanded for ever, whatever its arguments are
(`wellFounded_aliasStep`).  But aliases that use a parameter twice need many more steps than there
are aliases inside each other: the expansion succeeds exactly if there are at most `maxAliasDepth`
steps (`expand_of_checkAll`).
-/

namespace Adl

/-- A declaration is applied somewhere in a type. -/
inductive TypeExpr.Applies (id : DeclId) : TypeExpr → Prop
  | head (args : List TypeExpr) : Applies id (.mk (.decl id) args)
  | arg {head : TypeRef} {args : List TypeExpr} {t : TypeExpr} (ht : t ∈ args)
      (h : Applies id t) : Applies id (.mk head args)

namespace ModuleSet

/-- The body of the alias `a` applies the alias `b`. -/
def AliasUse (set : ModuleSet) (a b : DeclId) : Prop :=
  set.isAlias b ∧ ∃ body, (set.decl a).body = .alias body ∧ body.Applies b

variable {set : ModuleSet} {location : Location} {id : DeclId} {t u : TypeExpr}

/-! ### What the check says of aliases -/

/-- A type passes if it is saturated and all aliases that are applied in it can be entered. -/
theorem checkType_eq_ok_iff_applies {enter : DeclId → Except TypeError Unit} :
    set.checkType location enter t = .ok () ↔
      set.Saturated t ∧ ∀ id, t.Applies id → set.isAlias id → enter id = .ok () := by
  induction t with
  | mk head args ih =>
    rw [checkType_eq_ok_iff, checkTypes_eq_ok_iff, saturated_mk_iff]
    constructor
    · rintro ⟨hlen, hargs, hhead⟩
      refine ⟨⟨hlen, fun t ht => ((ih t ht).mp (hargs t ht)).1⟩, fun id happlies ha => ?_⟩
      cases happlies with
      | head => exact hhead id rfl ha
      | arg ht h => exact ((ih _ ht).mp (hargs _ ht)).2 id h ha
    · rintro ⟨⟨hlen, hargs⟩, henter⟩
      refine ⟨hlen, fun t ht => (ih t ht).mpr ⟨hargs t ht, ?_⟩, ?_⟩
      · exact fun id h => henter id (.arg ht h)
      · rintro id rfl
        exact henter id (.head args)

/-- The check of an alias gets to an end, so the aliases it leads to do.  The induction is on how
many aliases may be inside each other. -/
theorem acc_of_checkAlias {fuel : Nat} {outer : List DeclId}
    (h : set.checkAlias location fuel outer id = .ok ()) :
    Acc (fun b a => set.AliasUse a b) id := by
  induction fuel generalizing outer id with
  | zero => cases h
  | succ fuel ih =>
    refine .intro _ fun b ⟨hb, body, hbody, happlies⟩ => ?_
    rw [checkAlias] at h
    split at h
    · cases h
    · rw [hbody] at h
      exact ih ((checkType_eq_ok_iff_applies.mp h).2 b happlies hb)

theorem checkAlias_of_checkDecl (h : set.checkDecl id = .ok ()) (ha : set.isAlias id) :
    set.checkAlias (set.decl id).location maxAliasDepth [] id = .ok () := by
  obtain ⟨body, hb⟩ := isAlias_iff.mp ha
  rw [checkDecl, hb] at h
  exact (checkType_eq_ok_iff_applies.mp h).2 id (.head _) ha

/-- There are no aliases where there are no declarations. -/
theorem lt_length_of_isAlias (ha : set.isAlias id) : id < set.decls.length := by
  by_contra hlt
  rw [isAlias, decl, List.getElem?_eq_none (Nat.le_of_not_lt hlt)] at ha
  cases ha

/-- In a checked set no alias leads back to itself. -/
theorem wellFounded_aliasUse (h : set.checkAll = .ok ())
    (hid : ∀ (i : DeclId) (d : Decl), set.decls[i]? = some d → d.id = i) :
    WellFounded fun b a => set.AliasUse a b := by
  refine ⟨fun a => .intro _ fun b ⟨hb, _⟩ => ?_⟩
  have hget := List.getElem?_eq_getElem (lt_length_of_isAlias hb)
  have hcheck := checkDecl_of_checkAll h (List.getElem_mem (lt_length_of_isAlias hb))
  rw [hid b _ hget] at hcheck
  exact acc_of_checkAlias (checkAlias_of_checkDecl hcheck hb)

/-! ### Alias steps end -/

/-- The steps from a type end. -/
abbrev Ends (set : ModuleSet) (t : TypeExpr) : Prop := Acc (fun u t => set.AliasStep t u) t

/-- The steps from an alias end, if those from its arguments do. -/
def EndsApplied (set : ModuleSet) (id : DeclId) : Prop :=
  ∀ args, (∀ t ∈ args, set.Ends t) → set.Ends (.mk (.decl id) args)

theorem BodyAt.alias_eq {args : List TypeExpr} (h : set.BodyAt id args (.target u))
    (ha : set.isAlias id) : ∃ body, (set.decl id).body = .alias body ∧
      body.subst ((set.decl id).typeParams.zip args) = u := by
  obtain ⟨body, hb⟩ := isAlias_iff.mp ha
  have heq := h.body_eq
  rw [hb] at heq
  exact ⟨body, hb, Members.target.inj heq⟩

theorem ends_of_not_aliasHead (h : ¬ set.AliasHead t) : set.Ends t :=
  .intro _ fun _ hstep => absurd hstep.aliasHead h

/-- A type ends if its arguments do, and its head does when it is an alias. -/
theorem ends_mk {head : TypeRef} {args : List TypeExpr} (hargs : ∀ t ∈ args, set.Ends t)
    (hhead : ∀ id, head = .decl id → set.isAlias id → set.EndsApplied id) :
    set.Ends (.mk head args) := by
  by_cases ha : set.AliasHead (.mk head args)
  · obtain ⟨id, rfl, ha⟩ := ha
    exact hhead id rfl ha args hargs
  · exact ends_of_not_aliasHead ha

/-- Putting types that end in place of parameters gives a type that ends. -/
theorem ends_subst {σ : Bindings} (hσ : ∀ b ∈ σ, set.Ends b.2)
    (h : ∀ id, t.Applies id → set.isAlias id → set.EndsApplied id) : set.Ends (t.subst σ) := by
  induction t with
  | mk head args ih =>
    by_cases hh : ∀ p, head ≠ .typeParam p
    · rw [TypeExpr.subst_mk_of_ne σ hh]
      refine ends_mk (List.forall_mem_map.mpr fun t ht => ?_) ?_
      · exact ih t ht fun id happlies => h id (.arg ht happlies)
      · rintro id rfl
        exact h id (.head args)
    · obtain ⟨name, rfl⟩ := not_forall_not.mp hh
      rw [TypeExpr.subst_typeParam]
      cases hl : σ.lookup name with
      | none => exact ends_of_not_aliasHead fun ⟨_, hid, _⟩ => by cases hid
      | some u => exact hσ (name, u) (mem_of_lookup hl)

/-- Where no alias leads back to itself, every alias ends.  The induction is on the aliases that it
uses. -/
theorem endsApplied (hwf : WellFounded fun b a => set.AliasUse a b) (id : DeclId) :
    set.EndsApplied id := by
  induction id using hwf.induction with
  | h id ih =>
    refine fun args hargs => .intro _ fun u hstep => ?_
    obtain ⟨ha, hb⟩ := hstep
    obtain ⟨body, hbody, rfl⟩ := hb.alias_eq ha
    refine ends_subst (fun b hb => hargs b.2 (List.of_mem_zip hb).2) fun b happlies hb => ?_
    exact ih b ⟨hb, body, hbody, happlies⟩

/-- Where no alias leads back to itself, no type can be expanded for ever. -/
theorem wellFounded_aliasStep (hwf : WellFounded fun b a => set.AliasUse a b) :
    WellFounded fun u t => set.AliasStep t u := by
  refine ⟨fun t => ?_⟩
  induction t with
  | mk head args ih => exact ends_mk ih fun id _ _ => endsApplied hwf id

/-- A saturated type that ends does so where there is no alias at its head. -/
theorem exists_aliasSteps (hproper : ∀ id, set.Proper (set.decl id)) (h : set.Ends t)
    (ht : set.Saturated t) : ∃ n u, set.AliasSteps n t u ∧ ¬ set.AliasHead u := by
  induction h with
  | intro t _ ih =>
    by_cases ha : set.AliasHead t
    · obtain ⟨id, hid, ha⟩ := ha
      obtain ⟨head, args⟩ := t
      obtain rfl : head = .decl id := hid
      have hb : set.BodyAt id args _ := ⟨(saturated_mk_iff.mp ht).1, hproper id, rfl⟩
      obtain ⟨body, hbody⟩ := hb.eq_target ha
      rw [hbody] at hb
      have hstep : set.AliasStep (.mk (.decl id) args) body := ⟨ha, hb⟩
      obtain ⟨n, u, hsteps, hu⟩ := ih body hstep ((AliasSteps.step hstep (.refl _)).saturated ht)
      exact ⟨n + 1, u, .step hstep hsteps, hu⟩
    · exact ⟨0, t, .refl t, ha⟩

end ModuleSet

/-! ### Main statement -/

variable {modules : List Source.Module} {set : ModuleSet}

/-- In a set that passes the check, no type can be expanded for ever.  The steps from a saturated
type lead to a type with no alias at its head, and this is what the expansion returns, unless more
than `maxAliasDepth` steps lead there.  The expansion of any type is cut off in this case only. -/
theorem expand_of_checkAll (hset : ModuleSet.resolve modules = .ok set)
    (hcheck : set.checkAll = .ok ()) :
    (WellFounded fun u t => set.AliasStep t u) ∧
      (∀ t location, set.Saturated t → ∃ n u, set.AliasSteps n t u ∧ ¬ set.AliasHead u ∧
        (n ≤ maxAliasDepth → ((Graph.plain set).expand t location).run = .ok u) ∧
        (maxAliasDepth < n → ∃ id, set.isAlias id ∧ ((Graph.plain set).expand t location).run =
          .error (.infiniteAlias location (set.scopedName id).text))) ∧
      ∀ t location location' name, ((Graph.plain set).expand t location).run =
          .error (.infiniteAlias location' name) →
        ∃ u, set.AliasSteps maxAliasDepth t u ∧ set.AliasHead u := by
  have hr := resolve_eq_ok_iff.mp hset
  have hproper := ModuleSet.proper_of_checkAll hr hcheck
  have hwf := ModuleSet.wellFounded_aliasStep
    (ModuleSet.wellFounded_aliasUse hcheck fun _ _ => hr.id_eq)
  refine ⟨hwf, fun t location ht => ?_, fun t location location' name h => ?_⟩
  · obtain ⟨n, u, hsteps, hu⟩ := ModuleSet.exists_aliasSteps hproper (hwf.apply t) ht
    refine ⟨n, u, hsteps, hu, fun hn => ?_, fun hn => ?_⟩
    · exact Graph.yields_expand_iff.mpr ⟨⟨n, hn, hsteps⟩, hu⟩
    · cases he : ((Graph.plain set).expand t location).run with
      | ok v =>
        obtain ⟨⟨k, hk, hsteps'⟩, hv⟩ := Graph.yields_expand_iff.mp he
        obtain ⟨rfl, -⟩ := hsteps.unique_end hsteps' hu hv
        exact absurd hk (Nat.not_le_of_lt hn)
      | error e =>
        obtain ⟨id, ha, rfl⟩ := ModuleSet.error_of_expand hproper ht he
        exact ⟨id, ha, rfl⟩
  · exact Graph.exists_aliasHead_of_infiniteAlias h

/-- The module of `type A<T> = T; type B<T> = A<A<T>>; type C<T> = B<B<T>>;` and so on until `G`, as
it is parsed. -/
def squaresModule : Source.Module :=
  let param : Source.TypeExpr := .mk "T" [] .start
  let square (name inner : String) : Source.Decl :=
    ⟨name, ["T"], [], .alias (.mk inner [.mk inner [param] .start] .start), .start⟩
  ⟨"squares", [], [⟨"A", ["T"], [], .alias param, .start⟩, square "B" "A", square "C" "B",
    square "D" "C", square "E" "D", square "F" "E", square "G" "F"], []⟩

/-- What `squaresModule` resolves to. -/
def squaresSet : ModuleSet :=
  let square (id : DeclId) (name : String) : Decl :=
    ⟨id + 1, "squares", name, ["T"], [], .alias (.mk (.decl id) [.mk (.decl id) [.param "T"]])⟩
  ⟨[⟨"squares", [], [0, 1, 2, 3, 4, 5, 6], []⟩],
    [⟨0, "squares", "A", ["T"], [], .alias (.param "T")⟩, square 0 "B", square 1 "C", square 2 "D",
      square 3 "E", square 4 "F", square 5 "G"],
    [(⟨"squares", "A"⟩, 0), (⟨"squares", "B"⟩, 1), (⟨"squares", "C"⟩, 2), (⟨"squares", "D"⟩, 3),
      (⟨"squares", "E"⟩, 4), (⟨"squares", "F"⟩, 5), (⟨"squares", "G"⟩, 6)]⟩

theorem resolve_squaresModule : ModuleSet.resolve [squaresModule] = .ok squaresSet := rfl

theorem checkAll_squaresSet : squaresSet.checkAll = .ok () := rfl

theorem squaresSet_proper (id : DeclId) : squaresSet.Proper (squaresSet.decl id) :=
  ModuleSet.proper_of_checkAll (resolve_eq_ok_iff.mp resolve_squaresModule) checkAll_squaresSet id

theorem squaresSet_arity : ∀ k < 7, squaresSet.arity (.decl k) = 1 := by decide

theorem squaresSet_saturated {k : Nat} (hk : k < 7) :
    squaresSet.Saturated (.mk (.decl k) [.mk (.primitive .int8) []]) := by
  have hint8 : squaresSet.Saturated (.mk (.primitive .int8) []) := ⟨rfl, fun _ h => nomatch h⟩
  exact ⟨squaresSet_arity k hk, List.forall_mem_singleton.mpr hint8⟩

/-- Each of the aliases but the first uses the one before twice. -/
theorem squaresSet_decl {k : Nat} (hk : k < 6) :
    (squaresSet.decl (k + 1)).typeParams = ["T"] ∧ (squaresSet.decl (k + 1)).body =
      .alias (.mk (.decl k) [.mk (.decl k) [.param "T"]]) := by
  match k, hk with
  | 0, _ | 1, _ | 2, _ | 3, _ | 4, _ | 5, _ => exact ⟨rfl, rfl⟩

/-- Each of the aliases takes twice as many steps as the one before, and one more. -/
theorem squaresSet_aliasSteps {k : Nat} (hk : k < 7) (t : TypeExpr) :
    squaresSet.AliasSteps (2 ^ (k + 1) - 1) (.mk (.decl k) [t]) t := by
  induction k generalizing t with
  | zero => exact .step ⟨rfl, rfl, squaresSet_proper 0, rfl⟩ (.refl t)
  | succ k ih =>
    obtain ⟨hparams, hbody⟩ := squaresSet_decl (Nat.lt_of_succ_lt_succ hk)
    have hstep : squaresSet.AliasStep (.mk (.decl (k + 1)) [t])
        (.mk (.decl k) [.mk (.decl k) [t]]) := by
      refine ⟨?_, ?_, squaresSet_proper (k + 1), ?_⟩
      · rw [ModuleSet.isAlias, Decl.isAlias, hbody]
      · rw [hparams]
        rfl
      · rw [hparams, hbody]
        rfl
    have hcount : 2 ^ (k + 1 + 1) - 1 = (2 ^ (k + 1) - 1) + (2 ^ (k + 1) - 1) + 1 := by
      have := Nat.one_le_two_pow (n := k + 1)
      omega
    rw [hcount]
    exact .step hstep ((ih (by omega) _).trans (ih (by omega) t))

theorem not_aliasHead_int8 : ¬ squaresSet.AliasHead (.mk (.primitive .int8) []) :=
  fun ⟨_, hid, _⟩ => by cases hid

/-- Seven aliases that use each other twice pass the check, and the one before the last is expanded
in 63 steps. -/
theorem squares_expand :
    ModuleSet.resolve [squaresModule] = .ok squaresSet ∧ squaresSet.checkAll = .ok () ∧
      squaresSet.Saturated (.mk (.decl 5) [.mk (.primitive .int8) []]) ∧
      ∀ location, ((Graph.plain squaresSet).expand (.mk (.decl 5) [.mk (.primitive .int8) []])
        location).run = .ok (.mk (.primitive .int8) []) := by
  have hsat := squaresSet_saturated (k := 5) (by decide)
  refine ⟨resolve_squaresModule, checkAll_squaresSet, hsat, fun location => ?_⟩
  obtain ⟨-, hexpand, -⟩ := expand_of_checkAll resolve_squaresModule checkAll_squaresSet
  obtain ⟨n, u, hsteps, hu, hok, -⟩ := hexpand _ location hsat
  obtain ⟨rfl, rfl⟩ := (squaresSet_aliasSteps (k := 5) (by decide) _).unique_end hsteps
    not_aliasHead_int8 hu
  exact hok (by decide)

/-- The last one takes 127 steps, and is said to be infinite. -/
theorem squares_cut_off :
    ModuleSet.resolve [squaresModule] = .ok squaresSet ∧ squaresSet.checkAll = .ok () ∧
      squaresSet.Saturated (.mk (.decl 6) [.mk (.primitive .int8) []]) ∧
      ∀ location, ∃ name, ((Graph.plain squaresSet).expand
        (.mk (.decl 6) [.mk (.primitive .int8) []]) location).run =
          .error (.infiniteAlias location name) := by
  have hsat := squaresSet_saturated (k := 6) (by decide)
  refine ⟨resolve_squaresModule, checkAll_squaresSet, hsat, fun location => ?_⟩
  cases h : ((Graph.plain squaresSet).expand (.mk (.decl 6) [.mk (.primitive .int8) []])
      location).run with
  | ok u =>
    obtain ⟨⟨n, hn, hsteps⟩, hu⟩ := Graph.yields_expand_iff.mp h
    obtain ⟨rfl, -⟩ := (squaresSet_aliasSteps (k := 6) (by decide) _).unique_end hsteps
      not_aliasHead_int8 hu
    exact absurd hn (by decide)
  | error e =>
    obtain ⟨id, -, rfl⟩ := ModuleSet.error_of_expand squaresSet_proper hsat h
    exact ⟨_, rfl⟩

end Adl
