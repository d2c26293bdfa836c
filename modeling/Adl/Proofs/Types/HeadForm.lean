import Adl.Proofs.Types.Expansion
import Adl.Proofs.Types.Faults

/-!
# HeadForm — the three ways in which an expansion ends

The alias steps from a type end at a type with no alias at its head, or at an alias that cannot be
replaced by its body, or they never end.  The expansion looks at the first `maxAliasDepth` of them
only, and remembers the instances it has met (`Trail`).  An instance that is met again is the proof
that the steps never end, so the expansion loses nothing by stopping there
(`expand_outcome`).
-/

namespace Adl

/-! ### How an expansion can end -/

namespace ModuleSet

variable (set : ModuleSet)

/-- Why an alias at the head of a type cannot be replaced by its body: it has another number of
arguments than parameters, or there is a fault in its body. -/
inductive StepFails (location : Location) : TypeExpr → TypeError → Prop
  | arguments {id : DeclId} {args : List TypeExpr} (is_alias : set.isAlias id)
      (length_ne : (set.decl id).typeParams.length ≠ args.length) :
      StepFails location (.mk (.decl id) args) (.arity location (set.scopedName id).text
        (set.decl id).typeParams.length args.length)
  | body {id : DeclId} {args : List TypeExpr} {body : TypeExpr} {e : TypeError}
      (body_eq : (set.decl id).body = .alias body)
      (length_eq : (set.decl id).typeParams.length = args.length)
      (first_fault : body.parts.findSome?
        (set.fault? ((set.decl id).typeParams.zip args) location) = some e) :
      StepFails location (.mk (.decl id) args) e

/-- Two of the steps that the expansion makes replace the same alias with the same arguments. -/
def Recurs (t : TypeExpr) : Prop :=
  ∃ i j id args, i < j ∧ j < maxAliasDepth ∧ set.isAlias id ∧
    set.AliasSteps i t (.mk (.decl id) args) ∧ set.AliasSteps j t (.mk (.decl id) args)

/-- After `k` steps there is an alias that is not to be replaced: it is the first that was there
before with the same arguments, or as many steps as allowed have been made. -/
structure StopsAt (t : TypeExpr) (k : Nat) (id : DeclId) : Prop where
  is_alias : set.isAlias id
  le_depth : k ≤ maxAliasDepth
  reached : ∃ args, set.AliasSteps k t (.mk (.decl id) args) ∧
    (k = maxAliasDepth ∨ ∃ j < k, set.AliasSteps j t (.mk (.decl id) args))
  fresh : ∀ i j u, i < j → j < k → set.AliasSteps i t u → ¬ set.AliasSteps j t u

/-- What the result of expanding a type says of its alias steps. -/
structure ExpansionOutcome (location : Location) (t : TypeExpr)
    (result : Except TypeError TypeExpr) : Prop where
  returns : ∀ u, result = .ok u ↔
    ∃ k ≤ maxAliasDepth, set.AliasSteps k t u ∧ ¬ set.AliasHead u
  cut_off : (∃ location' name, result = .error (.infiniteAlias location' name)) ↔
    (∃ u, set.AliasSteps maxAliasDepth t u ∧ set.AliasHead u) ∨ set.Recurs t
  /-- The error has the name of the alias at which the steps stop. -/
  stops : ∀ location' name, result = .error (.infiniteAlias location' name) ↔
    ∃ k id, set.StopsAt t k id ∧ location' = location ∧ name = (set.scopedName id).text
  /-- All other errors are those of the first step that cannot be made. -/
  fails : ∀ e, (∀ location' name, e ≠ .infiniteAlias location' name) →
    (result = .error e ↔
      ∃ k < maxAliasDepth, ∃ u, set.AliasSteps k t u ∧ set.StepFails location u e)
  /-- Steps that come back to an alias with the same arguments never end. -/
  endless : set.Recurs t → set.Endless t
  /-- Where the steps end, there may be too many of them, but none comes back. -/
  ends : ∀ n u, set.AliasSteps n t u → ¬ set.AliasHead u →
    ¬ set.Recurs t ∧ ∀ k id, set.StopsAt t k id → k = maxAliasDepth

end ModuleSet

/-! ### Steps that cannot be made -/

namespace ModuleSet

variable {set : ModuleSet} {location : Location} {t u : TypeExpr} {e : TypeError} {k n : Nat}

theorem fault?_ne_infiniteAlias {σ : Bindings} (h : set.fault? σ location t = some e)
    (location' : Location) (name : String) : e ≠ .infiniteAlias location' name := by
  obtain ⟨head, args⟩ := t
  rintro rfl
  by_cases hlen : set.arity head = args.length
  · by_cases hh : ∀ p, head ≠ .typeParam p
    · rw [fault?_of_ne hh hlen] at h
      cases h
    · obtain ⟨p, rfl⟩ := not_forall_not.mp hh
      obtain rfl : args = [] := List.length_eq_zero_iff.mp hlen.symm
      rw [fault?_typeParam] at h
      split_ifs at h
      cases h
  · rw [fault?_of_arity hlen] at h
    cases h

theorem StepFails.ne_infiniteAlias (h : set.StepFails location t e) (location' : Location)
    (name : String) : e ≠ .infiniteAlias location' name := by
  cases h with
  | arguments => exact fun h => by cases h
  | body _ _ hfault =>
    obtain ⟨u, -, hu⟩ := List.exists_of_findSome?_eq_some hfault
    exact fault?_ne_infiniteAlias hu location' name

/-- A step cannot be made where there is no body for the arguments of the alias. -/
theorem stepFails_iff {id : DeclId} {args : List TypeExpr} (ha : set.isAlias id) :
    set.StepFails location (.mk (.decl id) args) e ↔
      set.members id args location = .error e := by
  obtain ⟨body, hbody⟩ := isAlias_iff.mp ha
  have htypes : (set.decl id).types = [body] := by rw [Decl.types, hbody]
  rw [members_eq_error_iff, htypes, List.flatMap_singleton]
  constructor
  · intro h
    cases h with
    | arguments _ hne => exact .inl ⟨hne, rfl⟩
    | body hbody' hlen hfault =>
      obtain rfl := Body.alias.inj (hbody.symm.trans hbody')
      exact .inr ⟨hlen, hfault⟩
  · rintro (⟨hne, rfl⟩ | ⟨hlen, hfault⟩)
    · exact .arguments ha hne
    · exact .body hbody hlen hfault

theorem StepFails.aliasHead (h : set.StepFails location t e) : set.AliasHead t := by
  cases h with
  | arguments ha _ => exact ⟨_, rfl, ha⟩
  | body hbody _ _ => exact ⟨_, rfl, isAlias_iff.mpr ⟨_, hbody⟩⟩

theorem StepFails.not_step (h : set.StepFails location t e) : ¬ set.AliasStep t u := by
  rintro ⟨ha, hb⟩
  have herror := (stepFails_iff ha).mp h
  rw [members_eq_ok_iff.mpr hb] at herror
  cases herror

theorem StepFails.unique {e' : TypeError} (h : set.StepFails location t e)
    (h' : set.StepFails location t e') : e = e' := by
  obtain ⟨id, hid, ha⟩ := h.aliasHead
  obtain ⟨head, args⟩ := t
  obtain rfl : head = .decl id := hid
  exact Except.error.inj (((stepFails_iff ha).mp h).symm.trans ((stepFails_iff ha).mp h'))

/-- No more steps are made than lead to one that cannot be made. -/
theorem StepFails.le_of_steps (h : set.StepFails location u e) (hu : set.AliasSteps n t u)
    {v : TypeExpr} (hv : set.AliasSteps k t v) : k ≤ n := by
  by_contra hlt
  obtain ⟨j, rfl⟩ := Nat.exists_eq_add_of_lt (Nat.lt_of_not_le hlt)
  have hrest : set.AliasSteps (j + 1) u v := hu.rest hv
  cases hrest with
  | step first _ => exact h.not_step first

theorem Recurs.endless (h : set.Recurs t) : set.Endless t := by
  obtain ⟨i, j, id, args, hij, -, -, hi, hj⟩ := h
  obtain ⟨k, rfl⟩ := Nat.exists_eq_add_of_lt hij
  exact hi.endless (hi.rest hj)

/-! ### What has been met -/

/-- `n` steps from `t₀` led to `t`, and replaced the aliases in `seen`, which are all different. -/
structure Trail (set : ModuleSet) (t₀ : TypeExpr) (n : Nat) (seen : List Instance) (t : TypeExpr) :
    Prop where
  steps : set.AliasSteps n t₀ t
  mem_seen_iff : ∀ i, i ∈ seen ↔ ∃ k < n, set.AliasSteps k t₀ (.mk (.decl i.1) i.2)
  fresh : ∀ i j u, i < j → j < n → set.AliasSteps i t₀ u → ¬ set.AliasSteps j t₀ u

theorem Trail.start (t : TypeExpr) : set.Trail t 0 [] t where
  steps := .refl t
  mem_seen_iff i := by simp
  fresh i j u _ hj := absurd hj (Nat.not_lt_zero j)

theorem Trail.step {t₀ body : TypeExpr} {seen : List Instance} {id : DeclId} {args : List TypeExpr}
    (h : set.Trail t₀ n seen (.mk (.decl id) args)) (hs : (id, args) ∉ seen)
    (first : set.AliasStep (.mk (.decl id) args) body) :
    set.Trail t₀ (n + 1) ((id, args) :: seen) body where
  steps := h.steps.trans (.step first (.refl _))
  mem_seen_iff i := by
    rw [List.mem_cons, h.mem_seen_iff]
    constructor
    · rintro (rfl | ⟨k, hk, hi⟩)
      · exact ⟨n, Nat.lt_succ_self n, h.steps⟩
      · exact ⟨k, Nat.lt_succ_of_lt hk, hi⟩
    · rintro ⟨k, hk, hi⟩
      rcases Nat.lt_succ_iff_lt_or_eq.mp hk with hk | rfl
      · exact .inr ⟨k, hk, hi⟩
      · have heq := hi.unique h.steps
        injection heq with hid hargs
        injection hid with hid
        exact .inl (Prod.ext hid hargs)
  fresh i j u hij hj hi hu := by
    rcases Nat.lt_succ_iff_lt_or_eq.mp hj with hj | rfl
    · exact h.fresh i j u hij hj hi hu
    · obtain rfl := hu.unique h.steps
      exact hs ((h.mem_seen_iff (id, args)).mpr ⟨i, hij, hi⟩)

/-- Where the steps stop, as many as allowed have been made, or they would never end. -/
theorem StopsAt.eq_depth {id : DeclId} (h : set.StopsAt t k id) (hends : ¬ set.Endless t) :
    k = maxAliasDepth := by
  obtain ⟨args, hsteps, hk | ⟨j, hj, hagain⟩⟩ := h.reached
  · exact hk
  · obtain ⟨i, rfl⟩ := Nat.exists_eq_add_of_lt hj
    exact absurd (hagain.endless (hagain.rest hsteps)) hends

theorem StopsAt.exists_aliasHead {id : DeclId} (h : set.StopsAt t k id) :
    ∃ u, set.AliasSteps maxAliasDepth t u ∧ set.AliasHead u := by
  by_cases hendless : set.Endless t
  · exact hendless maxAliasDepth
  · obtain rfl := h.eq_depth hendless
    obtain ⟨args, hsteps, -⟩ := h.reached
    exact ⟨_, hsteps, id, rfl, h.is_alias⟩

theorem StopsAt.le {k' : Nat} {id id' : DeclId} (h : set.StopsAt t k id)
    (h' : set.StopsAt t k' id') : k' ≤ k := by
  obtain ⟨args, hsteps, rfl | ⟨j, hj, hagain⟩⟩ := h.reached
  · exact h'.le_depth
  · by_contra hlt
    exact h'.fresh j k _ hj (Nat.lt_of_not_le hlt) hagain hsteps

/-- The steps stop at one alias only. -/
theorem StopsAt.unique {k' : Nat} {id id' : DeclId} (h : set.StopsAt t k id)
    (h' : set.StopsAt t k' id') : id = id' := by
  obtain rfl := Nat.le_antisymm (h'.le h) (h.le h')
  obtain ⟨args, hsteps, -⟩ := h.reached
  obtain ⟨args', hsteps', -⟩ := h'.reached
  have heq := hsteps.unique hsteps'
  injection heq with hid
  injection hid

end ModuleSet

/-! ### The outcomes of the expansion -/

namespace Graph

open ModuleSet

variable {set : ModuleSet} {location : Location} {t t₀ u : TypeExpr} {e : TypeError} {k n : Nat}

/-- Only at an alias does an expansion fail. -/
theorem exists_alias_of_error {fuel : Nat} {seen : List Instance}
    (h : ((plain set).expandFrom location fuel seen t).run = .error e) :
    ∃ id args, set.isAlias id ∧ t = .mk (.decl id) args := by
  by_cases ha : set.AliasHead t
  · obtain ⟨id, hid, ha⟩ := ha
    obtain ⟨head, args⟩ := t
    obtain rfl : head = .decl id := hid
    exact ⟨id, args, ha, rfl⟩
  · rw [expandFrom_of_not_aliasHead ha] at h
    cases h

theorem error_of_expandFrom_zero {seen : List Instance} {id : DeclId} {args : List TypeExpr}
    (ha : set.isAlias id)
    (h : ((plain set).expandFrom location 0 seen (.mk (.decl id) args)).run = .error e) :
    e = .infiniteAlias location (set.scopedName id).text := by
  rw [expandFrom.eq_def] at h
  simp only [TypeExpr.head, plain_set, ha, if_true] at h
  cases h
  rfl

/-- One round of the expansion of an alias that fails: the alias comes back, or it cannot be
replaced by its body, or what comes of this fails. -/
theorem error_of_expandFrom_succ {fuel : Nat} {seen : List Instance} {id : DeclId}
    {args : List TypeExpr} (ha : set.isAlias id)
    (h : ((plain set).expandFrom location (fuel + 1) seen (.mk (.decl id) args)).run = .error e) :
    ((id, args) ∈ seen ∧ e = .infiniteAlias location (set.scopedName id).text) ∨
      (id, args) ∉ seen ∧ (set.StepFails location (.mk (.decl id) args) e ∨
        ∃ body, set.AliasStep (.mk (.decl id) args) body ∧
          ((plain set).expandFrom location fuel ((id, args) :: seen) body).run = .error e) := by
  rw [expandFrom.eq_def] at h
  simp only [TypeExpr.head, TypeExpr.args, plain_set, ha, if_true] at h
  by_cases hs : (id, args) ∈ seen
  · simp only [hs, if_true] at h
    cases h
    exact .inl ⟨hs, rfl⟩
  · refine .inr ⟨hs, ?_⟩
    simp only [hs, if_false] at h
    cases hm : set.members id args location with
    | error e' =>
      have hgraph : (plain set).members id args location = throw e' :=
        congrArg (fun r => ExceptT.mk (pure r)) hm
      rw [hgraph] at h
      cases h
      exact .inl ((stepFails_iff ha).mpr hm)
    | ok b =>
      have hgraph : (plain set).members id args location = pure b :=
        congrArg (fun r => ExceptT.mk (pure r)) hm
      have hb := members_eq_ok_iff.mp hm
      obtain ⟨body, rfl⟩ := hb.eq_target ha
      simp only [hgraph, pure_bind] at h
      exact .inr ⟨body, ⟨ha, hb⟩, h⟩

/-- An expansion that fails has stopped, or has met a step that cannot be made. -/
theorem stops_or_fails_of_error {fuel : Nat} {seen : List Instance} (h : set.Trail t₀ n seen t)
    (hn : n + fuel = maxAliasDepth)
    (he : ((plain set).expandFrom location fuel seen t).run = .error e) :
    (∃ k id, set.StopsAt t₀ k id ∧ e = .infiniteAlias location (set.scopedName id).text) ∨
      ∃ k < maxAliasDepth, ∃ u, set.AliasSteps k t₀ u ∧ set.StepFails location u e := by
  induction fuel generalizing n seen t with
  | zero =>
    obtain ⟨id, args, ha, rfl⟩ := exists_alias_of_error he
    obtain rfl := error_of_expandFrom_zero ha he
    exact .inl ⟨n, id, ⟨ha, Nat.le_of_eq hn, ⟨args, h.steps, .inl hn⟩, h.fresh⟩, rfl⟩
  | succ fuel ih =>
    obtain ⟨id, args, ha, rfl⟩ := exists_alias_of_error he
    rcases error_of_expandFrom_succ ha he with
      ⟨hmem, rfl⟩ | ⟨hs, hfails | ⟨body, hstep, hrest⟩⟩
    · have hagain := (h.mem_seen_iff (id, args)).mp hmem
      exact .inl ⟨n, id, ⟨ha, by omega, ⟨args, h.steps, .inr hagain⟩, h.fresh⟩, rfl⟩
    · exact .inr ⟨n, by omega, _, h.steps, hfails⟩
    · exact ih (h.step hs hstep) (by omega) hrest

theorem stops_or_fails (he : ((plain set).expand t location).run = .error e) :
    (∃ k id, set.StopsAt t k id ∧ e = .infiniteAlias location (set.scopedName id).text) ∨
      ∃ k < maxAliasDepth, ∃ u, set.AliasSteps k t u ∧ set.StepFails location u e :=
  stops_or_fails_of_error (.start t) (Nat.zero_add _) he

/-- Where as many steps as allowed lead to an alias, no value is returned and no step fails. -/
theorem exists_stopsAt_of_aliasHead (hu : set.AliasSteps maxAliasDepth t u)
    (ha : set.AliasHead u) : ∃ k id, set.StopsAt t k id ∧ ((plain set).expand t location).run =
      .error (.infiniteAlias location (set.scopedName id).text) := by
  cases he : ((plain set).expand t location).run with
  | ok v =>
    obtain ⟨⟨k, hk, hv⟩, hna⟩ := yields_expand_iff.mp he
    exact absurd (hu.aliasHead_of_le ha hv hk) hna
  | error e =>
    rcases stops_or_fails he with ⟨k, id, hstop, rfl⟩ | ⟨k, hk, v, hv, hfails⟩
    · exact ⟨k, id, hstop, rfl⟩
    · exact absurd (hfails.le_of_steps hv hu) (Nat.not_le_of_lt hk)

theorem exists_aliasHead_of_infiniteAlias {location' : Location} {name : String}
    (he : ((plain set).expand t location).run = .error (.infiniteAlias location' name)) :
    ∃ u, set.AliasSteps maxAliasDepth t u ∧ set.AliasHead u := by
  rcases stops_or_fails he with ⟨k, id, hstop, -⟩ | ⟨k, -, u, -, hfails⟩
  · exact hstop.exists_aliasHead
  · exact absurd rfl (hfails.ne_infiniteAlias location' name)

theorem exists_infiniteAlias_iff :
    (∃ location' name, ((plain set).expand t location).run =
        .error (.infiniteAlias location' name)) ↔
      (∃ u, set.AliasSteps maxAliasDepth t u ∧ set.AliasHead u) ∨ set.Recurs t := by
  constructor
  · rintro ⟨location', name, he⟩
    exact .inl (exists_aliasHead_of_infiniteAlias he)
  · intro h
    obtain ⟨u, hu, ha⟩ : ∃ u, set.AliasSteps maxAliasDepth t u ∧ set.AliasHead u :=
      h.elim id fun hrecurs => hrecurs.endless maxAliasDepth
    obtain ⟨k, id, -, he⟩ := exists_stopsAt_of_aliasHead hu ha
    exact ⟨_, _, he⟩

theorem expand_eq_infiniteAlias_iff {location' : Location} {name : String} :
    ((plain set).expand t location).run = .error (.infiniteAlias location' name) ↔
      ∃ k id, set.StopsAt t k id ∧ location' = location ∧ name = (set.scopedName id).text := by
  constructor
  · intro he
    rcases stops_or_fails he with ⟨k, id, hstop, heq⟩ | ⟨k, -, u, -, hfails⟩
    · injection heq with hlocation hname
      exact ⟨k, id, hstop, hlocation, hname⟩
    · exact absurd rfl (hfails.ne_infiniteAlias location' name)
  · rintro ⟨k, id, hstop, rfl, rfl⟩
    obtain ⟨u, hu, ha⟩ := hstop.exists_aliasHead
    obtain ⟨k', id', hstop', he⟩ := exists_stopsAt_of_aliasHead hu ha
    rw [hstop.unique hstop']
    exact he

theorem expand_eq_error_iff (hne : ∀ location' name, e ≠ .infiniteAlias location' name) :
    ((plain set).expand t location).run = .error e ↔
      ∃ k < maxAliasDepth, ∃ u, set.AliasSteps k t u ∧ set.StepFails location u e := by
  constructor
  · intro he
    rcases stops_or_fails he with ⟨k, id, -, heq⟩ | hfails
    · exact absurd heq (hne _ _)
    · exact hfails
  · rintro ⟨k, hk, u, hu, hfails⟩
    cases he : ((plain set).expand t location).run with
    | ok v =>
      obtain ⟨⟨k', -, hv⟩, hna⟩ := yields_expand_iff.mp he
      have hle := hfails.le_of_steps hu hv
      exact absurd (hu.aliasHead_of_le hfails.aliasHead hv hle) hna
    | error e' =>
      rcases stops_or_fails he with ⟨_, _, hstop, -⟩ | ⟨k', -, v, hv, hfails'⟩
      · obtain ⟨w, hw, -⟩ := hstop.exists_aliasHead
        exact absurd (hfails.le_of_steps hu hw) (Nat.not_le_of_lt hk)
      · obtain rfl := Nat.le_antisymm (hfails'.le_of_steps hv hu) (hfails.le_of_steps hu hv)
        obtain rfl := hu.unique hv
        rw [hfails.unique hfails']

end Graph

/-! ### Main statement -/

/-- Every expansion returns the type at which the alias steps end, or the fault of the step that
cannot be made, or it is cut off after `maxAliasDepth` steps or where they come back. -/
theorem expand_outcome (set : ModuleSet) (t : TypeExpr) (location : Location) :
    set.ExpansionOutcome location t ((Graph.plain set).expand t location).run where
  returns _ := Graph.yields_expand_iff.trans
    ⟨fun ⟨⟨k, hk, hsteps⟩, hu⟩ => ⟨k, hk, hsteps, hu⟩,
      fun ⟨k, hk, hsteps, hu⟩ => ⟨⟨k, hk, hsteps⟩, hu⟩⟩
  cut_off := Graph.exists_infiniteAlias_iff
  stops _ _ := Graph.expand_eq_infiniteAlias_iff
  fails _ he := Graph.expand_eq_error_iff he
  endless := ModuleSet.Recurs.endless
  ends _ _ hsteps hu := by
    have hends : ¬ set.Endless t := fun h => hu (h.aliasHead hsteps)
    exact ⟨fun h => hends h.endless, fun _ _ h => h.eq_depth hends⟩

end Adl
