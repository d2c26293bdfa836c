import Adl.Proofs.Types.Substitution

/-!
# Faults — the first thing that is wrong with a type

A type is read from its head to its last argument (`TypeExpr.parts`).  A part of it is at fault if
it has another number of arguments than its head takes, or if it is a parameter that is not bound.
Instantiating a type reports the first fault that is met in reading it (`instantiate_eq_error_iff`),
and so does instantiating a body, behind a wrong number of arguments (`members_eq_error_iff`).
-/

namespace Adl

namespace TypeExpr

mutual

/-- A type and all types in it, each in front of its arguments. -/
def parts : TypeExpr → List TypeExpr
  | .mk head args => .mk head args :: partsAll args

/-- The parts of a list of types. -/
def partsAll : List TypeExpr → List TypeExpr
  | [] => []
  | t :: ts => parts t ++ partsAll ts

end

@[simp] theorem partsAll_eq_flatMap (ts : List TypeExpr) : partsAll ts = ts.flatMap parts := by
  induction ts with
  | nil => rfl
  | cons t ts ih => rw [partsAll, ih, List.flatMap_cons]

theorem parts_mk (head : TypeRef) (args : List TypeExpr) :
    (mk head args).parts = .mk head args :: args.flatMap parts := by
  rw [parts, partsAll_eq_flatMap]

theorem mem_parts_mk {head : TypeRef} {args : List TypeExpr} {u : TypeExpr} :
    u ∈ (mk head args).parts ↔ u = .mk head args ∨ ∃ t ∈ args, u ∈ t.parts := by
  rw [parts_mk, List.mem_cons, List.mem_flatMap]

end TypeExpr

namespace ModuleSet

variable {set : ModuleSet} {σ : Bindings} {location : Location} {t : TypeExpr} {e : TypeError}

theorem saturated_iff_parts :
    set.Saturated t ↔ ∀ u ∈ t.parts, set.arity u.head = u.args.length := by
  induction t with
  | mk head args ih =>
    rw [saturated_mk_iff, TypeExpr.parts_mk, List.forall_mem_cons]
    refine and_congr_right fun _ => ?_
    rw [List.forall_mem_flatMap]
    exact forall₂_congr ih

/-! ### Faults of types -/

/-- What is wrong with a part of a type that is to be instantiated. -/
def fault? (set : ModuleSet) (σ : Bindings) (location : Location) : TypeExpr → Option TypeError
  | .mk head args =>
    if set.arity head = args.length then
      match head with
      | .typeParam p => if (σ.lookup p).isSome then none else some (.unbound location p)
      | _ => none
    else some (.arity location (set.headName head) (set.arity head) args.length)

theorem fault?_of_arity {head : TypeRef} {args : List TypeExpr}
    (h : set.arity head ≠ args.length) : set.fault? σ location (.mk head args) =
      some (.arity location (set.headName head) (set.arity head) args.length) := if_neg h

theorem fault?_of_ne {head : TypeRef} {args : List TypeExpr} (hh : ∀ p, head ≠ .typeParam p)
    (h : set.arity head = args.length) : set.fault? σ location (.mk head args) = none := by
  cases head with
  | typeParam p => exact absurd rfl (hh p)
  | _ => exact if_pos h

theorem fault?_typeParam {p : String} : set.fault? σ location (.mk (.typeParam p) []) =
    if (σ.lookup p).isSome then none else some (.unbound location p) := by
  have h : set.arity (.typeParam p) = ([] : List TypeExpr).length := rfl
  rw [fault?, if_pos h]

/-- Which parameters are bound is all that a fault depends on. -/
theorem fault?_congr {τ : Bindings} (h : ∀ p, (σ.lookup p).isSome = (τ.lookup p).isSome) :
    set.fault? σ location t = set.fault? τ location t := by
  obtain ⟨head, args⟩ := t
  simp only [fault?, h]

/-- The fault of a head is reported before those of the arguments. -/
theorem findSome?_parts_mk {f : TypeExpr → Option TypeError} {head : TypeRef}
    {args : List TypeExpr} :
    (TypeExpr.mk head args).parts.findSome? f = some e ↔ f (.mk head args) = some e ∨
      f (.mk head args) = none ∧ (args.flatMap TypeExpr.parts).findSome? f = some e := by
  rw [TypeExpr.parts_mk, List.findSome?_cons]
  cases f (.mk head args) <;> simp

theorem checkArity_eq_error_iff {head : TypeRef} {found : Nat} :
    set.checkArity head found location = .error e ↔ set.arity head ≠ found ∧
      e = .arity location (set.headName head) (set.arity head) found := by
  unfold checkArity
  split_ifs with h
  · simp [h]
  · simp [h, eq_comm]

/-- If each of several types reports its first fault, so do all of them. -/
theorem instantiateAll_eq_error_iff_of {ts : List TypeExpr}
    (h : ∀ t ∈ ts, ∀ e, set.instantiate σ location t = .error e ↔
      t.parts.findSome? (set.fault? σ location) = some e) :
    set.instantiateAll σ location ts = .error e ↔
      (ts.flatMap TypeExpr.parts).findSome? (set.fault? σ location) = some e := by
  induction ts with
  | nil => simp [instantiateAll, pure, Except.pure]
  | cons t ts ih =>
    obtain ⟨ht, hts⟩ := List.forall_mem_cons.mp h
    rw [instantiateAll, bind_eq_error_iff, List.flatMap_cons, List.findSome?_append]
    simp only [bind_pure_eq_error_iff, ih hts]
    cases hi : set.instantiate σ location t with
    | error e' => simp [(ht e').mp hi]
    | ok u =>
      have hnone : t.parts.findSome? (set.fault? σ location) = none := by
        rw [Option.eq_none_iff_forall_ne_some]
        intro e' he'
        rw [(ht e').mpr he'] at hi
        cases hi
      simp [hnone]

/-- Instantiating a type reports its first fault. -/
theorem instantiate_eq_error_iff :
    set.instantiate σ location t = .error e ↔
      t.parts.findSome? (set.fault? σ location) = some e := by
  induction t generalizing e with
  | mk head args ih =>
    rw [findSome?_parts_mk]
    by_cases hh : ∀ p, head ≠ .typeParam p
    · have hall : set.instantiateAll σ location args = .error e ↔
          (args.flatMap TypeExpr.parts).findSome? (set.fault? σ location) = some e :=
        instantiateAll_eq_error_iff_of fun t ht e => ih t ht
      rw [instantiate_mk_of_ne hh, check_bind_eq_error_iff, bind_pure_eq_error_iff, hall,
        checkArity_eq_error_iff, checkArity_eq_ok_iff]
      by_cases hlen : set.arity head = args.length
      · simp [fault?_of_ne hh hlen, hlen]
      · simp [fault?_of_arity hlen, hlen, eq_comm]
    · obtain ⟨name, rfl⟩ := not_forall_not.mp hh
      rw [instantiate, check_bind_eq_error_iff, checkArity_eq_error_iff, checkArity_eq_ok_iff]
      by_cases hlen : set.arity (.typeParam name) = args.length
      · obtain rfl : args = [] := List.length_eq_zero_iff.mp hlen.symm
        rw [fault?_typeParam]
        cases hl : σ.lookup name with
        | none => simp [hlen, throw, throwThe, MonadExceptOf.throw]
        | some u => simp [hlen, pure, Except.pure]
      · simp [fault?_of_arity hlen, hlen, eq_comm]

/-! ### Faults of bodies -/

/-- A body is had at as many arguments as there are parameters, unless a type in it has a fault. -/
theorem members_eq_error_iff {id : DeclId} {args : List TypeExpr} :
    set.members id args location = .error e ↔
      ((set.decl id).typeParams.length ≠ args.length ∧
        e = .arity location (set.scopedName id).text (set.decl id).typeParams.length args.length) ∨
      (set.decl id).typeParams.length = args.length ∧
        ((set.decl id).types.flatMap TypeExpr.parts).findSome?
          (set.fault? ((set.decl id).typeParams.zip args) location) = some e := by
  have hall : ∀ ts : List TypeExpr, set.instantiateAll ((set.decl id).typeParams.zip args)
      location ts = .error e ↔ (ts.flatMap TypeExpr.parts).findSome?
        (set.fault? ((set.decl id).typeParams.zip args) location) = some e :=
    fun ts => instantiateAll_eq_error_iff_of fun _ _ _ => instantiate_eq_error_iff
  rw [members, bind_eq_error_iff]
  simp only [bind_eq_ok_bindings_iff, and_assoc, exists_eq_left', exists_and_left]
  refine or_congr ?_ (and_congr_right fun _ => ?_)
  · rw [bind, bind_pure_eq_error_iff]
    exact checkArity_eq_error_iff
  · cases hb : (set.decl id).body with
    | struct ms => simp only [bind_pure_eq_error_iff, hall, Decl.types, Decl.members, hb]
    | union ms => simp only [bind_pure_eq_error_iff, hall, Decl.types, Decl.members, hb]
    | enum ms => simp only [bind_pure_eq_error_iff, hall, Decl.types, Decl.members, hb]
    | «alias» t =>
      simp only [bind_pure_eq_error_iff, instantiate_eq_error_iff, Decl.types, hb,
        List.flatMap_singleton]
    | newtype t default =>
      simp only [bind_pure_eq_error_iff, instantiate_eq_error_iff, Decl.types, hb,
        List.flatMap_singleton]

end ModuleSet

end Adl
