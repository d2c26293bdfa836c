import Adl.Proofs.Model.Indexed
import Adl.Proofs.Types.Checked

/-!
# ExportedTypes — types are read back from records

A record spells out the names in a type, and `ModuleSet.readType?` looks them up again: primitive
types and declarations are found by their names, and parameters stand for themselves.  All that is
lost on the way are arguments of parameters (`TypeExpr.bare`), which take none.  So two types that
have as many arguments as their heads take are spelled alike only if they are equal
(`exportedTypes_laws`).
-/

namespace Adl

/-! ### Reading types -/

namespace ModuleSet

variable (set : ModuleSet)

mutual

/-- The type that is spelled out in a record, if all names in it are known. -/
def readType? : Schema.TypeExpr → Option TypeExpr
  | .mk (.primitive name) parameters => do
    return .mk (.primitive (← Primitive.ofName? name)) (← readTypes? parameters)
  | .mk (.typeParam name) parameters => do
    return .mk (.typeParam name) (← readTypes? parameters)
  | .mk (.reference name) parameters => do
    return .mk (.decl (← set.lookup name)) (← readTypes? parameters)

/-- The types that are spelled out in a list. -/
def readTypes? : List Schema.TypeExpr → Option (List TypeExpr)
  | [] => some []
  | t :: ts => do return (← readType? t) :: (← readTypes? ts)

end

theorem readTypes?_map_eq_some {f g : TypeExpr → _} {ts : List TypeExpr}
    (h : ∀ t ∈ ts, set.readType? (f t) = some (g t)) :
    set.readTypes? (ts.map f) = some (ts.map g) := by
  induction ts with
  | nil => rfl
  | cons t ts ih =>
    obtain ⟨ht, hts⟩ := List.forall_mem_cons.mp h
    rw [List.map_cons, readTypes?, ht, ih hts, List.map_cons]
    rfl

end ModuleSet

/-! ### Parameters without arguments -/

namespace TypeExpr

mutual

/-- A type without the arguments of parameters. -/
def bare : TypeExpr → TypeExpr
  | .mk (.primitive p) args => .mk (.primitive p) (bareAll args)
  | .mk (.typeParam name) _ => .param name
  | .mk (.decl id) args => .mk (.decl id) (bareAll args)

/-- The same for a list of types. -/
def bareAll : List TypeExpr → List TypeExpr
  | [] => []
  | t :: ts => bare t :: bareAll ts

end

theorem bareAll_eq_map (ts : List TypeExpr) : bareAll ts = ts.map bare := by
  induction ts with
  | nil => rfl
  | cons t ts ih => rw [bareAll, ih, List.map_cons]

end TypeExpr

namespace ModuleSet

variable {set : ModuleSet} {t u : TypeExpr}

/-- A parameter takes no arguments, so where all heads have the arguments that they take, nothing
is lost. -/
theorem Saturated.bare_eq (h : set.Saturated t) : t.bare = t := by
  induction h with
  | @mk head args length_eq _ ih =>
    have hargs : TypeExpr.bareAll args = args := by
      rw [TypeExpr.bareAll_eq_map]
      exact (List.map_congr_left ih).trans (List.map_id args)
    cases head with
    | primitive p => rw [TypeExpr.bare, hargs]
    | typeParam name =>
      obtain rfl : args = [] := List.length_eq_zero_iff.mp length_eq.symm
      rfl
    | decl id => rw [TypeExpr.bare, hargs]

/-- Arguments of parameters do not show in a record. -/
theorem exportType_bare (t : TypeExpr) : set.exportType t.bare = set.exportType t := by
  induction t with
  | mk head args ih =>
    have hargs : set.exportTypes (TypeExpr.bareAll args) = set.exportTypes args := by
      rw [TypeExpr.bareAll_eq_map, exportTypes_eq_map, exportTypes_eq_map, List.map_map]
      exact List.map_congr_left ih
    cases head with
    | primitive p => rw [TypeExpr.bare, exportType, exportType, hargs]
    | typeParam name => rfl
    | decl id => rw [TypeExpr.bare, exportType, exportType, hargs]

end ModuleSet

theorem Primitive.ofName?_name (p : Primitive) : ofName? p.name = some p := by
  cases p <;> decide

/-! ### Resolved sets -/

variable {modules : List Source.Module} {set : ModuleSet} {t u : TypeExpr}

namespace Resolved

variable (h : Resolved modules set)

include h

theorem readType?_exportType (ht : t.Within (· < set.decls.length)) :
    set.readType? (set.exportType t) = some t.bare := by
  induction ht with
  | @mk head args hhead _ ih =>
    have hargs : set.readTypes? (set.exportTypes args) = some (TypeExpr.bareAll args) := by
      rw [ModuleSet.exportTypes_eq_map, TypeExpr.bareAll_eq_map]
      exact set.readTypes?_map_eq_some ih
    cases head with
    | primitive p =>
      rw [ModuleSet.exportType, ModuleSet.readType?, Primitive.ofName?_name, hargs, TypeExpr.bare]
      rfl
    | typeParam name => rfl
    | decl id =>
      have hid : set.lookup (set.scopedName id) = some id := h.lookup_iff.mpr ⟨hhead id rfl, rfl⟩
      rw [ModuleSet.exportType, ModuleSet.readType?, hid, hargs, TypeExpr.bare]
      rfl

/-- Types are spelled alike exactly if they differ in arguments of parameters only. -/
theorem exportType_eq_iff (ht : t.Within (· < set.decls.length))
    (hu : u.Within (· < set.decls.length)) :
    set.exportType t = set.exportType u ↔ t.bare = u.bare := by
  constructor
  · intro heq
    have hread := h.readType?_exportType ht
    rw [heq, h.readType?_exportType hu] at hread
    exact (Option.some.inj hread).symm
  · intro heq
    rw [← ModuleSet.exportType_bare t, heq, ModuleSet.exportType_bare]

end Resolved

/-! ### Main statement -/

/-- **Types are determined by their records.**  A type over the declarations of a resolved set whose
heads have as many arguments as they take is read back from its record, so no other such type has
the same one.  This holds of all types in a set that is compiled.  In general types have one record
if and only if they differ in arguments of parameters only. -/
theorem exportedTypes_laws (h : ModuleSet.resolve modules = .ok set) :
    (∀ t, t.Within (· < set.decls.length) → set.Saturated t →
      set.readType? (set.exportType t) = some t) ∧
    (∀ t u, t.Within (· < set.decls.length) → u.Within (· < set.decls.length) →
      set.Saturated t → set.Saturated u → set.exportType t = set.exportType u → t = u) ∧
    (∀ c, Compilation.ofModules modules = .ok c → ∀ d ∈ set.decls, ∀ t ∈ d.types,
      set.readType? (set.exportType t) = some t) ∧
    ∀ t u, t.Within (· < set.decls.length) → u.Within (· < set.decls.length) →
      (set.exportType t = set.exportType u ↔ t.bare = u.bare) := by
  have hr := resolve_eq_ok_iff.mp h
  have hread : ∀ t, t.Within (· < set.decls.length) → set.Saturated t →
      set.readType? (set.exportType t) = some t := fun t ht hsat => by
    rw [hr.readType?_exportType ht, hsat.bare_eq]
  refine ⟨hread, fun t u ht hu hsat hsat' heq => ?_, fun c hc d hd t ht => ?_,
    fun t u ht hu => hr.exportType_eq_iff ht hu⟩
  · rw [hr.exportType_eq_iff ht hu, hsat.bare_eq, hsat'.bare_eq] at heq
    exact heq
  · obtain ⟨i, hi⟩ := List.mem_iff_getElem?.mp hd
    have hcomp := ofModules_eq_ok_iff.mp hc
    obtain rfl : c.set = set :=
      Except.ok.inj ((resolve_eq_ok_iff.mpr hcomp.resolved).symm.trans h)
    exact hread t ((hr.wellScoped hi).within t ht)
      (ModuleSet.saturated_of_checkAll hcomp.checked (fun _ _ => hr.id_eq) hd t ht)

/-- The type `Vector<Label<geometry.Point>>` is spelled with the names of both modules, and read
back; `Vector<Label<T>>` has another record. -/
theorem label_exportedTypes :
    let point : TypeExpr := .mk (.primitive .vector) [.mk (.decl 0) [.mk (.decl 1) []]]
    let param : TypeExpr := .mk (.primitive .vector) [.mk (.decl 0) [.param "T"]]
    labelSet.exportType point = .mk (.primitive "Vector")
      [.mk (.reference ⟨"labels", "Label"⟩) [.mk (.reference ⟨"geometry", "Point"⟩) []]] ∧
    labelSet.readType? (labelSet.exportType point) = some point ∧
    labelSet.exportType point ≠ labelSet.exportType param := by
  intro point param
  have h : ModuleSet.resolve [labelModule, Graph.pointModule] = .ok labelSet := rfl
  have hsaturated {head : TypeRef} {args : List TypeExpr} (hlen : labelSet.arity head = args.length)
      (hargs : ∀ t ∈ args, labelSet.Saturated t) : labelSet.Saturated (.mk head args) :=
    .mk hlen hargs
  have hone {t : TypeExpr} (ht : labelSet.Saturated t) :
      labelSet.Saturated (.mk (.primitive .vector) [.mk (.decl 0) [t]]) :=
    hsaturated rfl (List.forall_mem_singleton.mpr
      (hsaturated rfl (List.forall_mem_singleton.mpr ht)))
  have hwithin {t : TypeExpr} (ht : t.Within (· < labelSet.decls.length)) :
      (TypeExpr.mk (.primitive .vector) [.mk (.decl 0) [t]]).Within (· < labelSet.decls.length) :=
    .mk (fun _ hid => by cases hid) (List.forall_mem_singleton.mpr
      (.mk (fun id hid => by cases hid; decide) (List.forall_mem_singleton.mpr ht)))
  have hpoint : labelSet.Saturated point := hone (hsaturated rfl fun _ h => nomatch h)
  have hparam : labelSet.Saturated param := hone (hsaturated rfl fun _ h => nomatch h)
  have hpoint' : point.Within (· < labelSet.decls.length) :=
    hwithin (.mk (fun id hid => by cases hid; decide) fun _ h => nomatch h)
  have hparam' : param.Within (· < labelSet.decls.length) :=
    hwithin (.mk (fun _ hid => by cases hid) fun _ h => nomatch h)
  obtain ⟨hread, hinjective, -, -⟩ := exportedTypes_laws h
  refine ⟨rfl, hread point hpoint' hpoint, fun heq => ?_⟩
  exact absurd (hinjective point param hpoint' hparam' hpoint hparam heq) (by decide)

end Adl
