import Adl.Compile.Library
import Mathlib.Data.List.Basic
import Mathlib.Data.String.Basic

/-!
# Dependencies — the modules that a module names

A module depends on the modules that it imports and on those that qualify a name somewhere in the
types of its declarations (`Module.DependsOn`).
-/

namespace Adl.Source

/-- Induction on a written type, where a property may be assumed of all arguments. -/
@[elab_as_elim, induction_eliminator]
theorem TypeExpr.ind {motive : TypeExpr → Prop}
    (mk : ∀ name args position, (∀ t ∈ args, motive t) → motive (.mk name args position))
    (t : TypeExpr) : motive t :=
  @TypeExpr.rec motive (fun ts => ∀ t ∈ ts, motive t) mk (fun _ h => nomatch h)
    (fun _ _ h hs _ ht => (List.mem_cons.mp ht).elim (fun e => e ▸ h) (hs _)) t

theorem TypeExpr.mem_qualifiersOf_iff {ts : List TypeExpr} {q : String} :
    q ∈ qualifiersOf ts ↔ ∃ t ∈ ts, q ∈ t.qualifiers := by
  induction ts with
  | nil => simp [qualifiersOf]
  | cons t ts ih => simp [qualifiersOf, ih]

theorem TypeExpr.mem_qualifiers_iff {name q : String} {args : List TypeExpr} {p : Position} :
    q ∈ (mk name args p).qualifiers ↔
      (splitName name).1 = some q ∨ ∃ t ∈ args, q ∈ t.qualifiers := by
  rw [qualifiers, List.mem_append, Option.mem_toList, mem_qualifiersOf_iff]

/-- A name is written in a type, as its head or in an argument at any depth. -/
inductive TypeExpr.Writes (name : String) : TypeExpr → Prop
  | head (args : List TypeExpr) (position : Position) : Writes name (.mk name args position)
  | arg {head : String} {args : List TypeExpr} {position : Position} {t : TypeExpr} (ht : t ∈ args)
      (h : Writes name t) : Writes name (.mk head args position)

theorem TypeExpr.mem_qualifiers_iff_writes {t : TypeExpr} {q : String} :
    q ∈ t.qualifiers ↔ ∃ name, t.Writes name ∧ (splitName name).1 = some q := by
  induction t with
  | mk head args position ih =>
    rw [mem_qualifiers_iff]
    constructor
    · rintro (h | ⟨t, ht, hq⟩)
      · exact ⟨head, .head args position, h⟩
      · obtain ⟨name, hname, hsplit⟩ := (ih t ht).mp hq
        exact ⟨name, .arg ht hname, hsplit⟩
    · rintro ⟨name, hname, hsplit⟩
      cases hname with
      | head => exact .inl hsplit
      | arg ht h => exact .inr ⟨_, ht, (ih _ ht).mpr ⟨name, h, hsplit⟩⟩

namespace Module

/-- A module imports a module, or qualifies a name in one of its types by it. -/
def DependsOn (m : Module) (name : String) : Prop :=
  (∃ i ∈ m.imports, i.module = name) ∨
    ∃ d ∈ m.decls, ∃ t ∈ d.types, ∃ written, t.Writes written ∧ (splitName written).1 = some name

theorem mem_insertName_iff {name n : String} {names : List String} :
    n ∈ insertName name names ↔ n = name ∨ n ∈ names := by
  induction names with
  | nil => simp [insertName]
  | cons head names ih =>
    rw [insertName]
    by_cases hlt : name < head
    · rw [if_pos hlt, List.mem_cons]
    · by_cases heq : name = head
      · subst heq
        simp
      · rw [if_neg hlt, if_neg heq, List.mem_cons, ih, List.mem_cons]
        exact or_left_comm

/-- Inserting texts one after the other adds them to those that are there. -/
theorem mem_foldl_insertName_iff {n : String} {added names : List String} :
    n ∈ added.foldl (fun names n => insertName n names) names ↔ n ∈ added ∨ n ∈ names := by
  induction added generalizing names with
  | nil => simp
  | cons a added ih =>
    rw [List.foldl_cons, ih, mem_insertName_iff, List.mem_cons]
    exact or_left_comm.trans or_assoc.symm

theorem pairwise_insertName {name : String} {names : List String} (h : names.Pairwise (· < ·)) :
    (insertName name names).Pairwise (· < ·) := by
  induction names with
  | nil => exact List.pairwise_singleton _ _
  | cons head names ih =>
    obtain ⟨hhead, hnames⟩ := List.pairwise_cons.mp h
    rw [insertName]
    split
    · next hlt =>
      exact .cons (List.forall_mem_cons.mpr ⟨hlt, fun n hn => lt_trans hlt (hhead n hn)⟩) h
    split
    · exact h
    · next hlt hne =>
      have hgt : head < name := lt_of_le_of_ne (le_of_not_gt hlt) (Ne.symm hne)
      refine .cons (fun n hn => ?_) (ih hnames)
      rcases mem_insertName_iff.mp hn with rfl | hn
      · exact hgt
      · exact hhead n hn

/-- Inserting texts one after the other keeps them sorted. -/
theorem pairwise_foldl_insertName {added names : List String} (h : names.Pairwise (· < ·)) :
    (added.foldl (fun names n => insertName n names) names).Pairwise (· < ·) := by
  induction added generalizing names with
  | nil => exact h
  | cons a added ih => exact ih (pairwise_insertName h)

theorem mem_referenced_iff {m : Module} {q : String} :
    q ∈ m.referenced ↔ ∃ d ∈ m.decls, ∃ t ∈ d.types, q ∈ t.qualifiers := by
  rw [referenced, mem_foldl_insertName_iff]
  simp only [List.mem_flatMap, List.not_mem_nil, or_false]

theorem mem_dependencies_iff {m : Module} {name : String} :
    name ∈ m.dependencies ↔ (∃ i ∈ m.imports, i.module = name) ∨
      ∃ d ∈ m.decls, ∃ t ∈ d.types, name ∈ t.qualifiers := by
  have himported : name ∈ m.imported ↔ ∃ i ∈ m.imports, i.module = name := List.mem_map
  rw [← mem_referenced_iff, ← himported, dependencies, List.mem_append, List.mem_filter]
  by_cases h : name ∈ m.imported <;> simp [h]

theorem mem_dependencies_iff_dependsOn {m : Module} {name : String} :
    name ∈ m.dependencies ↔ m.DependsOn name := by
  rw [mem_dependencies_iff]
  simp only [TypeExpr.mem_qualifiers_iff_writes, DependsOn]

end Module

end Adl.Source
