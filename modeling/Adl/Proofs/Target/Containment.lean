import Adl.Proofs.Types.Substitution
import Adl.Target.Containment
import Mathlib.Logic.Relation

/-!
# Containment — the search for a declaration is reachability

`Containment.search` goes through a declaration once at most.  It finds its target exactly if a path
leads there from the stack that leaves none of the declarations seen (`search_eq_true_iff`): a
path through a declaration that is seen from now on can be cut to what comes after its last visit.
In the containment of a set, paths lead from declarations to those of which their values hold values
inside themselves (`ofSet_edge_eq`).
-/

namespace Adl

open Relation (ReflTransGen)

namespace Containment

variable {g : Containment} {seen : List DeclId} {a b id target : DeclId}

/-- A value of `a` holds a value of `b` directly. -/
def Edge (g : Containment) (a b : DeclId) : Prop := b ∈ (g[a]?).getD []

/-- The same, if `a` has not been seen. -/
def FreshEdge (g : Containment) (seen : List DeclId) (a b : DeclId) : Prop :=
  a ∉ seen ∧ g.Edge a b

theorem not_edge_of_length_le (h : g.length ≤ a) : ¬ g.Edge a b := by
  rw [Edge, List.getElem?_eq_none h]
  exact List.not_mem_nil

theorem FreshEdge.of_cons (h : g.FreshEdge (id :: seen) a b) : g.FreshEdge seen a b :=
  ⟨fun hmem => h.1 (List.mem_cons_of_mem _ hmem), h.2⟩

/-- A path either never leaves `id`, or its end is reached from a declaration that `id` holds by a
path that never leaves `id`. -/
theorem path_after (id : DeclId) (h : ReflTransGen (g.FreshEdge seen) a target) :
    ReflTransGen (g.FreshEdge (id :: seen)) a target ∨
      ∃ b, g.Edge id b ∧ ReflTransGen (g.FreshEdge (id :: seen)) b target := by
  induction h using ReflTransGen.head_induction_on with
  | refl => exact .inl .refl
  | @head a b hab _ ih =>
    rcases ih with hb | hid
    · by_cases ha : a = id
      · exact .inr ⟨b, ha ▸ hab.2, hb⟩
      · have hfresh : a ∉ id :: seen := by simp [ha, hab.1]
        exact .inl (.head ⟨hfresh, hab.2⟩ hb)
    · exact .inr hid

/-- A path from a declaration that cannot be left is empty. -/
theorem eq_of_path (h : ReflTransGen (g.FreshEdge seen) a target)
    (hstuck : ∀ b, ¬ g.FreshEdge seen a b) : a = target := by
  rcases ReflTransGen.cases_head h with heq | ⟨b, hab, -⟩
  · exact heq
  · exact absurd hab (hstuck b)

theorem search_eq_true_iff {stack : List DeclId} :
    g.search target seen stack = true ↔
      ∃ a ∈ stack, ReflTransGen (g.FreshEdge seen) a target := by
  induction seen, stack using search.induct g target with
  | case1 seen => simp [search]
  | case2 seen rest =>
    rw [search, if_pos rfl]
    exact iff_of_true rfl ⟨target, List.mem_cons_self, .refl⟩
  | case3 seen id rest hne hs ih =>
    rw [search, if_neg hne, dif_pos hs, ih]
    simp only [List.mem_cons, exists_eq_or_imp]
    refine (or_iff_right fun h => ?_).symm
    exact hne (eq_of_path h fun b hb => hb.1 hs)
  | case4 seen id rest hne hs hlt ih =>
    rw [search, if_neg hne, dif_neg hs, dif_pos hlt, ih]
    have hedge : ∀ b, b ∈ g[id] ↔ g.Edge id b := by
      intro b
      rw [Edge, List.getElem?_eq_getElem hlt, Option.getD_some]
    constructor
    · rintro ⟨a, hmem, h⟩
      have h' := ReflTransGen.mono (fun _ _ => FreshEdge.of_cons) _ _ h
      rcases List.mem_append.mp hmem with ha | ha
      · exact ⟨id, List.mem_cons_self, .head ⟨hs, (hedge a).mp ha⟩ h'⟩
      · exact ⟨a, List.mem_cons_of_mem _ ha, h'⟩
    · rintro ⟨a, hmem, h⟩
      rcases path_after id h with h | ⟨b, hb, h⟩
      · rcases List.mem_cons.mp hmem with rfl | ha
        · exact absurd (eq_of_path h fun b hb => hb.1 List.mem_cons_self) hne
        · exact ⟨a, List.mem_append_right _ ha, h⟩
      · exact ⟨b, List.mem_append_left _ ((hedge b).mpr hb), h⟩
  | case5 seen id rest hne hs hge ih =>
    rw [search, if_neg hne, dif_neg hs, dif_neg hge, ih]
    simp only [List.mem_cons, exists_eq_or_imp]
    refine (or_iff_right fun h => ?_).symm
    exact hne (eq_of_path h fun b hb => not_edge_of_length_le (Nat.le_of_not_lt hge) hb.2)

/-- One declaration reaches another if a path of declarations that hold each other leads there. -/
theorem reaches_eq_true_iff : g.reaches a target = true ↔ ReflTransGen g.Edge a target := by
  have hedge : g.FreshEdge [] = g.Edge := by
    funext a b
    simp [FreshEdge]
  rw [reaches, search_eq_true_iff, hedge]
  simp

/-! ### The containment of a set -/

theorem ofSet_edge_iff {set : ModuleSet} :
    (ofSet set).Edge a b ↔ b ∈ heldAll (set.decl a).types := by
  rw [Edge, ofSet, ModuleSet.decl, List.getElem?_map]
  cases set.decls[a]? with
  | none => simp [Decl.types, Decl.members, default, heldAll]
  | some d => rfl

theorem mem_heldAll_iff {ts : List TypeExpr} : b ∈ heldAll ts ↔ ∃ t ∈ ts, b ∈ t.held := by
  induction ts with
  | nil => simp [heldAll]
  | cons t ts ih => simp [heldAll, ih]

end Containment

/-! ### What values hold -/

/-- Values of types with this head keep the values of their arguments elsewhere. -/
def TypeRef.Indirect (head : TypeRef) : Prop :=
  head = .primitive .vector ∨ head = .primitive .stringMap ∨ head = .primitive .typeToken

/-- A value of the type holds a value of a declaration inside itself: one of its head, or one in a
value of an argument that is not kept elsewhere. -/
inductive TypeExpr.HoldsInline (id : DeclId) : TypeExpr → Prop
  | head (args : List TypeExpr) : HoldsInline id (.mk (.decl id) args)
  | arg {head : TypeRef} {args : List TypeExpr} {t : TypeExpr} (hhead : ¬ head.Indirect)
      (ht : t ∈ args) (h : HoldsInline id t) : HoldsInline id (.mk head args)

/-- A value of `a` holds a value of `b` inside itself, in a member or as its target. -/
def ModuleSet.HoldsInline (set : ModuleSet) (a b : DeclId) : Prop :=
  ∃ t ∈ (set.decl a).types, t.HoldsInline b

theorem TypeExpr.holdsInline_mk_iff {head : TypeRef} {args : List TypeExpr} {id : DeclId} :
    (mk head args).HoldsInline id ↔
      head = .decl id ∨ ¬ head.Indirect ∧ ∃ t ∈ args, t.HoldsInline id := by
  constructor
  · intro h
    cases h with
    | head => exact .inl rfl
    | arg hhead ht h => exact .inr ⟨hhead, _, ht, h⟩
  · rintro (rfl | ⟨hhead, t, ht, h⟩)
    · exact .head args
    · exact .arg hhead ht h

theorem TypeExpr.mem_held_iff {t : TypeExpr} {id : DeclId} : id ∈ t.held ↔ t.HoldsInline id := by
  induction t with
  | mk head args ih =>
    have hargs : id ∈ heldAll args ↔ ∃ t ∈ args, t.HoldsInline id := by
      rw [Containment.mem_heldAll_iff]
      exact exists_congr fun t => and_congr_right (ih t)
    rw [holdsInline_mk_iff, ← hargs]
    cases head with
    | primitive p => cases p <;> simp [held, TypeRef.Indirect]
    | typeParam name => simp [held, TypeRef.Indirect]
    | decl id' => simp [held, TypeRef.Indirect, eq_comm]

theorem Containment.ofSet_edge_eq (set : ModuleSet) : (ofSet set).Edge = set.HoldsInline := by
  funext a b
  rw [ofSet_edge_iff, mem_heldAll_iff, ModuleSet.HoldsInline]
  simp only [TypeExpr.mem_held_iff]

end Adl
