import Adl.Proofs.Target.Containment
import Adl.Proofs.Types.Acyclic
import Adl.Proofs.Value.Links

/-!
# Boxes — where values contain themselves

A value of a declaration `Holds` values of other declarations: through the members of a struct or a
union that are not boxed, and through the target of an alias or a newtype, which never is.  A type
whose values hold values of the same type has no finite size.  No struct and no union is such a
type: a member that leads back to its declaration is boxed (`not_holds_back_of_member`).  So all
that is left are circles of aliases and newtypes, and in a checked set a newtype is part of each of
them (`acyclic_holds_iff`).
-/

namespace Adl

open Relation (ReflTransGen TransGen)

theorem TypeExpr.HoldsInline.applies {t : TypeExpr} {id : DeclId} (h : t.HoldsInline id) :
    t.Applies id := by
  induction h with
  | head args => exact .head args
  | arg _ ht _ ih => exact .arg ht ih

namespace ModuleSet

/-- The target of the alias or newtype `a` holds values of `b`. -/
def TargetHolds (set : ModuleSet) (a b : DeclId) : Prop :=
  ∃ t, (set.decl a).target? = some t ∧ b ∈ t.held

/-- A value of `a` holds a value of `b` that is in no box. -/
inductive Holds (set : ModuleSet) (a b : DeclId) : Prop
  | member {ms : List Member} {m : Member}
      (hbody : (set.decl a).body = .struct ms ∨ (set.decl a).body = .union ms) (hm : m ∈ ms)
      (hbox : (Containment.ofSet set).needsBox m.type a = false) (hb : b ∈ m.type.held)
  | target (h : set.TargetHolds a b)

/-- A declaration is a new type for its target. -/
def IsNewtype (set : ModuleSet) (id : DeclId) : Prop :=
  ∃ t default, (set.decl id).body = .newtype t default

variable {set : ModuleSet} {a b id : DeclId} {t : TypeExpr}

/-! ### Members -/

theorem mem_types_of_target? (h : (set.decl id).target? = some t) : t ∈ (set.decl id).types := by
  rw [Decl.target?] at h
  rw [Decl.types]
  cases hbody : (set.decl id).body with
  | «alias» u =>
    rw [hbody] at h
    cases h
    exact List.mem_singleton_self _
  | newtype u default =>
    rw [hbody] at h
    cases h
    exact List.mem_singleton_self _
  | _ =>
    rw [hbody] at h
    cases h

theorem Holds.edge (h : set.Holds a b) : (Containment.ofSet set).Edge a b := by
  rw [Containment.ofSet_edge_eq]
  cases h with
  | member hbody hm _ hb =>
    refine ⟨_, Decl.type_mem_types ?_, TypeExpr.mem_held_iff.mp hb⟩
    rcases hbody with hbody | hbody <;> rwa [Decl.members, hbody]
  | target h =>
    obtain ⟨t, ht, hb⟩ := h
    exact ⟨t, mem_types_of_target? ht, TypeExpr.mem_held_iff.mp hb⟩

/-- What is held by a member without a box does not lead back to the owner. -/
theorem not_holds_back_of_member {m : Member}
    (hbox : (Containment.ofSet set).needsBox m.type a = false) (hb : b ∈ m.type.held) :
    ¬ ReflTransGen set.Holds b a := by
  intro hback
  have hreaches : (Containment.ofSet set).reaches b a = true :=
    Containment.reaches_eq_true_iff.mpr (ReflTransGen.mono (fun _ _ => Holds.edge) _ _ hback)
  rw [Containment.needsBox, List.any_eq_false] at hbox
  exact hbox b hb hreaches

/-- A value that is held and leads back is held by a target. -/
theorem Holds.targetHolds (h : set.Holds a b) (hback : ReflTransGen set.Holds b a) :
    set.TargetHolds a b := by
  cases h with
  | member _ _ hbox hb => exact absurd hback (not_holds_back_of_member hbox hb)
  | target h => exact h

theorem targetHolds_of_holds (h : ReflTransGen set.Holds a b)
    (hback : ReflTransGen set.Holds b a) : ReflTransGen set.TargetHolds a b := by
  induction h using ReflTransGen.head_induction_on with
  | refl => exact .refl
  | head hac hcb ih => exact .head (hac.targetHolds (hcb.trans hback)) (ih (hback.tail hac))

/-- Every circle is one of targets. -/
theorem transGen_targetHolds (h : TransGen set.Holds a a) : TransGen set.TargetHolds a a := by
  obtain ⟨b, hab, hba⟩ := TransGen.head'_iff.mp h
  exact .head' (hab.targetHolds hba) (targetHolds_of_holds hba (.single hab))

/-! ### Targets -/

/-- What a target holds is an alias that it uses, or a newtype, or stands for no other type. -/
theorem TargetHolds.cases (h : set.TargetHolds a b) (ha : ¬ set.IsNewtype a) :
    set.AliasUse a b ∨ set.IsNewtype b ∨ ∀ c, ¬ set.TargetHolds b c := by
  obtain ⟨t, ht, hb⟩ := h
  have hbody : (set.decl a).body = .alias t := by
    unfold Decl.target? at ht
    split at ht
    · next hbody =>
      cases ht
      exact hbody
    · next hbody => exact absurd ⟨_, _, hbody⟩ ha
    · cases ht
  cases hbodyb : (set.decl b).body with
  | «alias» u =>
    have halias : set.isAlias b := by rw [isAlias, Decl.isAlias, hbodyb]
    exact .inl ⟨halias, t, hbody, (TypeExpr.mem_held_iff.mp hb).applies⟩
  | newtype u default => exact .inr (.inl ⟨u, default, hbodyb⟩)
  | _ =>
    refine .inr (.inr ?_)
    rintro c ⟨u, hu, -⟩
    rw [Decl.target?, hbodyb] at hu
    cases hu

/-- Where no alias leads back to itself, a newtype is part of every circle of targets.  The
induction is on the aliases that an alias uses. -/
theorem not_targetHolds_back (hwf : WellFounded fun b a => set.AliasUse a b)
    (h : ∀ id, set.IsNewtype id → ¬ TransGen set.TargetHolds id id) :
    ¬ TransGen set.TargetHolds a a := by
  induction a using hwf.induction with
  | h a ih =>
    intro hcircle
    obtain ⟨b, hab, hba⟩ := TransGen.head'_iff.mp hcircle
    have hcircle' : TransGen set.TargetHolds b b := .tail' hba hab
    rcases hab.cases fun hnew => h a hnew hcircle with huse | hnew | hstuck
    · exact ih b huse hcircle'
    · exact h b hnew hcircle'
    · obtain ⟨c, hbc, -⟩ := TransGen.head'_iff.mp hcircle'
      exact hstuck c hbc

end ModuleSet

/-! ### Main statement -/

open ModuleSet

variable {modules : List Source.Module} {set : ModuleSet}

/-- In a checked set no struct and no union holds itself, and nothing does, unless a newtype holds
itself through targets of newtypes and aliases alone. -/
theorem acyclic_holds_iff (hset : ModuleSet.resolve modules = .ok set)
    (hcheck : set.checkAll = .ok ()) :
    (∀ id ms, (set.decl id).body = .struct ms ∨ (set.decl id).body = .union ms →
      ¬ TransGen set.Holds id id) ∧
    ((∀ id, ¬ TransGen set.Holds id id) ↔
      ∀ id, set.IsNewtype id → ¬ TransGen set.TargetHolds id id) := by
  have hwf := wellFounded_aliasUse hcheck fun _ _ => (resolve_eq_ok_iff.mp hset).id_eq
  refine ⟨fun id ms hbody hcircle => ?_, fun h id _ hcircle => ?_, fun h id hcircle => ?_⟩
  · obtain ⟨b, ⟨t, ht, -⟩, -⟩ := TransGen.head'_iff.mp (transGen_targetHolds hcircle)
    rw [Decl.target?] at ht
    rcases hbody with hbody | hbody <;> rw [hbody] at ht <;> cases ht
  · exact h id (TransGen.mono (fun _ _ => Holds.target) _ _ hcircle)
  · exact not_targetHolds_back hwf h (transGen_targetHolds hcircle)

/-- The module of `union Tree { Void leaf; Node node; }; struct Node { Tree left; Forest rest; };`
and `newtype Forest = Vector<Tree>;`, as it is parsed. -/
def forestModule : Source.Module :=
  let type (name : String) : Source.TypeExpr := .mk name [] .start
  ⟨"trees", [],
    [⟨"Tree", [], [], .union [⟨"leaf", "leaf", type "Void", none, [], .start⟩,
        ⟨"node", "node", type "Node", none, [], .start⟩], .start⟩,
      ⟨"Node", [], [], .struct [⟨"left", "left", type "Tree", none, [], .start⟩,
        ⟨"rest", "rest", type "Forest", none, [], .start⟩], .start⟩,
      ⟨"Forest", [], [], .newtype (.mk "Vector" [type "Tree"] .start) none, .start⟩], []⟩

/-- What `forestModule` resolves to. -/
def forestSet : ModuleSet :=
  let type (id : DeclId) : TypeExpr := .mk (.decl id) []
  ⟨[⟨"trees", [], [0, 1, 2], []⟩],
    [⟨0, "trees", "Tree", [], [], .union
        [⟨"leaf", "leaf", .mk (.primitive .void) [], none, []⟩,
          ⟨"node", "node", type 1, none, []⟩]⟩,
      ⟨1, "trees", "Node", [], [], .struct
        [⟨"left", "left", type 0, none, []⟩, ⟨"rest", "rest", type 2, none, []⟩]⟩,
      ⟨2, "trees", "Forest", [], [], .newtype (.mk (.primitive .vector) [type 0]) none⟩],
    [(⟨"trees", "Tree"⟩, 0), (⟨"trees", "Node"⟩, 1), (⟨"trees", "Forest"⟩, 2)]⟩

/-- Trees and nodes lead back to themselves and are boxed, forests keep their trees elsewhere, and
so nothing holds itself. -/
theorem forest_acyclic :
    ModuleSet.resolve [forestModule] = .ok forestSet ∧ forestSet.checkAll = .ok () ∧
      (Containment.ofSet forestSet).needsBox (.mk (.decl 1) []) 0 = true ∧
      ∀ id, ¬ TransGen forestSet.Holds id id := by
  have hset : ModuleSet.resolve [forestModule] = .ok forestSet := rfl
  have hcheck : forestSet.checkAll = .ok () := rfl
  have hstuck : ∀ id b, ¬ forestSet.TargetHolds id b := by
    rintro id b ⟨t, ht, hb⟩
    match id with
    | 0 => cases ht
    | 1 => cases ht
    | 2 =>
      cases ht
      cases hb
    | _ + 3 => cases ht
  refine ⟨hset, hcheck, by cbv, ?_⟩
  refine (acyclic_holds_iff hset hcheck).2.mpr fun id _ hcircle => ?_
  obtain ⟨b, hb, -⟩ := TransGen.head'_iff.mp hcircle
  exact hstuck id b hb

/-- The module of `struct Cons<T> { Int32 head; T tail; };` and
`newtype List = Nullable<Cons<List>>;`, as it is parsed. -/
def listModule : Source.Module :=
  let type (name : String) (args : List Source.TypeExpr) : Source.TypeExpr := .mk name args .start
  ⟨"lists", [],
    [⟨"Cons", ["T"], [], .struct [⟨"head", "head", type "Int32" [], none, [], .start⟩,
        ⟨"tail", "tail", type "T" [], none, [], .start⟩], .start⟩,
      ⟨"List", [], [], .newtype (type "Nullable" [type "Cons" [type "List" []]]) none, .start⟩], []⟩

/-- What `listModule` resolves to. -/
def listSet : ModuleSet :=
  ⟨[⟨"lists", [], [0, 1], []⟩],
    [⟨0, "lists", "Cons", ["T"], [], .struct
        [⟨"head", "head", .mk (.primitive .int32) [], none, []⟩,
          ⟨"tail", "tail", .param "T", none, []⟩]⟩,
      ⟨1, "lists", "List", [], [],
        .newtype (.mk (.primitive .nullable) [.mk (.decl 0) [.mk (.decl 1) []]]) none⟩],
    [(⟨"lists", "Cons"⟩, 0), (⟨"lists", "List"⟩, 1)]⟩

/-- A list that is a newtype passes the check, and holds itself. -/
theorem list_holds_self :
    ModuleSet.resolve [listModule] = .ok listSet ∧ listSet.checkAll = .ok () ∧
      listSet.Holds 1 1 := by
  refine ⟨rfl, rfl, .target ⟨_, rfl, ?_⟩⟩
  decide

end Adl
