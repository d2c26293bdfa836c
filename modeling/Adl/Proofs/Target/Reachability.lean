import Adl.Proofs.Model.Indexed
import Adl.Proofs.Target.RustRenaming

/-!
# Reachability — the search for a declaration, step by step

A value `HoldsInline` values of other declarations, at any depth of its type.  Whether these lead
back to a declaration is found by a search that keeps the declarations which it has seen and a stack
of those that it has still to look at.  A `Step` takes the next one from the stack and puts all that
it holds there, in any order and however often, unless it has been seen.  No step changes the answer
(`Step.search_eq`) or leaves the set, and no search goes on for ever, so every search ends with the
answer of `Containment.reaches`: whether a path leads to the target (`reaches_laws`).
-/

namespace Adl

open Relation (ReflTransGen)

namespace Containment

variable {g : Containment} {a b target : DeclId}

theorem needsBox_eq_true_iff {t : TypeExpr} :
    g.needsBox t b = true ↔ ∃ id, t.HoldsInline id ∧ ReflTransGen g.Edge id b := by
  rw [needsBox, List.any_eq_true]
  simp only [TypeExpr.mem_held_iff, reaches_eq_true_iff]

/-! ### Steps -/

/-- Where a search is: the declarations that it has seen, and those that it has still to look at,
the next one first. -/
structure SearchState where
  seen : List DeclId
  stack : List DeclId

/-- The search begins with one declaration to look at. -/
def SearchState.start (a : DeclId) : SearchState := ⟨[], [a]⟩

/-- The answer of a search that is at its end: nothing is left to look at, or the target is
found. -/
def SearchState.answer? (target : DeclId) (s : SearchState) : Option Bool :=
  match s.stack with
  | [] => some false
  | id :: _ => if id = target then some true else none

theorem SearchState.answer?_cons {seen rest : List DeclId} {id : DeclId} :
    answer? target ⟨seen, id :: rest⟩ = if id = target then some true else none := rfl

/-- One step of a search.  There is none from a declaration that does not exist. -/
inductive Step (g : Containment) (target : DeclId) : SearchState → SearchState → Prop
  | skip {seen rest : List DeclId} {id : DeclId} (hne : id ≠ target) (hs : id ∈ seen) :
      Step g target ⟨seen, id :: rest⟩ ⟨seen, rest⟩
  | enter {seen rest pushed : List DeclId} {id : DeclId} (hne : id ≠ target) (hs : id ∉ seen)
      (hlt : id < g.length) (hpushed : pushed.Perm g[id]) :
      Step g target ⟨seen, id :: rest⟩ ⟨id :: seen, pushed ++ rest⟩

/-- However the steps are chosen, the search goes on until it ends with the answer `r`. -/
inductive Answers (g : Containment) (target : DeclId) (r : Bool) : SearchState → Prop
  | done {s : SearchState} (h : s.answer? target = some r) : Answers g target r s
  | step {s : SearchState} (hgo : ∃ s', g.Step target s s')
      (h : ∀ s', g.Step target s s' → Answers g target r s') : Answers g target r s

variable {s s' : SearchState} {r : Bool}

/-- What a search has left: the declarations that it has not seen, and those on its stack. -/
def SearchState.size (g : Containment) (s : SearchState) : ℕ × ℕ :=
  ((g.unseen s.seen).length, s.stack.length)

/-- Each step sees one declaration more, or leaves one less to look at. -/
theorem wellFounded_step (g : Containment) (target : DeclId) :
    WellFounded fun s' s => g.Step target s s' := by
  refine Subrelation.wf (fun {s' s} h => ?_)
    (InvImage.wf (SearchState.size g) (WellFounded.prod_lex wellFounded_lt wellFounded_lt))
  cases h with
  | skip => exact .right _ (Nat.lt_succ_self _)
  | enter hne hs hlt hpushed => exact .left _ _ (unseen_length_lt hlt hs)

theorem Step.search_eq (h : g.Step target s s') :
    g.search target s'.seen s'.stack = g.search target s.seen s.stack := by
  cases h with
  | skip hne hs =>
    conv_rhs => rw [search, if_neg hne, dif_pos hs]
  | @enter seen rest pushed id hne hs hlt hpushed =>
    conv_rhs => rw [search, if_neg hne, dif_neg hs, dif_pos hlt]
    rw [Bool.eq_iff_iff, search_eq_true_iff, search_eq_true_iff]
    simp only [List.mem_append, hpushed.mem_iff]

theorem search_of_answer? (h : s.answer? target = some r) :
    g.search target s.seen s.stack = r := by
  obtain ⟨seen, stack⟩ := s
  cases stack with
  | nil =>
    cases h
    rw [search]
  | cons id rest =>
    by_cases heq : id = target
    · rw [SearchState.answer?_cons, if_pos heq] at h
      cases h
      rw [search, if_pos heq]
    · rw [SearchState.answer?_cons, if_neg heq] at h
      cases h

/-- A search that is not at its end goes on, if the declarations on the stack exist. -/
theorem exists_step (hstack : ∀ x ∈ s.stack, x < g.length) (h : s.answer? target = none) :
    ∃ s', g.Step target s s' := by
  obtain ⟨seen, stack⟩ := s
  cases stack with
  | nil => cases h
  | cons id rest =>
    have hne : id ≠ target := by
      intro heq
      rw [SearchState.answer?_cons, if_pos heq] at h
      cases h
    by_cases hs : id ∈ seen
    · exact ⟨_, .skip hne hs⟩
    · exact ⟨_, .enter hne hs (hstack id List.mem_cons_self) (List.Perm.refl _)⟩

theorem Step.stack_lt (hg : ∀ a b, g.Edge a b → b < g.length) (h : g.Step target s s')
    (hstack : ∀ x ∈ s.stack, x < g.length) : ∀ x ∈ s'.stack, x < g.length := by
  cases h with
  | skip => exact (List.forall_mem_cons.mp hstack).2
  | @enter seen rest pushed id hne hs hlt hpushed =>
    refine List.forall_mem_append.mpr ⟨fun x hx => hg id x ?_, (List.forall_mem_cons.mp hstack).2⟩
    rw [Edge, List.getElem?_eq_getElem hlt, Option.getD_some]
    exact hpushed.mem_iff.mp hx

/-- Every search among declarations that exist ends.  The induction is on the steps that it can
take, none of which changes the answer. -/
theorem answers_search (hg : ∀ a b, g.Edge a b → b < g.length)
    (hstack : ∀ x ∈ s.stack, x < g.length) :
    g.Answers target (g.search target s.seen s.stack) s := by
  induction s using (wellFounded_step g target).induction with
  | h s ih =>
    cases hanswer : s.answer? target with
    | some r =>
      rw [search_of_answer? hanswer]
      exact .done hanswer
    | none =>
      refine .step (exists_step hstack hanswer) fun s' h => ?_
      rw [← h.search_eq]
      exact ih s' h (h.stack_lt hg hstack)

end Containment

namespace Resolved

variable {modules : List Source.Module} {set : ModuleSet} (h : Resolved modules set)

include h

/-- What values of a declaration hold is declared. -/
theorem lt_of_holdsInline {a b : DeclId} (hc : set.HoldsInline a b) : b < set.decls.length := by
  obtain ⟨t, ht, hb⟩ := hc
  cases hx : set.decls[a]? with
  | none =>
    rw [ModuleSet.decl, hx] at ht
    cases ht
  | some x =>
    rw [ModuleSet.decl_of_getElem? hx] at ht
    exact ((h.wellScoped hx).within t ht).of_holdsInline hb

end Resolved

/-! ### Main statement -/

/-- **The search for a declaration decides reachability.**  In a resolved set, and so in each that
is compiled, every search for one declaration from another one ends, whatever the order in which it
looks at things, and finds it if and only if a path of declarations leads there, each of which
holds the next one by value.  So a member of a type needs a box exactly if its values hold a
declaration from which a path leads back to the owner. -/
theorem reaches_laws {modules : List Source.Module} {set : ModuleSet}
    (h : ModuleSet.resolve modules = .ok set) :
    let g := Containment.ofSet set
    (∀ a < set.decls.length, ∀ b, g.Answers b (g.reaches a b) (.start a)) ∧
    (∀ a b, g.reaches a b = true ↔ ReflTransGen set.HoldsInline a b) ∧
    (∀ t owner, g.needsBox t owner = true ↔
      ∃ id, t.HoldsInline id ∧ ReflTransGen set.HoldsInline id owner) ∧
    ∀ a, ∀ t ∈ (set.decl a).types, ∀ id, t.HoldsInline id → id < set.decls.length := by
  intro g
  have hr := resolve_eq_ok_iff.mp h
  have hedge : g.Edge = set.HoldsInline := Containment.ofSet_edge_eq set
  have hlen : g.length = set.decls.length := List.length_map _
  refine ⟨fun a ha b => ?_, fun a b => ?_, fun t owner => ?_, fun a t ht id hid => ?_⟩
  · refine Containment.answers_search (s := .start a) ?_ (List.forall_mem_singleton.mpr ?_)
    · rw [hedge, hlen]
      exact fun _ _ hc => hr.lt_of_holdsInline hc
    · rwa [hlen]
  · rw [Containment.reaches_eq_true_iff, hedge]
  · rw [Containment.needsBox_eq_true_iff, hedge]
  · exact hr.lt_of_holdsInline ⟨t, ht, hid⟩

/-- The module of `struct Pair<A, B> { A first; B second; };`,
`struct Node { Pair<Node, Nullable<Node>> next; Vector<Leaf> leaves; };` and
`struct Leaf { Node owner; };`, as it is parsed. -/
def nodeModule : Source.Module :=
  let type (name : String) (args : List Source.TypeExpr) : Source.TypeExpr := .mk name args .start
  let field (name : String) (t : Source.TypeExpr) : Source.Member :=
    ⟨name, name, t, none, [], .start⟩
  ⟨"nodes", [],
    [⟨"Pair", ["A", "B"], [], .struct [field "first" (type "A" []), field "second" (type "B" [])],
        .start⟩,
      ⟨"Node", [], [], .struct
        [field "next" (type "Pair" [type "Node" [], type "Nullable" [type "Node" []]]),
          field "leaves" (type "Vector" [type "Leaf" []])], .start⟩,
      ⟨"Leaf", [], [], .struct [field "owner" (type "Node" [])], .start⟩], []⟩

/-- What `nodeModule` resolves to. -/
def nodeSet : ModuleSet :=
  let node : TypeExpr := .mk (.decl 1) []
  let member (name : String) (t : TypeExpr) : Member := ⟨name, name, t, none, []⟩
  ⟨[⟨"nodes", [], [0, 1, 2], []⟩],
    [⟨0, "nodes", "Pair", ["A", "B"], [], .struct
        [member "first" (.param "A"), member "second" (.param "B")]⟩,
      ⟨1, "nodes", "Node", [], [], .struct
        [member "next" (.mk (.decl 0) [node, .mk (.primitive .nullable) [node]]),
          member "leaves" (.mk (.primitive .vector) [.mk (.decl 2) []])]⟩,
      ⟨2, "nodes", "Leaf", [], [], .struct [member "owner" node]⟩],
    [(⟨"nodes", "Pair"⟩, 0), (⟨"nodes", "Node"⟩, 1), (⟨"nodes", "Leaf"⟩, 2)]⟩

/-- A node holds itself twice, so a search puts it on the stack three times.  It holds no leaves,
because vectors keep them elsewhere, but leaves hold it. -/
theorem node_reaches :
    ModuleSet.resolve [nodeModule] = .ok nodeSet ∧
      Containment.ofSet nodeSet = [[], [0, 1, 1], [1]] ∧
      (Containment.ofSet nodeSet).Answers 2 false (.start 1) ∧
      ReflTransGen nodeSet.HoldsInline 2 1 ∧ ¬ ReflTransGen nodeSet.HoldsInline 1 2 ∧
      (Containment.ofSet nodeSet).needsBox (.mk (.decl 1) []) 1 = true ∧
      (Containment.ofSet nodeSet).needsBox (.mk (.primitive .vector) [.mk (.decl 2) []]) 1 =
        false := by
  have hset : ModuleSet.resolve [nodeModule] = .ok nodeSet := rfl
  have hfound : (Containment.ofSet nodeSet).reaches 2 1 = true := by cbv
  have hmissed : (Containment.ofSet nodeSet).reaches 1 2 = false := by cbv
  obtain ⟨hanswers, hreaches, hbox, -⟩ := reaches_laws hset
  have hanswer := hanswers 1 (by decide) 2
  rw [hmissed] at hanswer
  refine ⟨hset, by cbv, hanswer, (hreaches 2 1).mp hfound, ?_, ?_, ?_⟩
  · rw [← hreaches, hmissed]
    exact Bool.false_ne_true
  · exact (hbox _ 1).mpr ⟨1, .head [], .refl⟩
  · rw [← Bool.not_eq_true, hbox]
    rintro ⟨id, hid, -⟩
    rw [TypeExpr.holdsInline_mk_iff] at hid
    simp [TypeRef.Indirect] at hid

end Adl
