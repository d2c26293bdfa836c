import Adl.Proofs.Value.Declared
import Mathlib.Logic.Relation

/-!
# Contained — the parts of a value

A value of a type contains other values of other types (`ModuleSet.Contains`).  If a literal denotes
the whole, then each part at any depth is denoted at its type by some literal, which is written in
the whole literal or in a declared default.  So it has whatever property goes from literals over to
their parts, if the whole literal and the declared defaults have it (`Denotes.part`).
-/

namespace Adl

open Relation (ReflTransGen)

namespace ModuleSet

/-- A value of a type contains a value of another type. -/
inductive Contains (set : ModuleSet) : Value × TypeExpr → Value × TypeExpr → Prop
  | item {vs : List Value} {v : Value} {t elem : TypeExpr} {rest : List TypeExpr}
      (ht : set.Expands t (.mk (.primitive .vector) (elem :: rest))) (hv : v ∈ vs) :
      Contains set (.vector vs, t) (v, elem)
  | entry {vs : List (String × Value)} {v : String × Value} {t elem : TypeExpr}
      {rest : List TypeExpr} (ht : set.Expands t (.mk (.primitive .stringMap) (elem :: rest)))
      (hv : v ∈ vs) : Contains set (.stringMap vs, t) (v.2, elem)
  | present {v : Value} {t elem : TypeExpr} {rest : List TypeExpr}
      (ht : set.Expands t (.mk (.primitive .nullable) (elem :: rest))) :
      Contains set (.present v, t) (v, elem)
  | field {vs : List Value} {v : Value} {t type : TypeExpr} {id : DeclId}
      {args types : List TypeExpr} {i : Nat} (ht : set.Expands t (.mk (.decl id) args))
      (htypes : set.BodyAt id args (.fields types)) (hv : vs[i]? = some v)
      (htype : types[i]? = some type) : Contains set (.struct id vs, t) (v, type)
  | payload {v : Value} {t type : TypeExpr} {id : DeclId} {args types : List TypeExpr}
      {index : Nat} (ht : set.Expands t (.mk (.decl id) args))
      (htypes : set.BodyAt id args (.fields types)) (htype : types[index]? = some type) :
      Contains set (.union id index v, t) (v, type)
  | target {v : Value} {t type : TypeExpr} {id : DeclId} {args : List TypeExpr}
      (ht : set.Expands t (.mk (.decl id) args)) (htarget : set.BodyAt id args (.target type)) :
      Contains set (.newtype id v, t) (v, type)

/-- The type of a declaration inside itself, where its parameters stand for themselves. -/
def selfType (set : ModuleSet) (id : DeclId) : TypeExpr :=
  .mk (.decl id) ((set.decl id).typeParams.map .param)

end ModuleSet

/-- The literals that a declaration declares as defaults, of its fields or of itself. -/
def Decl.declared (d : Decl) : List Literal :=
  match d.body with
  | .struct ms => ms.filterMap Member.default
  | .newtype _ default => default.toList
  | _ => []

theorem Decl.mem_declared_of_struct {d : Decl} {ms : List Member} {m : Member} {l : Literal}
    (hbody : d.body = .struct ms) (hm : m ∈ ms) (hl : m.default = some l) : l ∈ d.declared := by
  rw [Decl.declared, hbody]
  exact List.mem_filterMap.mpr ⟨m, hm, hl⟩

theorem Decl.mem_declared_of_newtype {d : Decl} {t : TypeExpr} {l : Literal}
    (hbody : d.body = .newtype t (some l)) : l ∈ d.declared := by
  rw [Decl.declared, hbody]
  exact Option.mem_toList.mpr rfl

/-- A property goes from literals over to their parts, and all declared defaults have it. -/
structure ModuleSet.Inherits (set : ModuleSet) (P : Literal → Prop) : Prop where
  null : P .null
  item : ∀ {items}, P (.array items) → ∀ l ∈ items, P l
  entry : ∀ {entries}, P (.object entries) → ∀ e ∈ entries, P e.2
  declared : ∀ id, ∀ l ∈ (set.decl id).declared, P l

variable {set : ModuleSet} {P : Literal → Prop} {n : Nat} {l : Literal} {v w : Value}
  {t u : TypeExpr}

theorem ModuleSet.inherits_true (set : ModuleSet) : set.Inherits fun _ => True :=
  ⟨trivial, fun _ _ _ => trivial, fun _ _ _ => trivial, fun _ _ _ => trivial⟩

theorem ModuleSet.Inherits.and {Q : Literal → Prop} (hP : set.Inherits P) (hQ : set.Inherits Q) :
    set.Inherits fun l => P l ∧ Q l where
  null := ⟨hP.null, hQ.null⟩
  item h l hl := ⟨hP.item h.1 l hl, hQ.item h.2 l hl⟩
  entry h e he := ⟨hP.entry h.1 e he, hQ.entry h.2 e he⟩
  declared id l hl := ⟨hP.declared id l hl, hQ.declared id l hl⟩

/-- What a field is read from is an entry or a declared default. -/
theorem FieldSource.inherits {id : DeclId} {ms : List Member} {m : Member}
    {entries : List (String × Literal)} {s : Nat × Literal} (hP : set.Inherits P)
    (h : FieldSource entries n m s) (hbody : (set.decl id).body = .struct ms) (hm : m ∈ ms)
    (hentries : ∀ e ∈ entries, P e.2) : P s.2 := by
  cases h with
  | given h => exact hentries _ h
  | declared _ hd => exact hP.declared id _ (Decl.mem_declared_of_struct hbody hm hd)

/-- What is contained in a denoted value is denoted itself. -/
theorem Denotes.contains (hP : set.Inherits P) (h : Denotes set n l v t) (hl : P l)
    (hc : set.Contains (v, t) (w, u)) : ∃ k l', P l' ∧ Denotes set k l' w u := by
  cases hc with
  | item ht hw =>
    cases h with
    | scalar _ hs => cases hs
    | vector ht' hlen hitems =>
      cases ht.unique ht'
      obtain ⟨l, hmem⟩ := exists_mem_zip hlen hw
      exact ⟨_, l, hP.item hl l (List.of_mem_zip hmem).1, hitems l w hmem⟩
  | entry ht hw =>
    cases h with
    | scalar _ hs => cases hs
    | stringMap ht' _ heq hentries =>
      cases ht.unique ht'
      obtain ⟨e, hmem⟩ := exists_mem_zip (length_eq_of_map_eq heq) hw
      exact ⟨_, e.2, hP.entry hl e (List.of_mem_zip hmem).1, hentries e _ hmem⟩
  | present ht =>
    cases h with
    | scalar _ hs => cases hs
    | present ht' _ h =>
      cases ht.unique ht'
      exact ⟨_, _, hl, h⟩
  | @field vs _ _ _ _ _ types i ht htypes hw htype =>
    cases h with
    | scalar _ hs => cases hs
    | struct ht' hbody htypes' _ _ hsources hlen hfields =>
      cases ht.unique ht'
      cases htypes.unique htypes'
      obtain ⟨m, s, _, hm, hs, htype', hmem⟩ := exists_fieldSource hbody htypes hsources hlen hw
      cases htype.symm.trans htype'
      exact ⟨_, _, hs.inherits hP hbody (List.mem_of_getElem? hm) (hP.entry hl),
        hfields s u w hmem⟩
  | payload ht htypes htype =>
    cases h with
    | scalar _ hs => cases hs
    | union ht' _ _ hl' htypes' htype' h =>
      cases ht.unique ht'
      cases htypes.unique htypes'
      cases htype.symm.trans htype'
      refine ⟨_, _, ?_, h⟩
      rcases hl' with rfl | ⟨-, rfl⟩
      · exact hP.entry hl _ (List.mem_singleton_self _)
      · exact hP.null
  | target ht htarget =>
    cases h with
    | scalar _ hs => cases hs
    | newtype ht' _ htarget' h _ =>
      cases ht.unique ht'
      cases htarget.unique htarget'
      exact ⟨_, _, hl, h⟩

theorem Denotes.exists_of_contains (h : Denotes set n l v t) (hc : set.Contains (v, t) (w, u)) :
    ∃ k l', Denotes set k l' w u := by
  obtain ⟨k, l', -, h⟩ := h.contains set.inherits_true trivial hc
  exact ⟨k, l', h⟩

/-- Every part of a denoted value is denoted, by a literal with an inherited property if the whole
literal has it. -/
theorem Denotes.part (hP : set.Inherits P) (h : Denotes set n l v t) (hl : P l)
    (hpart : ReflTransGen set.Contains (v, t) (w, u)) : ∃ k l', P l' ∧ Denotes set k l' w u := by
  generalize hx : (v, t) = x at hpart
  induction hpart using ReflTransGen.head_induction_on generalizing n l v t with
  | refl =>
    cases hx
    exact ⟨n, l, hl, h⟩
  | head hc _ ih =>
    subst hx
    obtain ⟨k, l', hl', h'⟩ := h.contains hP hl hc
    exact ih h' hl' rfl

/-! ### Declared defaults -/

/-- The target of a newtype inside itself is the one that is written. -/
theorem bodyAt_selfType {id : DeclId} {default : Option Literal}
    (hproper : set.Proper (set.decl id)) (hbody : (set.decl id).body = .newtype t default) :
    set.BodyAt id ((set.decl id).typeParams.map .param) (.target t) := by
  have hsaturated : set.Saturated t := by
    refine (hproper t ?_).1
    rw [Decl.types, hbody]
    exact List.mem_singleton_self t
  have hown : (set.decl id).typeParams.zip ((set.decl id).typeParams.map .param) =
      ownBindings (set.decl id).typeParams := List.map_prod_left_eq_zip.symm
  refine ⟨(List.length_map _).symm, hproper, ?_⟩
  rw [hbody, Body.subst, hown, TypeExpr.subst_ownBindings hsaturated]

end Adl
