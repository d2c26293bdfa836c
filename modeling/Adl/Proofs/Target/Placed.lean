import Adl.Proofs.Target.Built
import Adl.Proofs.Types.Checked
import Adl.Proofs.Value.Contained

/-!
# Placed — which defaults are built by their expressions

The expression for a value shows that a part is nothing: it is `()` for nothing itself, and a label
for an alternative that holds nothing.  Items go by types instead.  They have a marker for a token
of a type, and a payload for each alternative or label whose type is not written as `Void`: for a
type parameter with the argument `Void`, for an alias of `Void`, for a token, and for a label of an
enum with a parameter called `Void`.  A part is misplaced where the two differ, and the default of a
field or a newtype is built by its expression exactly if no part of it is misplaced
(`isBuilt_default_iff`).
-/

namespace Adl

open Relation (ReflTransGen)
open Rust (Context Expr)

namespace ModuleSet

/-- The member at a place of a declaration has another type than `Void`, as it is written. -/
def HasPayload (set : ModuleSet) (id : DeclId) (index : Nat) : Prop :=
  ∃ m, (set.decl id).members[index]? = some m ∧ m.type.head ≠ .primitive .void

theorem hasPayload_iff {set : ModuleSet} {id : DeclId} {index : Nat} {m : Member}
    (hm : (set.decl id).members[index]? = some m) :
    set.HasPayload id index ↔ m.type.head ≠ .primitive .void := by
  constructor
  · rintro ⟨m', hm', h⟩
    cases hm.symm.trans hm'
    exact h
  · exact fun h => ⟨m, hm, h⟩

/-- A part is nothing, or holds nothing, where the type or the item demands something. -/
inductive Misplaced (set : ModuleSet) : Value × TypeExpr → Prop
  | token {t : TypeExpr} {args : List TypeExpr}
      (ht : set.Expands t (.mk (.primitive .typeToken) args)) : Misplaced set (.void, t)
  | alternative {t : TypeExpr} {id : DeclId} {index : Nat} (h : set.HasPayload id index) :
      Misplaced set (.union id index .void, t)
  | label {t : TypeExpr} {id : DeclId} {index : Nat} (h : set.HasPayload id index) :
      Misplaced set (.enum id index, t)

/-- No part of a value of a type is misplaced. -/
def WellPlaced (set : ModuleSet) (v : Value) (t : TypeExpr) : Prop :=
  ∀ part, ReflTransGen set.Contains (v, t) part → ¬ set.Misplaced part

variable {set : ModuleSet} {v : Value} {t : TypeExpr}

theorem wellPlaced_iff :
    set.WellPlaced v t ↔ ¬ set.Misplaced (v, t) ∧
      ∀ w u, set.Contains (v, t) (w, u) → set.WellPlaced w u := by
  constructor
  · intro h
    exact ⟨h _ .refl, fun w u hw part hpart => h part (.head hw hpart)⟩
  · rintro ⟨hself, hparts⟩ part hpart
    rcases ReflTransGen.cases_head hpart with rfl | ⟨⟨w, u⟩, hw, hpart⟩
    · exact hself
    · exact hparts w u hw part hpart

/-! ### Parts of a value -/

variable {elem : TypeExpr} {rest args types : List TypeExpr} {vs : List Value} {id : DeclId}
  {index : Nat} {type : TypeExpr}

theorem wellPlaced_vector_iff (ht : set.Expands t (.mk (.primitive .vector) (elem :: rest))) :
    set.WellPlaced (.vector vs) t ↔ ∀ v ∈ vs, set.WellPlaced v elem := by
  rw [wellPlaced_iff]
  constructor
  · intro h v hv
    exact h.2 v elem (.item ht hv)
  · refine fun h => ⟨(nomatch ·), fun w u hw => ?_⟩
    cases hw with
    | item ht' hv =>
      cases ht.unique ht'
      exact h w hv

theorem wellPlaced_stringMap_iff {vs : List (String × Value)}
    (ht : set.Expands t (.mk (.primitive .stringMap) (elem :: rest))) :
    set.WellPlaced (.stringMap vs) t ↔ ∀ v ∈ vs, set.WellPlaced v.2 elem := by
  rw [wellPlaced_iff]
  constructor
  · intro h v hv
    exact h.2 v.2 elem (.entry ht hv)
  · refine fun h => ⟨(nomatch ·), fun w u hw => ?_⟩
    cases hw with
    | entry ht' hv =>
      cases ht.unique ht'
      exact h _ hv

theorem wellPlaced_present_iff (ht : set.Expands t (.mk (.primitive .nullable) (elem :: rest))) :
    set.WellPlaced (.present v) t ↔ set.WellPlaced v elem := by
  rw [wellPlaced_iff]
  constructor
  · intro h
    exact h.2 v elem (.present ht)
  · refine fun h => ⟨(nomatch ·), fun w u hw => ?_⟩
    cases hw with
    | present ht' =>
      cases ht.unique ht'
      exact h

theorem wellPlaced_struct_iff (ht : set.Expands t (.mk (.decl id) args))
    (htypes : set.BodyAt id args (.fields types)) :
    set.WellPlaced (.struct id vs) t ↔
      ∀ (i : Nat) v type, vs[i]? = some v → types[i]? = some type → set.WellPlaced v type := by
  rw [wellPlaced_iff]
  constructor
  · intro h i v type hv htype
    exact h.2 v type (.field ht htypes hv htype)
  · refine fun h => ⟨(nomatch ·), fun w u hw => ?_⟩
    cases hw with
    | field ht' htypes' hv htype =>
      cases ht.unique ht'
      cases htypes.unique htypes'
      exact h _ w u hv htype

theorem wellPlaced_union_iff (ht : set.Expands t (.mk (.decl id) args))
    (htypes : set.BodyAt id args (.fields types)) (htype : types[index]? = some type) :
    set.WellPlaced (.union id index v) t ↔
      ¬ (v = .void ∧ set.HasPayload id index) ∧ set.WellPlaced v type := by
  rw [wellPlaced_iff]
  constructor
  · rintro ⟨hself, hparts⟩
    refine ⟨?_, hparts v type (.payload ht htypes htype)⟩
    rintro ⟨rfl, h⟩
    exact hself (.alternative h)
  · rintro ⟨hself, hpart⟩
    refine ⟨fun hm => ?_, fun w u hw => ?_⟩
    · cases hm with
      | alternative h => exact hself ⟨rfl, h⟩
    · cases hw with
      | payload ht' htypes' htype' =>
        cases ht.unique ht'
        cases htypes.unique htypes'
        cases htype.symm.trans htype'
        exact hpart

theorem wellPlaced_enum_iff :
    set.WellPlaced (.enum id index) t ↔ ¬ set.HasPayload id index := by
  rw [wellPlaced_iff]
  constructor
  · exact fun h hp => h.1 (.label hp)
  · refine fun h => ⟨fun hm => ?_, fun _ _ hw => nomatch hw⟩
    cases hm with
    | label hp => exact h hp

theorem wellPlaced_newtype_iff (ht : set.Expands t (.mk (.decl id) args))
    (htarget : set.BodyAt id args (.target type)) :
    set.WellPlaced (.newtype id v) t ↔ set.WellPlaced v type := by
  rw [wellPlaced_iff]
  constructor
  · intro h
    exact h.2 v type (.target ht htarget)
  · refine fun h => ⟨(nomatch ·), fun w u hw => ?_⟩
    cases hw with
    | target ht' htarget' =>
      cases ht.unique ht'
      cases htarget.unique htarget'
      exact h

/-- The value of a scalar is misplaced where only a type is mentioned. -/
theorem wellPlaced_scalar_iff {p : Primitive} {l : Literal}
    (ht : set.Expands t (.mk (.primitive p) args)) (h : DenotesScalar p l v) :
    set.WellPlaced v t ↔ p ≠ .typeToken := by
  rw [wellPlaced_iff]
  constructor
  · rintro ⟨hself, -⟩ rfl
    cases h with
    | typeToken => exact hself (.token ht)
    | int hp => cases hp
    | word hp => cases hp
  · intro hp
    refine ⟨fun hm => ?_, fun w u hw => ?_⟩
    · cases hm with
      | token ht' =>
        cases ht.unique ht'
        exact hp rfl
      | alternative => cases h
      | label => cases h
    · cases hw <;> cases h

theorem wellPlaced_absent : set.WellPlaced .absent t :=
  wellPlaced_iff.mpr ⟨(nomatch ·), fun _ _ h => nomatch h⟩

end ModuleSet

/-! ### Denoted values -/

open Rust (IsBuilt)
open Target (Options)

variable {c : Compilation} {options : Options} {module : String}

/-- A literal denotes nothing else at `Void`, and nothing is not misplaced there. -/
theorem void_of_denotes {set : ModuleSet} {n : Nat} {l : Literal} {v : Value} {t : TypeExpr}
    (ht : t.head = .primitive .void) (h : Denotes set n l v t) :
    v = .void ∧ set.WellPlaced v t := by
  obtain ⟨head, args⟩ := t
  obtain rfl : head = .primitive .void := ht
  have hvoid : set.Expands (.mk (.primitive .void) args) _ := .of_primitive .void args
  cases h with
  | scalar ht' h =>
    cases hvoid.unique ht'
    refine ⟨?_, (ModuleSet.wellPlaced_scalar_iff hvoid h).mpr (by decide)⟩
    cases h with
    | void => rfl
    | int hp => cases hp
    | word hp => cases hp
  | vector ht' => cases hvoid.unique ht'
  | stringMap ht' => cases hvoid.unique ht'
  | absent ht' => cases hvoid.unique ht'
  | present ht' => cases hvoid.unique ht'
  | struct ht' => cases hvoid.unique ht'
  | union ht' => cases hvoid.unique ht'
  | enum ht' => cases hvoid.unique ht'
  | newtype ht' => cases hvoid.unique ht'

/-- An alternative is built where it is not misplaced, if its value is.  If its type is written as
`Void` there is no choice but to hold nothing, and else it may hold nothing or something. -/
theorem isBuilt_union_iff {modules : List Source.Module} (hr : Resolved modules c.set) {n : Nat}
    {l : Literal} {v : Value} {t type : TypeExpr} {id : DeclId} {args types : List TypeExpr}
    {ms : List Member} {index : Nat} {m : Member} (ht : c.set.Expands t (.mk (.decl id) args))
    (hbody : (c.set.decl id).body = .union ms) (hm : ms[index]? = some m)
    (htypes : c.set.BodyAt id args (.fields types)) (htype : types[index]? = some type)
    (h : Denotes c.set n l v type)
    (hv : IsBuilt c options module v type ↔ c.set.WellPlaced v type) :
    IsBuilt c options module (.union id index v) t ↔ c.set.WellPlaced (.union id index v) t := by
  have hmember : (c.set.decl id).members[index]? = some m := by
    rwa [Rust.members_of_sum (.inl hbody)]
  rw [ModuleSet.wellPlaced_union_iff ht htypes htype, ModuleSet.hasPayload_iff hmember]
  by_cases hhead : m.type.head = .primitive .void
  · have htype' : type.head = .primitive .void := by
      cases htypes.union_eq hbody
      rw [List.getElem?_map, hm] at htype
      cases htype
      exact TypeExpr.head_subst_of_primitive _ hhead
    obtain ⟨rfl, hwell⟩ := void_of_denotes htype' h
    rw [IsBuilt.label_iff hr ht (.inl hbody) hm (.inl rfl)]
    exact iff_of_true hhead ⟨fun hp => hp.2 hhead, hwell⟩
  · by_cases hvoid : v = .void
    · subst hvoid
      rw [IsBuilt.label_iff hr ht (.inl hbody) hm (.inl rfl)]
      exact iff_of_false hhead fun hw => hw.1 ⟨rfl, hhead⟩
    · rw [IsBuilt.union_iff hr ht hbody hm htypes htype hvoid hhead, hv]
      exact (and_iff_right fun hp => hvoid hp.1).symm

/-- A value that a literal denotes is built by its expression exactly if no part is misplaced.  The
induction is on the rules of `Denotes`, which give the parts of the value their types. -/
theorem isBuilt_iff_wellPlaced {modules : List Source.Module} (hr : Resolved modules c.set)
    {n : Nat} {l : Literal} {v : Value} {t : TypeExpr} (h : Denotes c.set n l v t) :
    IsBuilt c options module v t ↔ c.set.WellPlaced v t := by
  induction h with
  | scalar ht h => rw [IsBuilt.scalar_iff ht h, ModuleSet.wellPlaced_scalar_iff ht h]
  | vector ht hlen _ ih =>
    rw [IsBuilt.vector_iff ht, ModuleSet.wellPlaced_vector_iff ht]
    refine forall₂_congr fun v hv => ?_
    obtain ⟨l, hmem⟩ := exists_mem_zip hlen hv
    exact ih l v hmem
  | stringMap ht _ heq _ ih =>
    rw [IsBuilt.stringMap_iff ht, ModuleSet.wellPlaced_stringMap_iff ht]
    refine forall₂_congr fun v hv => ?_
    have hlen := congrArg List.length heq
    rw [List.length_map, List.length_map] at hlen
    obtain ⟨l, hmem⟩ := exists_mem_zip hlen hv
    exact ih l v hmem
  | absent ht => exact iff_of_true (.absent ht) ModuleSet.wellPlaced_absent
  | present ht _ _ ih => rw [IsBuilt.present_iff ht, ModuleSet.wellPlaced_present_iff ht, ih]
  | @struct n t id args types ms entries sources vs ht hbody htypes _ _ hsources hlen _ ih =>
    rw [IsBuilt.struct_iff hr ht hbody htypes hlen, ModuleSet.wellPlaced_struct_iff ht htypes]
    refine forall₅_congr fun i v type hv htype => ?_
    obtain ⟨_, s, _, -, -, htype', hmem⟩ := exists_fieldSource hbody htypes hsources hlen hv
    cases htype.symm.trans htype'
    exact ih s type v hmem
  | union ht hbody hm _ htypes htype h ih =>
    exact isBuilt_union_iff hr ht hbody hm htypes htype h ih
  | @enum n l t id args ms index m ht hbody hm _ =>
    have hmember : (c.set.decl id).members[index]? = some m := by
      rwa [Rust.members_of_sum (.inr hbody)]
    rw [IsBuilt.label_iff hr ht (.inr hbody) hm (.inr rfl), ModuleSet.wellPlaced_enum_iff,
      ModuleSet.hasPayload_iff hmember, not_not]
  | newtype ht hbody htarget _ _ ih =>
    rw [IsBuilt.newtype_iff ht hbody htarget, ModuleSet.wellPlaced_newtype_iff ht htarget, ih]

/-! ### Main statement -/

open Rust (Boxes homeContext itemOf)

/-- For each default of a compilation, the default of its field or newtype in the item is the
expression that is made for it, in a box if and only if the field is.  This expression builds it
exactly if no part of it is misplaced. -/
theorem isBuilt_default_iff {modules : List Source.Module}
    (h : Compilation.ofModules modules = .ok c) (options : Options) (id : DeclId) :
    (∀ (i : Nat) v, (c.defaultsOf id).member? i = some v →
      ∃ r m f d, itemOf c options id = .record r ∧ (c.set.decl id).members[i]? = some m ∧
        r.fields[i]? = some f ∧ f.default = some d ∧
        Boxes ((homeContext c options id).type m.type) ((homeContext c options id).expr v) f.type
          d.value ∧
        (IsBuilt c options (c.set.decl id).module v m.type ↔ c.set.WellPlaced v m.type)) ∧
    ∀ v, (c.defaultsOf id).newtype = some v →
      ∃ n, itemOf c options id = .newtype n ∧
        n.default = some ((homeContext c options id).expr v) ∧
        (IsBuilt c options (c.set.decl id).module v (c.set.selfType id) ↔
          c.set.WellPlaced v (c.set.selfType id)) := by
  rw [ofModules_eq_ok_iff] at h
  constructor
  · intro i v hv
    obtain ⟨x, hx⟩ := h.exists_decl fun hempty => by
      rw [hempty] at hv
      cases hv
    obtain ⟨ms, m, l, hbody, hm, -, hown⟩ := (h.defaultsOf hx).exists_member hv
    obtain ⟨r, hitem, -, -, hfields⟩ := Rust.itemOf_struct h.resolved options hbody
    have hf := hfields i m hm
    rw [hv] at hf
    have hmembers : (c.set.decl id).members[i]? = some m := by rwa [Decl.members, hbody]
    exact ⟨r, m, _, _, hitem, hmembers, hf, rfl, Context.boxes_member _ m _ rfl,
      isBuilt_iff_wellPlaced h.resolved hown.denotes⟩
  · intro v hv
    obtain ⟨x, hx⟩ := h.exists_decl fun hempty => by
      rw [hempty] at hv
      cases hv
    obtain ⟨t, l, w, hbody, rfl, hown⟩ := (h.defaultsOf hx).exists_newtype hv
    obtain ⟨n, hitem, -, -, hdefault⟩ := Rust.itemOf_newtype options hbody
    rw [hv] at hdefault
    have ht : c.set.Expands (c.set.selfType id) (c.set.selfType id) := by
      refine .of_decl ?_ _
      rw [ModuleSet.isAlias, Decl.isAlias, hbody]
      exact Bool.false_ne_true
    have htarget := bodyAt_selfType (ModuleSet.proper_of_checkAll h.resolved h.checked id) hbody
    refine ⟨n, hitem, hdefault, ?_⟩
    rw [IsBuilt.newtype_iff ht hbody htarget, ModuleSet.wellPlaced_newtype_iff ht htarget]
    exact isBuilt_iff_wellPlaced h.resolved hown.denotes

/-- The module of `union Maybe<T> { Void nothing; T just; };` and
`struct Choice { Maybe<Int32> number = {"just": 3}; Maybe<Void> nothing = {"just": null};
TypeToken<Int32> token = null; };`, as it is parsed. -/
def choiceModule : Source.Module :=
  let type (name : String) (args : List Source.TypeExpr) : Source.TypeExpr := .mk name args .start
  let just (l : Literal) : Option Literal := some (.object [("just", l)])
  ⟨"choices", [],
    [⟨"Maybe", ["T"], [], .union [⟨"nothing", "nothing", type "Void" [], none, [], .start⟩,
        ⟨"just", "just", type "T" [], none, [], .start⟩], .start⟩,
      ⟨"Choice", [], [], .struct
        [⟨"number", "number", type "Maybe" [type "Int32" []], just (.integer 3), [], .start⟩,
          ⟨"nothing", "nothing", type "Maybe" [type "Void" []], just .null, [], .start⟩,
          ⟨"token", "token", type "TypeToken" [type "Int32" []], some .null, [], .start⟩],
        .start⟩], []⟩

/-- What `choiceModule` resolves to. -/
def choiceSet : ModuleSet :=
  let type (p : Primitive) : TypeExpr := .mk (.primitive p) []
  let just (l : Literal) : Option Literal := some (.object [("just", l)])
  ⟨[⟨"choices", [], [0, 1], []⟩],
    [⟨0, "choices", "Maybe", ["T"], [], .union
        [⟨"nothing", "nothing", type .void, none, []⟩, ⟨"just", "just", .param "T", none, []⟩]⟩,
      ⟨1, "choices", "Choice", [], [], .struct
        [⟨"number", "number", .mk (.decl 0) [type .int32], just (.integer 3), []⟩,
          ⟨"nothing", "nothing", .mk (.decl 0) [type .void], just .null, []⟩,
          ⟨"token", "token", .mk (.primitive .typeToken) [type .int32], some .null, []⟩]⟩],
    [(⟨"choices", "Maybe"⟩, 0), (⟨"choices", "Choice"⟩, 1)]⟩

/-- What `choiceModule` compiles to. -/
def choiceCompilation : Compilation :=
  let defaults : List Defaults := [⟨[none, none], none⟩,
    ⟨[some (.union 0 1 (.int 3)), some (.union 0 1 .void), some .void], none⟩]
  ⟨choiceSet, defaults,
    choiceSet.decls.map fun d => choiceSet.exportDecl d.id (defaults[d.id]?.getD .empty)⟩

/-- The number is built as an alternative with payload.  The nothing is built as one without payload
although it has one, and the token as nothing. -/
theorem choice_isBuilt :
    Compilation.ofModules [choiceModule] = .ok choiceCompilation ∧
      (choiceCompilation.defaultsOf 1).fields =
        [some (.union 0 1 (.int 3)), some (.union 0 1 .void), some .void] ∧
      IsBuilt choiceCompilation .standard "choices" (.union 0 1 (.int 3))
        (.mk (.decl 0) [.mk (.primitive .int32) []]) ∧
      ¬ IsBuilt choiceCompilation .standard "choices" (.union 0 1 .void)
        (.mk (.decl 0) [.mk (.primitive .void) []]) ∧
      ¬ IsBuilt choiceCompilation .standard "choices" .void
        (.mk (.primitive .typeToken) [.mk (.primitive .int32) []]) := by
  have h : Compilation.ofModules [choiceModule] = .ok choiceCompilation := by cbv
  obtain ⟨hfields, -⟩ := isBuilt_default_iff h .standard 1
  refine ⟨h, rfl, ?_, ?_, ?_⟩
  · obtain ⟨_, _, _, _, _, hm, _, _, _, hbuilt⟩ := hfields 0 _ rfl
    cases hm
    have hcompiled := ofModules_eq_ok_iff.mp h
    have hproper := ModuleSet.proper_of_checkAll hcompiled.resolved hcompiled.checked 0
    have htypes : choiceSet.BodyAt 0 [.mk (.primitive .int32) []]
      (.fields [.mk (.primitive .void) [], .mk (.primitive .int32) []]) := ⟨rfl, hproper, rfl⟩
    have hthree : choiceSet.WellPlaced (.int 3) (.mk (.primitive .int32) []) :=
      (ModuleSet.wellPlaced_scalar_iff (.of_primitive _ _)
        (.int rfl (by decide) (by decide))).mpr (by decide)
    refine hbuilt.mpr ((ModuleSet.wellPlaced_union_iff (.of_decl ?_ _) htypes rfl).mpr ⟨?_, hthree⟩)
    · exact Bool.false_ne_true
    · rintro ⟨hvoid, -⟩
      cases hvoid
  · obtain ⟨_, _, _, _, _, hm, _, _, _, hbuilt⟩ := hfields 1 _ rfl
    cases hm
    refine fun hb => hbuilt.mp hb _ .refl (.alternative ⟨_, rfl, by decide⟩)
  · obtain ⟨_, _, _, _, _, hm, _, _, _, hbuilt⟩ := hfields 2 _ rfl
    cases hm
    exact fun hb => hbuilt.mp hb _ .refl (.token (.of_primitive _ _))

end Adl
