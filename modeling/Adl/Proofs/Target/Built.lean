import Adl.Proofs.Compile.Compiled
import Adl.Proofs.Model.Indexed
import Adl.Proofs.Target.RustRenaming

/-!
# Built — expressions that match the items of declarations

The item of a declaration is made from its types, and the expression for a value from the value
alone.  `Builds` says when the two match: it has one rule for each kind of value, which asks of the
expression what the type or the item demands there, and it does not mention how expressions are
made.  In it the aliases at the head of a type are expanded, since an alias is emitted as another
name for its target.
-/

namespace Adl.Rust

open Target (Options)

/-! ### Items of a compilation -/

section

variable (c : Compilation) (options : Options)

/-- The context of the unit of a module. -/
def contextOf (module : String) : Context := .ofOptions c.set module options

/-- The context of the unit in which a declaration stands. -/
def homeContext (id : DeclId) : Context := contextOf c options (c.set.decl id).module

/-- The item of a declaration in its unit. -/
def itemOf (id : DeclId) : Item :=
  (homeContext c options id).item (c.set.decl id) (c.defaultsOf id)

end

variable {c : Compilation} {options : Options} {id : DeclId} {ms : List Member}

theorem members_of_sum
    (hbody : (c.set.decl id).body = .union ms ∨ (c.set.decl id).body = .enum ms) :
    (c.set.decl id).members = ms := by
  rcases hbody with hbody | hbody <;> rw [Decl.members, hbody]

section

variable {modules : List Source.Module} (h : Resolved modules c.set)

include h

/-- The place of a declaration with members is kept in it. -/
theorem id_eq_of_mem {m : Member} (hm : m ∈ (c.set.decl id).members) :
    (c.set.decl id).id = id := by
  cases hx : c.set.decls[id]? with
  | some x =>
    rw [ModuleSet.decl_of_getElem? hx]
    exact h.id_eq hx
  | none =>
    rw [ModuleSet.decl, hx] at hm
    cases hm

/-- A declaration stands in the module that has its place. -/
theorem module_eq_of_mem {m : Module} (hm : m ∈ c.set.modules) (hid : id ∈ m.decls) :
    (c.set.decl id).module = m.name := by
  have hnames := List.mem_map_of_mem (f := fun m => (m.name, m.decls.map c.set.scopedName)) hm
  rw [h.indexed.names_eq] at hnames
  obtain ⟨sm, -, heq⟩ := List.mem_map.mp hnames
  obtain ⟨hname, hdecls⟩ := Prod.mk.inj heq
  have hmem := List.mem_map_of_mem (f := c.set.scopedName) hid
  rw [← hdecls] at hmem
  obtain ⟨d, -, hd⟩ := List.mem_map.mp hmem
  rw [← hname]
  exact (congrArg ScopedName.module hd).symm

/-- The unit of a module has the item of each of its declarations. -/
theorem unitLines_eq {m : Module} (hm : m ∈ c.set.modules) :
    unitLines c m options =
      headLines m.name ++
        m.decls.flatMap (fun id => [""] ++ (itemOf c options id).lines ++ [""] ++
          handleLines (homeContext c options id).runtime (c.set.scopedName id)
            (c.set.decl id).typeParams) ++
        (if options.includeAst then "" :: embeddedLines (Target.embedded c m) else []) ++ [""] := by
  have hlines : ∀ id ∈ m.decls,
      declLines (contextOf c options m.name) (c.set.decl id) (c.defaultsOf id) =
        [""] ++ (itemOf c options id).lines ++ [""] ++
          handleLines (homeContext c options id).runtime (c.set.scopedName id)
            (c.set.decl id).typeParams := by
    intro id hid
    rw [itemOf, homeContext, module_eq_of_mem h hm hid]
    rfl
  rw [unitLines, ← List.flatMap_congr hlines]
  rfl

theorem itemOf_struct (options : Options) (hbody : (c.set.decl id).body = .struct ms) :
    ∃ r, itemOf c options id = .record r ∧ r.marker = Context.unused (c.set.decl id) ∧
      r.fields.map Field.name = ms.map (fun m => fieldIdent m.name) ∧
        ∀ (i : Nat) m, ms[i]? = some m →
          r.fields[i]? = some ((homeContext c options id).field id m
            ((c.defaultsOf id).member? i)) := by
  have hid : ∀ m ∈ ms, (c.set.decl id).id = id := by
    intro m hm
    refine id_eq_of_mem h (m := m) ?_
    rwa [Decl.members, hbody]
  unfold itemOf Context.item
  rw [hbody]
  refine ⟨_, rfl, rfl, ?_, fun i m hm => ?_⟩
  · rw [List.map_map]
    conv_rhs => rw [← List.zipIdx_map_fst 0 ms, List.map_map]
    rfl
  · rw [List.getElem?_map, List.getElem?_zipIdx, hm, Nat.zero_add, hid m (List.mem_of_getElem? hm)]
    rfl

theorem itemOf_sum (options : Options) {index : Nat} {m : Member}
    (hbody : (c.set.decl id).body = .union ms ∨ (c.set.decl id).body = .enum ms)
    (hm : ms[index]? = some m) :
    ∃ s, itemOf c options id = .sum s ∧
      s.variants[index]? = some ((homeContext c options id).variant id m) := by
  have hid : (c.set.decl id).id = id := by
    refine id_eq_of_mem h (m := m) ?_
    rw [members_of_sum hbody]
    exact List.mem_of_getElem? hm
  have hvariants : (ms.map ((homeContext c options id).variant id))[index]? =
      some ((homeContext c options id).variant id m) := by
    rw [List.getElem?_map, hm, Option.map_some]
  unfold itemOf Context.item
  rw [hid]
  rcases hbody with hbody | hbody <;> rw [hbody] <;> exact ⟨_, rfl, hvariants⟩

end

theorem itemOf_newtype (options : Options) {t : TypeExpr} {default : Option Literal}
    (hbody : (c.set.decl id).body = .newtype t default) :
    ∃ n, itemOf c options id = .newtype n ∧ n.target = (homeContext c options id).type t ∧
      n.marker = Context.unused (c.set.decl id) ∧
      n.default = (c.defaultsOf id).newtype.map (homeContext c options id).expr := by
  unfold itemOf Context.item
  rw [hbody]
  exact ⟨_, rfl, rfl, rfl, rfl⟩

/-- A variant is declared without payload if its type is written as `Void`. -/
theorem Context.payload_eq_none_iff {ctx : Context} {owner : DeclId} {m : Member} :
    (ctx.variant owner m).payload = none ↔ m.type.head = .primitive .void := by
  unfold variant
  simp

/-! ### Boxes -/

/-- The expression `x` has the declared type `T'` of a member whose type is `T`, where `e` has the
type `T`: it is `e` in a box if `T'` is `T` in a box, and else it is `e`. -/
inductive Boxes (T : Ty) (e : Expr) : Ty → Expr → Prop
  | plain : Boxes T e T e
  | boxed : Boxes T e T.boxed (.boxed e)

theorem Ty.ne_boxed (T : Ty) : T ≠ T.boxed := by
  intro h
  have hsize := congrArg sizeOf h
  simp only [Ty.boxed, Ty.apply.sizeOf_spec, List.cons.sizeOf_spec] at hsize
  omega

theorem Boxes.unique {T T' : Ty} {e e' x : Expr} (h : Boxes T e T' x) (h' : Boxes T e' T' x) :
    e = e' := by
  generalize hU : T' = U at h'
  cases h with
  | plain =>
    cases h' with
    | plain => rfl
    | boxed => exact absurd hU T.ne_boxed
  | boxed =>
    cases h' with
    | plain => exact absurd hU.symm T.ne_boxed
    | boxed => rfl

/-- A member is built in a box if its type is in one. -/
theorem Context.boxes_member (ctx : Context) {ctx' : Context} (m : Member) (e : Expr)
    (h : ctx.containment = ctx'.containment) :
    Boxes (ctx.type m.type) e (ctx.memberType id m) (ctx'.memberExpr id m e) := by
  unfold memberType memberExpr
  rw [h]
  dsimp only
  split
  · exact .boxed
  · exact .plain

theorem isVoid_iff {v : Value} : v.isVoid ↔ v = .void := by
  cases v <;> simp [Value.isVoid]

theorem Context.getElem?_fieldExprs (ctx : Context) (owner : DeclId) {vs : List Value} {i : Nat}
    {m : Member} {v : Value} (hm : ms[i]? = some m) (hv : vs[i]? = some v) :
    (ctx.fieldExprs owner ms vs)[i]? =
      some (fieldIdent m.name, ctx.memberExpr owner m (ctx.expr v)) := by
  induction ms generalizing vs i with
  | nil => cases hm
  | cons m' ms ih =>
    cases vs with
    | nil => cases hv
    | cons v' vs =>
      rw [fieldExprs]
      cases i with
      | zero =>
        cases hm
        cases hv
        rfl
      | succ i => exact ih hm hv

theorem Context.map_fst_fieldExprs (ctx : Context) (owner : DeclId) {vs : List Value}
    (h : vs.length = ms.length) :
    (ctx.fieldExprs owner ms vs).map Prod.fst = ms.map fun m => fieldIdent m.name := by
  induction ms generalizing vs with
  | nil => rw [fieldExprs, List.map_nil, List.map_nil]
  | cons m ms ih =>
    cases vs with
    | nil => cases h
    | cons v vs => rw [fieldExprs, List.map_cons, List.map_cons, ih (Nat.succ.inj h)]

/-! ### What is demanded of an expression -/

/-- An expression of a primitive type that contains no other type and has values. -/
inductive Spells (ctx : Context) : Primitive → Value → Expr → Prop
  | bool (b : Bool) : Spells ctx .bool (.bool b) (.verbatim (if b then "true" else "false"))
  | int {p : Primitive} {bits : Nat} {i : Int} (hp : p.signedBits? = some bits)
      (hle : -(2 ^ (bits - 1) : Int) ≤ i) (hlt : i < 2 ^ (bits - 1)) :
      Spells ctx p (.int i) (.verbatim (toString i))
  | word {p : Primitive} {bits n : Nat} (hp : p.wordBits? = some bits) (hlt : n < 2 ^ bits) :
      Spells ctx p (.word n) (.verbatim (toString n))
  | float {p : Primitive} (hp : p = .float ∨ p = .double) (d : Double) :
      Spells ctx p (.float d) (.verbatim (Layout.source.text d))
  | string (s : String) : Spells ctx .string (.string s) (.string s)
  | bytes (b : List UInt8) : Spells ctx .byteVector (.bytes b) (.bytes ctx.bytesPath b)
  | json (l : Literal) : Spells ctx .json (.json l) (.json l.toJson.compact)

/-- In the unit of `ctx` an expression builds a value of a type, as the type and the items of the
declarations in the value demand. -/
inductive Builds (c : Compilation) (options : Options) (ctx : Context) :
    Value → Expr → TypeExpr → Prop
  | unit {t u : TypeExpr} (ht : c.set.Expands t u) (hu : ctx.type u = .unit) :
      Builds c options ctx .void .unit t
  | scalar {v : Value} {e : Expr} {t : TypeExpr} {p : Primitive} {args : List TypeExpr}
      (ht : c.set.Expands t (.mk (.primitive p) args)) (h : Spells ctx p v e) :
      Builds c options ctx v e t
  | vector {vs : List Value} {es : List Expr} {t elem : TypeExpr} {rest : List TypeExpr}
      (ht : c.set.Expands t (.mk (.primitive .vector) (elem :: rest)))
      (hlen : vs.length = es.length)
      (h : ∀ (i : Nat) v e, vs[i]? = some v → es[i]? = some e → Builds c options ctx v e elem) :
      Builds c options ctx (.vector vs) (.vector es) t
  | stringMap {vs : List (String × Value)} {es : List (String × Expr)} {t elem : TypeExpr}
      {rest : List TypeExpr} (ht : c.set.Expands t (.mk (.primitive .stringMap) (elem :: rest)))
      (hkeys : vs.map Prod.fst = es.map Prod.fst)
      (h : ∀ (i : Nat) v e, vs[i]? = some v → es[i]? = some e →
        Builds c options ctx v.2 e.2 elem) :
      Builds c options ctx (.stringMap vs) (.map es) t
  | absent {t : TypeExpr} {args : List TypeExpr}
      (ht : c.set.Expands t (.mk (.primitive .nullable) args)) :
      Builds c options ctx .absent .absent t
  | present {v : Value} {e : Expr} {t elem : TypeExpr} {rest : List TypeExpr}
      (ht : c.set.Expands t (.mk (.primitive .nullable) (elem :: rest)))
      (h : Builds c options ctx v e elem) : Builds c options ctx (.present v) (.present e) t
  | record {vs : List Value} {es : List Expr} {inits : List (String × Expr)} {marked : Bool}
      {t : TypeExpr} {id : DeclId} {args types : List TypeExpr} {r : Record}
      (ht : c.set.Expands t (.mk (.decl id) args)) (htypes : c.set.BodyAt id args (.fields types))
      (hitem : itemOf c options id = .record r) (hmarked : marked = !r.marker.isEmpty)
      (hnames : inits.map Prod.fst = r.fields.map Field.name)
      (hboxes : ∀ (i : Nat) m f e x, (c.set.decl id).members[i]? = some m →
        r.fields[i]? = some f → es[i]? = some e → inits[i]? = some x →
        Boxes ((homeContext c options id).type m.type) e f.type x.2)
      (hvs : vs.length = es.length) (hes : es.length = r.fields.length)
      (h : ∀ (i : Nat) v e type, vs[i]? = some v → es[i]? = some e → types[i]? = some type →
        Builds c options ctx v e type) :
      Builds c options ctx (.struct id vs) (.record (ctx.typePath id) inits marked) t
  | variant {v : Value} {e e' : Expr} {name : String} {t type : TypeExpr} {id : DeclId}
      {args types : List TypeExpr} {index : Nat} {s : Sum} {m : Member} {x : Variant} {T : Ty}
      (ht : c.set.Expands t (.mk (.decl id) args)) (htypes : c.set.BodyAt id args (.fields types))
      (htype : types[index]? = some type) (hm : (c.set.decl id).members[index]? = some m)
      (hitem : itemOf c options id = .sum s) (hx : s.variants[index]? = some x)
      (hname : name = x.name) (hpayload : x.payload = some T)
      (hboxes : Boxes ((homeContext c options id).type m.type) e T e')
      (h : Builds c options ctx v e type) :
      Builds c options ctx (.union id index v) (.variant (ctx.typePath id) name e') t
  | label {v : Value} {path name : String} {t : TypeExpr} {id : DeclId} {args : List TypeExpr}
      {index : Nat} {s : Sum} {x : Variant} (ht : c.set.Expands t (.mk (.decl id) args))
      (hv : v = .union id index .void ∨ v = .enum id index) (hitem : itemOf c options id = .sum s)
      (hx : s.variants[index]? = some x) (hpath : path = ctx.typePath id) (hname : name = x.name)
      (hpayload : x.payload = none) : Builds c options ctx v (.label path name) t
  | wrapped {v : Value} {e e' : Expr} {marked : Bool} {t type target : TypeExpr} {id : DeclId}
      {args : List TypeExpr} {default : Option Literal} {n : Newtype}
      (ht : c.set.Expands t (.mk (.decl id) args))
      (hbody : (c.set.decl id).body = .newtype target default)
      (htarget : c.set.BodyAt id args (.target type)) (hitem : itemOf c options id = .newtype n)
      (hmarked : marked = !n.marker.isEmpty)
      (hboxes : Boxes ((homeContext c options id).type target) e n.target e')
      (h : Builds c options ctx v e type) :
      Builds c options ctx (.newtype id v) (.wrapped (ctx.typePath id) e' marked) t

/-- The expression that is made for a value in the unit of a module builds it. -/
def IsBuilt (c : Compilation) (options : Options) (module : String) (v : Value) (t : TypeExpr) :
    Prop :=
  Builds c options (contextOf c options module) v ((contextOf c options module).expr v) t

/-! ### Expressions that are made -/

namespace IsBuilt

variable {module : String} {t elem type : TypeExpr} {args rest types : List TypeExpr} {v : Value}
  {vs : List Value} {index : Nat} {m : Member}

theorem vector_iff (ht : c.set.Expands t (.mk (.primitive .vector) (elem :: rest))) :
    IsBuilt c options module (.vector vs) t ↔ ∀ v ∈ vs, IsBuilt c options module v elem := by
  unfold IsBuilt
  rw [Context.expr, Context.exprs_eq_map]
  constructor
  · intro h v hv
    obtain ⟨i, hi⟩ := List.mem_iff_getElem?.mp hv
    cases h with
    | scalar _ h => cases h
    | vector ht' _ h =>
      cases ht.unique ht'
      exact h i v _ hi (by rw [List.getElem?_map, hi, Option.map_some])
  · intro h
    refine .vector ht (List.length_map _).symm fun i v e hv he => ?_
    rw [List.getElem?_map, hv, Option.map_some] at he
    cases he
    exact h v (List.mem_of_getElem? hv)

theorem stringMap_iff {vs : List (String × Value)}
    (ht : c.set.Expands t (.mk (.primitive .stringMap) (elem :: rest))) :
    IsBuilt c options module (.stringMap vs) t ↔ ∀ v ∈ vs, IsBuilt c options module v.2 elem := by
  unfold IsBuilt
  rw [Context.expr, Context.entryExprs_eq_map]
  constructor
  · intro h v hv
    obtain ⟨i, hi⟩ := List.mem_iff_getElem?.mp hv
    cases h with
    | scalar _ h => cases h
    | stringMap ht' _ h =>
      cases ht.unique ht'
      exact h i v _ hi (by rw [List.getElem?_map, hi, Option.map_some])
  · intro h
    refine .stringMap ht (by rw [List.map_map]; rfl) fun i v e hv he => ?_
    rw [List.getElem?_map, hv, Option.map_some] at he
    cases he
    exact h v (List.mem_of_getElem? hv)

theorem present_iff (ht : c.set.Expands t (.mk (.primitive .nullable) (elem :: rest))) :
    IsBuilt c options module (.present v) t ↔ IsBuilt c options module v elem := by
  unfold IsBuilt
  rw [Context.expr]
  constructor
  · intro h
    cases h with
    | scalar _ h => cases h
    | present ht' h =>
      cases ht.unique ht'
      exact h
  · exact .present ht

/-- A scalar is built everywhere but where only a type is mentioned. -/
theorem scalar_iff {p : Primitive} {l : Literal}
    (ht : c.set.Expands t (.mk (.primitive p) args)) (h : DenotesScalar p l v) :
    IsBuilt c options module v t ↔ p ≠ .typeToken := by
  unfold IsBuilt
  constructor
  · rintro hb rfl
    cases h with
    | typeToken =>
      cases hb with
      | unit ht' hu =>
        cases ht.unique ht'
        cases hu
      | scalar _ h => cases h
    | int hp => cases hp
    | word hp => cases hp
  · intro hp
    cases h with
    | void => exact .unit ht rfl
    | typeToken => exact absurd rfl hp
    | bool b => exact .scalar ht (.bool b)
    | int hp hle hlt => exact .scalar ht (.int hp hle hlt)
    | word hp hlt => exact .scalar ht (.word hp hlt)
    | float h => exact .scalar ht (.float (.inl rfl) _)
    | double d => exact .scalar ht (.float (.inr rfl) d)
    | floatOfInt i => exact .scalar ht (.float (.inl rfl) _)
    | doubleOfInt i => exact .scalar ht (.float (.inr rfl) _)
    | string s => exact .scalar ht (.string s)
    | byteVector h => exact .scalar ht (.bytes _)
    | json l => exact .scalar ht (.json l)

theorem newtype_iff {target : TypeExpr} {default : Option Literal}
    (ht : c.set.Expands t (.mk (.decl id) args))
    (hbody : (c.set.decl id).body = .newtype target default)
    (htarget : c.set.BodyAt id args (.target type)) :
    IsBuilt c options module (.newtype id v) t ↔ IsBuilt c options module v type := by
  obtain ⟨n, hitem, hn, hmarker, -⟩ := itemOf_newtype options hbody
  unfold IsBuilt
  rw [Context.expr]
  constructor
  · intro h
    cases h with
    | scalar _ h => cases h
    | wrapped ht' hbody' htarget' hitem' _ hboxes h =>
      cases ht.unique ht'
      cases htarget.unique htarget'
      cases hbody.symm.trans hbody'
      cases hitem.symm.trans hitem'
      rw [hn] at hboxes
      rwa [hboxes.unique .plain] at h
  · intro h
    refine .wrapped ht hbody htarget hitem ?_ ?_ h
    · rw [hmarker]
      rfl
    · rw [hn]
      exact .plain

section Members

variable {modules : List Source.Module} (h : Resolved modules c.set)

include h

theorem struct_iff (ht : c.set.Expands t (.mk (.decl id) args))
    (hbody : (c.set.decl id).body = .struct ms) (htypes : c.set.BodyAt id args (.fields types))
    (hlen : vs.length = ms.length) :
    IsBuilt c options module (.struct id vs) t ↔
      ∀ (i : Nat) v type, vs[i]? = some v → types[i]? = some type →
        IsBuilt c options module v type := by
  obtain ⟨r, hitem, hmarker, hnames, hfields⟩ := itemOf_struct h options hbody
  have hmembers : (c.set.decl id).members = ms := by rw [Decl.members, hbody]
  have hboxed : ∀ m e, Boxes ((homeContext c options id).type m.type) e
      ((homeContext c options id).memberType id m)
      ((contextOf c options module).memberExpr id m e) :=
    fun m e => Context.boxes_member _ m e rfl
  unfold IsBuilt
  rw [Context.expr]
  show Builds _ _ _ _ (.record _ ((contextOf c options module).fieldExprs id
    (c.set.decl id).members vs) _) t ↔ _
  rw [hmembers]
  constructor
  · intro hb i v type hv htype
    cases hb with
    | scalar _ h => cases h
    | @record _ es _ _ _ _ _ _ _ ht' htypes' hitem' _ _ hboxes hvs _ hb =>
      cases ht.unique ht'
      cases htypes.unique htypes'
      cases hitem.symm.trans hitem'
      obtain ⟨m, hm⟩ := exists_getElem?_of_length_eq hlen.symm hv
      obtain ⟨e, he⟩ := exists_getElem?_of_length_eq hvs.symm hv
      -- the field of the item says whether there is a box, so what is in it is known
      have hx := Context.getElem?_fieldExprs (contextOf c options module) id hm hv
      have hbox := hboxes i m _ e _ (hmembers ▸ hm) (hfields i m hm) he hx
      rw [← hbox.unique (hboxed m _)]
      exact hb i v e type hv he htype
  · intro hb
    have hes : ∀ (i : Nat) v e, vs[i]? = some v →
        (vs.map (contextOf c options module).expr)[i]? = some e →
        e = (contextOf c options module).expr v := by
      intro i v e hv he
      rw [List.getElem?_map, hv] at he
      exact (Option.some.inj he).symm
    have hvs : vs.length = (vs.map (contextOf c options module).expr).length :=
      (List.length_map _).symm
    have hfieldsLen : r.fields.length = ms.length := by simpa using congrArg List.length hnames
    refine .record ht htypes hitem ?_ ?_ ?_ hvs (by rw [← hvs, hlen, hfieldsLen]) ?_
    · rw [hmarker]
      rfl
    · rw [hnames, Context.map_fst_fieldExprs _ _ hlen]
    · intro i m f e x hm hf he hx
      rw [hmembers] at hm
      obtain ⟨v, hv⟩ := exists_getElem?_of_length_eq hlen hm
      cases (Context.getElem?_fieldExprs _ id hm hv).symm.trans hx
      cases (hfields i m hm).symm.trans hf
      rw [hes i v e hv he]
      exact hboxed m _
    · intro i v e type hv he htype
      rw [hes i v e hv he]
      exact hb i v type hv htype

/-- An alternative with a value is built as one with a payload. -/
theorem union_iff (ht : c.set.Expands t (.mk (.decl id) args))
    (hbody : (c.set.decl id).body = .union ms) (hm : ms[index]? = some m)
    (htypes : c.set.BodyAt id args (.fields types)) (htype : types[index]? = some type)
    (hv : v ≠ .void) (hhead : m.type.head ≠ .primitive .void) :
    IsBuilt c options module (.union id index v) t ↔ IsBuilt c options module v type := by
  obtain ⟨s, hitem, hx⟩ := itemOf_sum h options (.inl hbody) hm
  have hmember : (c.set.decl id).members[index]? = some m := by rwa [members_of_sum (.inl hbody)]
  have hpayload : ((homeContext c options id).variant id m).payload =
      some ((homeContext c options id).memberType id m) := if_neg hhead
  have hbox : Boxes ((homeContext c options id).type m.type)
      ((contextOf c options module).expr v) ((homeContext c options id).memberType id m)
      ((contextOf c options module).memberExpr id m ((contextOf c options module).expr v)) :=
    Context.boxes_member _ m _ rfl
  have hexpr : (contextOf c options module).expr (.union id index v) =
      .variant ((contextOf c options module).typePath id) (typeIdent m.name)
        ((contextOf c options module).memberExpr id m
          ((contextOf c options module).expr v)) := by
    have hm' : (c.set.decl id).member index = m := by rw [Decl.member, hmember, Option.getD_some]
    rw [Context.expr, if_neg (by rwa [isVoid_iff]), ← hm']
    rfl
  unfold IsBuilt
  rw [hexpr]
  constructor
  · intro hb
    cases hb with
    | scalar _ h => cases h
    | variant ht' htypes' htype' hm' hitem' hx' _ hpayload' hbox' hb =>
      cases ht.unique ht'
      cases htypes.unique htypes'
      cases htype.symm.trans htype'
      cases hmember.symm.trans hm'
      cases hitem.symm.trans hitem'
      cases hx.symm.trans hx'
      cases hpayload.symm.trans hpayload'
      rwa [← hbox'.unique hbox]
  · exact .variant ht htypes htype hmember hitem hx rfl hpayload hbox

/-- What holds nothing is built if it is declared without payload. -/
theorem label_iff (ht : c.set.Expands t (.mk (.decl id) args))
    (hbody : (c.set.decl id).body = .union ms ∨ (c.set.decl id).body = .enum ms)
    (hm : ms[index]? = some m) (hv : v = .union id index .void ∨ v = .enum id index) :
    IsBuilt c options module v t ↔ m.type.head = .primitive .void := by
  obtain ⟨s, hitem, hx⟩ := itemOf_sum h options hbody hm
  have hmember : (c.set.decl id).member index = m := by
    rw [Decl.member, members_of_sum hbody, hm, Option.getD_some]
  have hexpr : (contextOf c options module).expr v =
      .label ((contextOf c options module).typePath id) (typeIdent m.name) := by
    rw [← hmember]
    rcases hv with rfl | rfl <;> rw [Context.expr] <;> rfl
  unfold IsBuilt
  rw [hexpr]
  constructor
  · intro hb
    have hpayload : ∀ s' x, itemOf c options id = .sum s' → s'.variants[index]? = some x →
        x.payload = none → m.type.head = .primitive .void := by
      intro s' x hitem' hx' hnone
      cases hitem.symm.trans hitem'
      cases hx.symm.trans hx'
      exact Context.payload_eq_none_iff.mp hnone
    -- a value of a union and one of an enum are never the same
    cases hb with
    | scalar _ h => cases h
    | label _ hv' hitem' hx' _ _ hnone =>
      rcases hv with rfl | rfl <;> rcases hv' with hv' | hv' <;> cases hv'
      · exact hpayload _ _ hitem' hx' hnone
      · exact hpayload _ _ hitem' hx' hnone
  · intro hvoid
    exact .label ht hv hitem hx rfl rfl (Context.payload_eq_none_iff.mpr hvoid)

end Members

end IsBuilt

end Adl.Rust
