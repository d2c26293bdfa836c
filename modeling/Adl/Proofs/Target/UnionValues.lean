import Adl.Proofs.Target.Imports
import Adl.Proofs.Target.Placed

/-!
# UnionValues — objects for union values and the interfaces of their alternatives

The object for a union value is made from the value: it has a property `value` unless the payload is
nothing.  The interface of an alternative is made from its type as it is written: it declares this
property unless the type is `Void`.  So no object has a property that its interface lacks, and the
two agree for a value unless the type of the alternative is not `Void` as it is written but has
nothing as its only value, such as a type parameter with the argument `Void`, an alias of `Void`, or
a token of a type (`unionValues_laws`).  A newtype of `Void` has values of its own.
-/

namespace Adl

open Relation (ReflTransGen)

variable {set : ModuleSet} {n : Nat} {l : Literal} {v w : Value} {t u : TypeExpr}

/-! ### Parts and their types -/

/-- A value is directly made of another one. -/
def Value.MadeOf (v w : Value) : Prop := w ∈ v.parts

/-- The parts of a value that a literal denotes are contained in it at some types. -/
theorem Denotes.exists_contains (h : Denotes set n l v t) (hw : v.MadeOf w) :
    ∃ u, set.Contains (v, t) (w, u) := by
  cases h with
  | scalar _ h => cases h <;> cases hw
  | vector ht _ _ => exact ⟨_, .item ht hw⟩
  | stringMap ht _ _ _ =>
    obtain ⟨e, he, rfl⟩ := List.mem_map.mp hw
    exact ⟨_, .entry ht he⟩
  | absent _ => cases hw
  | present ht _ _ =>
    obtain rfl := List.mem_singleton.mp hw
    exact ⟨_, .present ht⟩
  | struct ht hbody htypes _ _ hsources hlen _ =>
    obtain ⟨i, hi⟩ := List.mem_iff_getElem?.mp hw
    obtain ⟨m, s, type, -, -, htype, -⟩ := exists_fieldSource hbody htypes hsources hlen hi
    exact ⟨_, .field ht htypes hi htype⟩
  | union ht _ _ _ htypes htype _ =>
    obtain rfl := List.mem_singleton.mp hw
    exact ⟨_, .payload ht htypes htype⟩
  | enum _ _ _ _ => cases hw
  | newtype ht _ htarget _ _ =>
    obtain rfl := List.mem_singleton.mp hw
    exact ⟨_, .target ht htarget⟩

/-- So are the parts at any depth. -/
theorem Denotes.exists_reaches (h : Denotes set n l v t) (hw : ReflTransGen Value.MadeOf v w) :
    ∃ u, ReflTransGen set.Contains (v, t) (w, u) := by
  induction hw with
  | refl => exact ⟨t, .refl⟩
  | tail _ hlast ih =>
    obtain ⟨u, hu⟩ := ih
    obtain ⟨k, l', -, hpart⟩ := h.part set.inherits_true trivial hu
    obtain ⟨u', hu'⟩ := hpart.exists_contains hlast
    exact ⟨u', hu.tail hu'⟩

/-- A type whose only value is nothing: `Void`, or a token of a type, or an alias of these. -/
def ModuleSet.HoldsNothing (set : ModuleSet) (t : TypeExpr) : Prop :=
  ∃ p args, set.Expands t (.mk (.primitive p) args) ∧ (p = .void ∨ p = .typeToken)

theorem ModuleSet.holdsNothing_of_head (h : t.head = .primitive .void) : set.HoldsNothing t := by
  obtain ⟨head, args⟩ := t
  obtain rfl : head = .primitive .void := h
  exact ⟨.void, args, .of_primitive .void args, .inl rfl⟩

/-- What is denoted is nothing exactly at such a type. -/
theorem Denotes.eq_void_iff (h : Denotes set n l v t) : v = .void ↔ set.HoldsNothing t := by
  constructor
  · rintro rfl
    cases h with
    | scalar ht h =>
      cases h with
      | void => exact ⟨_, _, ht, .inl rfl⟩
      | typeToken => exact ⟨_, _, ht, .inr rfl⟩
  · rintro ⟨p, args, ht, hp⟩
    cases h with
    | scalar ht' h =>
      cases ht.unique ht'
      cases h with
      | void => rfl
      | typeToken => rfl
      | int hbits => rcases hp with rfl | rfl <;> cases hbits
      | word hbits => rcases hp with rfl | rfl <;> cases hbits
      | _ => rcases hp with h | h <;> cases h
    | vector ht' => cases ht.unique ht'; rcases hp with h | h <;> cases h
    | stringMap ht' => cases ht.unique ht'; rcases hp with h | h <;> cases h
    | absent ht' => cases ht.unique ht'; rcases hp with h | h <;> cases h
    | present ht' => cases ht.unique ht'; rcases hp with h | h <;> cases h
    | struct ht' => cases ht.unique ht'
    | union ht' => cases ht.unique ht'
    | enum ht' => cases ht.unique ht'
    | newtype ht' => cases ht.unique ht'

/-! ### Stored defaults -/

/-- A compilation stores a default of a field or of a newtype, which has the type `t`. -/
inductive Compilation.StoresAt (c : Compilation) (id : DeclId) : Value → TypeExpr → Prop
  | field {v : Value} {i : Nat} {m : Member} (hm : (c.set.decl id).members[i]? = some m)
      (hv : (c.defaultsOf id).member? i = some v) : StoresAt c id v m.type
  | newtype {v : Value} (hv : (c.defaultsOf id).newtype = some v) :
      StoresAt c id v (c.set.selfType id)

variable {modules : List Source.Module} {c : Compilation} {id : DeclId}

/-- Each default that is kept for a declaration has a type. -/
theorem Compiled.exists_storesAt (hc : Compiled modules c) (hv : v ∈ (c.defaultsOf id).values) :
    ∃ t, c.StoresAt id v t := by
  rw [Defaults.values, List.mem_append, List.mem_filterMap] at hv
  rcases hv with ⟨_, hmem, rfl⟩ | hv
  · obtain ⟨i, hi⟩ := List.mem_iff_getElem?.mp hmem
    have hmember : (c.defaultsOf id).member? i = some v := by
      rw [Defaults.member?, hi]
      rfl
    obtain ⟨ms, m, l, hbody, hm, -⟩ := (hc.defaultsAt id).exists_member hmember
    exact ⟨m.type, .field (by rwa [Decl.members, hbody]) hmember⟩
  · exact ⟨_, .newtype (Option.mem_toList.mp hv)⟩

/-- A stored default is denoted, or it is a newtype of what is denoted at the target. -/
theorem Compilation.StoresAt.exists_denotes (hc : Compiled modules c) (h : c.StoresAt id v t) :
    ∃ w u n l, (v = w ∧ t = u ∨ v = .newtype id w ∧ c.set.Contains (v, t) (w, u)) ∧
      Denotes c.set n l w u := by
  cases h with
  | @field i m hm hv =>
    obtain ⟨x, hx⟩ := hc.exists_decl fun hempty => by
      rw [hempty] at hv
      cases hv
    obtain ⟨ms, m', l, hbody, hm', -, hown⟩ := (hc.defaultsOf hx).exists_member hv
    rw [Decl.members, hbody] at hm
    cases hm.symm.trans hm'
    exact ⟨v, m.type, _, l, .inl ⟨rfl, rfl⟩, hown.denotes⟩
  | newtype hv =>
    obtain ⟨x, hx⟩ := hc.exists_decl fun hempty => by
      rw [hempty] at hv
      cases hv
    obtain ⟨t, l, w, hbody, rfl, hown⟩ := (hc.defaultsOf hx).exists_newtype hv
    have ht : c.set.Expands (c.set.selfType id) (c.set.selfType id) := by
      refine .of_decl ?_ _
      rw [ModuleSet.isAlias, Decl.isAlias, hbody]
      exact Bool.false_ne_true
    have htarget := bodyAt_selfType (ModuleSet.proper_of_checkAll hc.resolved hc.checked id) hbody
    exact ⟨w, t, _, l, .inr ⟨rfl, .target ht htarget⟩, hown.denotes⟩

namespace TypeScript

open Text (Occurs)

variable {c : Compilation} {m : Module} {ctx : Context} {id owner : DeclId} {index : Nat}

/-! ### Objects -/

/-- The properties of an object that builds a union value, and what is written for them. -/
def Expr.properties : Expr → List (String × String)
  | .kind name => [("kind", Text.quote name)]
  | .variant name payload => [("kind", Text.quote name), ("value", payload.text)]
  | _ => []

theorem Expr.text_kind (tag : String) :
    (kind tag).text = "\x7bkind: " ++ Text.quote tag ++ "\x7d" := rfl

theorem Expr.text_variant (tag : String) (payload : Expr) :
    (variant tag payload).text =
      "\x7bkind: " ++ Text.quote tag ++ ", value: " ++ payload.text ++ "\x7d" := rfl

/-- The expression for a union value is an object with the serialized name of the alternative. -/
theorem Context.text_expr_union (ctx : Context) (owner : DeclId) (index : Nat) (w : Value) :
    (ctx.expr (.union owner index w)).text =
        "\x7b" ++ Text.listed ((ctx.expr (.union owner index w)).properties.map fun p =>
          p.1 ++ ": " ++ p.2) ++ "\x7d" ∧
      (ctx.expr (.union owner index w)).properties.head? =
        some ("kind", Text.quote ((ctx.set.decl owner).member index).serializedName) := by
  have hkind : "\x7bkind: " = "\x7b" ++ "kind" ++ ": " := by decide
  have hvalue : ", value: " = ", " ++ "value" ++ ": " := by decide
  rw [expr]
  split
  · refine ⟨?_, rfl⟩
    rw [Expr.text_kind, hkind]
    simp only [Expr.properties, List.map_cons, List.map_nil, Text.listed,
      String.intercalate_singleton, String.append_assoc]
  · refine ⟨?_, rfl⟩
    rw [Expr.text_variant, hkind, hvalue]
    simp only [Expr.properties, List.map_cons, List.map_nil, Text.listed,
      String.intercalate_cons_cons, String.intercalate_singleton, String.append_assoc]

/-- The object has a property for the payload unless the payload is nothing. -/
theorem Context.value_mem_properties_iff (ctx : Context) (owner : DeclId) (index : Nat)
    (w : Value) :
    "value" ∈ (ctx.expr (.union owner index w)).properties.map Prod.fst ↔ w ≠ .void := by
  rw [expr]
  split
  · next h => simp [Expr.properties, Rust.isVoid_iff.mp h]
  · next h =>
    rw [Rust.isVoid_iff] at h
    simp [Expr.properties, h]

/-- The text of the expression for a part occurs in that for the whole value, unless the part is
nothing, which an alternative leaves out. -/
theorem Context.occurs_expr (h : Denotes ctx.set n l v t) (hw : v.MadeOf w) (hne : w ≠ .void) :
    Occurs (ctx.expr w).text (ctx.expr v).text := by
  cases v with
  | vector items =>
    refine Expr.occurs_of_mem_parts ?_
    rw [expr, exprs_eq_map]
    exact List.mem_map_of_mem hw
  | stringMap entries =>
    refine Expr.occurs_of_mem_parts ?_
    rw [expr, entryExprs_eq_map, Expr.parts, List.map_map]
    obtain ⟨e, he, rfl⟩ := List.mem_map.mp hw
    exact List.mem_map.mpr ⟨e, he, rfl⟩
  | struct id fields =>
    refine Expr.occurs_of_mem_parts ?_
    rw [expr, Expr.parts, ctx.map_snd_fieldExprs h.length_fields]
    exact List.mem_map_of_mem hw
  | union id index x =>
    obtain rfl := List.mem_singleton.mp hw
    refine Expr.occurs_of_mem_parts ?_
    rw [expr, if_neg (by rwa [Rust.isVoid_iff])]
    exact List.mem_singleton_self _
  | present x =>
    obtain rfl := List.mem_singleton.mp hw
    rw [expr]
    exact .refl _
  | newtype id x =>
    obtain rfl := List.mem_singleton.mp hw
    rw [expr]
    exact .refl _
  | _ => cases hw

/-- So does the text for a part at any depth that is not nothing. -/
theorem Context.occurs_expr_of_reaches (h : Denotes ctx.set n l v t)
    (hw : ReflTransGen Value.MadeOf v w) (hne : w ≠ .void) :
    Occurs (ctx.expr w).text (ctx.expr v).text := by
  induction hw using ReflTransGen.head_induction_on generalizing n l t with
  | refl => exact .refl _
  | @head v x hfirst hrest ih =>
    have hx : x ≠ .void := by
      rintro rfl
      rcases ReflTransGen.cases_head hrest with rfl | ⟨y, hy, -⟩
      · exact hne rfl
      · cases hy
    obtain ⟨k, l', u, hpart⟩ := h.parts hfirst
    exact (ih hpart).trans (ctx.occurs_expr h hfirst hx)

/-! ### Interfaces -/

/-- The properties of the interface of a variant, and the types that are written for them. -/
def Variant.properties (x : Variant) : List (String × String) :=
  ("kind", Text.quote x.tag) :: if x.carries then [("value", x.type.text)] else []

/-- The lines of the interface of a variant declare its properties, one in each line. -/
theorem Sum.variantLines_eq (s : Sum) (x : Variant) :
    s.variantLines x = docLines "" x.doc ++
      ["export interface " ++ s.variantType x ++ " \x7b"] ++
      x.properties.map (fun p => "  " ++ p.1 ++ ": " ++ p.2 ++ ";") ++ ["\x7d"] := by
  have hkind : "  kind: " = "  " ++ "kind" ++ ": " := by decide
  have hvalue : "  value: " = "  " ++ "value" ++ ": " := by decide
  rw [variantLines, Variant.properties, hkind, hvalue]
  cases x.carries <;> simp only [Bool.false_eq_true, if_false, if_true, List.map_cons,
    List.map_nil, List.append_assoc, List.cons_append, List.nil_append]

theorem Variant.value_mem_properties_iff {x : Variant} :
    "value" ∈ x.properties.map Prod.fst ↔ x.carries := by
  rw [Variant.properties]
  cases x.carries <;> simp

/-- The interface of an alternative declares a value unless its type is written as `Void`. -/
theorem Context.value_mem_properties_variant_iff (ctx : Context) (d : Decl) (a : Member) :
    "value" ∈ (ctx.variant d a).properties.map Prod.fst ↔ a.type.head ≠ .primitive .void := by
  rw [Variant.value_mem_properties_iff, variant, decide_eq_true_eq]

/-- The lines of the interface of a variant stand together in the lines of its sum. -/
theorem Sum.variantLines_infix {s : Sum} {x : Variant} (hx : x ∈ s.variants) :
    s.variantLines x <:+: (Item.sum s).lines := by
  have hall : s.variantLines x <:+: s.variants.flatMap s.variantLines :=
    List.infix_of_mem_flatten (List.mem_map_of_mem hx)
  refine hall.trans (List.IsPrefix.isInfix ?_)
  rw [Item.lines, Sum.lines]
  simp only [List.append_assoc]
  exact List.prefix_append _ _

/-! ### Units -/

/-- The lines of an item stand together in the unit. -/
theorem lines_itemIn_infix (options : Target.Options) (hid : id ∈ m.decls) :
    (itemIn c m id).lines <:+: unitLines c m options := by
  have hdecl : (itemIn c m id).lines <:+:
      declLines ⟨c.set, m.name⟩ (c.set.decl id) (c.defaultsOf id) := by
    rw [declLines]
    exact List.infix_append_of_infix_left (List.infix_append_of_infix_left
      (List.infix_append_of_infix_right (List.infix_refl _)))
  have hall : declLines ⟨c.set, m.name⟩ (c.set.decl id) (c.defaultsOf id) <:+:
      m.decls.flatMap fun id => declLines ⟨c.set, m.name⟩ (c.set.decl id) (c.defaultsOf id) :=
    List.infix_of_mem_flatten (List.mem_map_of_mem hid)
  rw [unitLines]
  exact (hdecl.trans hall).trans (List.infix_append_of_infix_left
    (List.infix_append_of_infix_left (List.infix_append_of_infix_right (List.infix_refl _))))

/-- Every declaration stands in a module. -/
theorem exists_module (hr : Resolved modules c.set) {x : Decl} (hx : c.set.decls[id]? = some x) :
    ∃ m ∈ c.set.modules, id ∈ m.decls := by
  have hrange : id ∈ c.set.modules.flatMap Module.decls := by
    rw [hr.indexed.places_eq, List.mem_range]
    exact (List.getElem?_eq_some_iff.mp hx).1
  exact List.mem_flatMap.mp hrange

/-- The expression for a stored default occurs in a line of the item of its declaration. -/
theorem exists_line_of_storesAt (hc : Compiled modules c) (h : c.StoresAt id v t) (m : Module) :
    ∃ line ∈ (itemIn c m id).lines, Occurs ((⟨c.set, m.name⟩ : Context).expr v).text line := by
  cases h with
  | @field i a ha hv =>
    obtain ⟨ms, a', l, hbody, ha', -⟩ := (hc.defaultsAt id).exists_member hv
    rw [Decl.members, hbody] at ha
    cases ha.symm.trans ha'
    let f := (⟨c.set, m.name⟩ : Context).field a (some v)
    obtain ⟨x, hx, hf⟩ : ∃ x : Record, itemIn c m id = .record x ∧ f ∈ x.fields := by
      rw [itemIn, Context.item, hbody]
      refine ⟨_, rfl, List.mem_map.mpr ⟨(a, i), List.mem_zipIdx_iff_getElem?.mpr ha, ?_⟩⟩
      show Context.field _ a ((c.defaultsOf id).member? i) = f
      rw [hv]
    refine ⟨Record.initLine f, ?_, ?_⟩
    · rw [hx, Item.lines, Record.lines]
      exact List.mem_append_left _ (List.mem_append_right _ (List.mem_map_of_mem hf))
    · exact (((Occurs.refl _).mid _ _).before _).before _
  | newtype hv =>
    obtain ⟨type, l, w, hbody, -⟩ := (hc.defaultsAt id).exists_newtype hv
    refine ⟨"  return " ++ ((⟨c.set, m.name⟩ : Context).expr v).text ++ ";", ?_,
      (Occurs.refl _).mid _ _⟩
    rw [itemIn, Context.item, hbody, Item.lines, Alias.lines, hv]
    simp

/-- A union value in a stored default is denoted at its type, and its object occurs in the
expression for the default. -/
theorem exists_denotes_of_storesAt (hc : Compiled modules c) (h : c.StoresAt id v t)
    (hw : ReflTransGen Value.MadeOf v (.union owner index w)) :
    (∃ u n l, ReflTransGen c.set.Contains (v, t) (.union owner index w, u) ∧
      Denotes c.set n l (.union owner index w) u) ∧
    ∀ module, Occurs ((⟨c.set, module⟩ : Context).expr (.union owner index w)).text
      ((⟨c.set, module⟩ : Context).expr v).text := by
  obtain ⟨x, u, n, l, hx, hden⟩ := h.exists_denotes hc
  have hparts (hw : ReflTransGen Value.MadeOf x (.union owner index w)) :
      (∃ u' n' l', ReflTransGen c.set.Contains (x, u) (.union owner index w, u') ∧
        Denotes c.set n' l' (.union owner index w) u') ∧
      ∀ module, Occurs ((⟨c.set, module⟩ : Context).expr (.union owner index w)).text
        ((⟨c.set, module⟩ : Context).expr x).text := by
    obtain ⟨u', hu'⟩ := hden.exists_reaches hw
    obtain ⟨k, l', -, hpart⟩ := hden.part c.set.inherits_true trivial hu'
    exact ⟨⟨u', k, l', hu', hpart⟩, fun module =>
      Context.occurs_expr_of_reaches hden hw Value.noConfusion⟩
  rcases hx with ⟨rfl, rfl⟩ | ⟨rfl, hcontains⟩
  · exact hparts hw
  · -- a newtype has the expression of its target
    rcases ReflTransGen.cases_head hw with heq | ⟨y, hy, hrest⟩
    · cases heq
    · obtain rfl := List.mem_singleton.mp hy
      obtain ⟨⟨u', k, l', hu', hpart⟩, hoccurs⟩ := hparts hrest
      refine ⟨⟨u', k, l', hu'.head hcontains, hpart⟩, fun module => ?_⟩
      rw [Context.expr.eq_def _ (.newtype id y)]
      exact hoccurs module

/-! ### Main statement -/

/-- The object `e` for a union value in a default of a declaration, and the interface `x` of its
alternative. -/
structure ObjectOf (c : Compilation) (id owner : DeclId) (index : Nat) (payload : Value) (e : Expr)
    (x : Variant) : Prop where
  /-- The object stands in the unit of the module with the default. -/
  object : ∃ m ∈ c.set.modules, id ∈ m.decls ∧
    e = (⟨c.set, m.name⟩ : Context).expr (.union owner index payload) ∧
    ∀ options, ∃ line ∈ unitLines c m options, Occurs e.text line
  /-- It lists its properties. -/
  text : e.text =
    "\x7b" ++ Text.listed (e.properties.map fun p => p.1 ++ ": " ++ p.2) ++ "\x7d"
  /-- The interface stands in the unit of the module with the union: its documentation, and its
  properties between braces, one in each line. -/
  interface : ∃ m ∈ c.set.modules, owner ∈ m.decls ∧ ∃ s, itemIn c m owner = .sum s ∧
    s.variants[index]? = some x ∧ ∀ options,
      docLines "" x.doc ++ ["export interface " ++ s.variantType x ++ " \x7b"] ++
        x.properties.map (fun p => "  " ++ p.1 ++ ": " ++ p.2 ++ ";") ++ ["\x7d"] <:+:
          unitLines c m options
  /-- Both begin with the name of the alternative. -/
  kind : e.properties.head? = x.properties.head?

/-- The payload of a union value that is a part of a default has the type of the alternative, at the
arguments that the union has there. -/
def PayloadType (set : ModuleSet) (v : Value) (t : TypeExpr) (owner : DeclId) (index : Nat)
    (payload : Value) (type : TypeExpr) : Prop :=
  ∃ u args types, ReflTransGen set.Contains (v, t) (.union owner index payload, u) ∧
    set.Expands u (.mk (.decl owner) args) ∧ set.BodyAt owner args (.fields types) ∧
    types[index]? = some type

theorem exists_decl_of_union {ms : List Member} (hbody : (c.set.decl owner).body = .union ms) :
    ∃ x, c.set.decls[owner]? = some x := by
  cases hx : c.set.decls[owner]? with
  | some x => exact ⟨x, rfl⟩
  | none =>
    rw [ModuleSet.decl, hx] at hbody
    cases hbody

/-- The variant of an alternative, in the item of its union. -/
theorem exists_sum_of_union {ms : List Member} {a : Member}
    (hbody : (c.set.decl owner).body = .union ms) (ha : ms[index]? = some a) (m : Module) :
    ∃ s, itemIn c m owner = .sum s ∧
      s.variants[index]? = some ((⟨c.set, m.name⟩ : Context).variant (c.set.decl owner) a) := by
  rw [itemIn, Context.item, hbody]
  exact ⟨_, rfl, by rw [List.getElem?_map, ha, Option.map_some]⟩

theorem exists_objectOf (hc : Compiled modules c) (hstores : c.StoresAt id v t)
    (hv : v ∈ (c.defaultsOf id).values) {payload : Value}
    (hoccurs : ∀ module, Occurs ((⟨c.set, module⟩ : Context).expr (.union owner index payload)).text
      ((⟨c.set, module⟩ : Context).expr v).text)
    {ms : List Member} {a : Member} (hbody : (c.set.decl owner).body = .union ms)
    (ha : ms[index]? = some a) :
    ∃ m m' : Module, ObjectOf c id owner index payload
      ((⟨c.set, m.name⟩ : Context).expr (.union owner index payload))
      ((⟨c.set, m'.name⟩ : Context).variant (c.set.decl owner) a) := by
  have hne : c.defaultsOf id ≠ .empty := by
    intro hempty
    rw [hempty] at hv
    cases hv
  obtain ⟨d, hd⟩ := hc.exists_decl hne
  obtain ⟨m, hm, hid⟩ := exists_module hc.resolved hd
  obtain ⟨d', hd'⟩ := exists_decl_of_union hbody
  obtain ⟨m', hm', howner⟩ := exists_module hc.resolved hd'
  obtain ⟨s, hsum, hx⟩ := exists_sum_of_union hbody ha m'
  obtain ⟨htext, hkind⟩ := Context.text_expr_union ⟨c.set, m.name⟩ owner index payload
  refine ⟨m, m', ⟨m, hm, hid, rfl, fun options => ?_⟩, htext,
    ⟨m', hm', howner, s, hsum, hx, fun options => ?_⟩, ?_⟩
  · obtain ⟨line, hline, hv⟩ := exists_line_of_storesAt hc hstores m
    exact ⟨line, mem_unitLines_of_mem_lines hid hline, (hoccurs m.name).trans hv⟩
  · rw [← Sum.variantLines_eq]
    refine (Sum.variantLines_infix (List.mem_of_getElem? hx)).trans ?_
    rw [← hsum]
    exact lines_itemIn_infix options howner
  · have hmember : (c.set.decl owner).member index = a := by
      rw [Decl.member, Rust.members_of_sum (.inl hbody), ha, Option.getD_some]
    rw [hkind, hmember]
    rfl

/-- For each union value at any depth of a stored default, its object stands in the unit of the
default and the interface of its alternative in the unit of the union.  The object has a value
unless the type of the payload holds nothing, and the interface declares one unless the type of the
alternative is written as `Void`.  So an object has a value only if its interface declares one, and
the two agree unless the type of the alternative is not written as `Void` but holds nothing where
the value stands: a type parameter there has the argument `Void`, an alias stands for `Void`, or the
type is or stands for a `TypeToken`.  A newtype of `Void` does not hold nothing. -/
theorem unionValues_laws (h : Compilation.ofModules modules = .ok c)
    (hv : v ∈ (c.defaultsOf id).values) {payload : Value}
    (hpart : ReflTransGen Value.MadeOf v (.union owner index payload)) :
    ∃ e x t type, ObjectOf c id owner index payload e x ∧ c.StoresAt id v t ∧
      PayloadType c.set v t owner index payload type ∧
      ("value" ∈ e.properties.map Prod.fst ↔ ¬ c.set.HoldsNothing type) ∧
      ("value" ∈ x.properties.map Prod.fst ↔ c.set.HasPayload owner index) ∧
      ("value" ∈ e.properties.map Prod.fst → "value" ∈ x.properties.map Prod.fst) ∧
      (("value" ∈ e.properties.map Prod.fst ↔ "value" ∈ x.properties.map Prod.fst) ↔
        ¬ (c.set.HasPayload owner index ∧ c.set.HoldsNothing type)) := by
  have hc := ofModules_eq_ok_iff.mp h
  obtain ⟨t, hstores⟩ := hc.exists_storesAt hv
  obtain ⟨⟨u, n, l, hreach, hden⟩, hoccurs⟩ := exists_denotes_of_storesAt hc hstores hpart
  cases hden with
  | scalar _ hs => cases hs
  | @union _ _ _ _ _ type _ args types ms _ a ht hbody ha _ htypes htype hpayload =>
    obtain ⟨m, m', hobject⟩ := exists_objectOf hc hstores hv hoccurs hbody ha
    have hmember : (c.set.decl owner).members[index]? = some a := by
      rwa [Rust.members_of_sum (.inl hbody)]
    have hvalue := Context.value_mem_properties_iff ⟨c.set, m.name⟩ owner index payload
    have hdeclared := Context.value_mem_properties_variant_iff ⟨c.set, m'.name⟩ (c.set.decl owner) a
    rw [Ne, hpayload.eq_void_iff] at hvalue
    rw [← ModuleSet.hasPayload_iff hmember] at hdeclared
    -- the argument of a type parameter does not matter where `Void` is written
    have hnothing : ¬ c.set.HasPayload owner index → c.set.HoldsNothing type := by
      rw [ModuleSet.hasPayload_iff hmember, not_not]
      intro hhead
      cases htypes.union_eq hbody
      rw [List.getElem?_map, ha] at htype
      cases htype
      exact ModuleSet.holdsNothing_of_head (TypeExpr.head_subst_of_primitive _ hhead)
    refine ⟨_, _, t, type, hobject, hstores, ⟨u, args, types, hreach, ht, htypes, htype⟩, hvalue,
      hdeclared, ?_, ?_⟩
    · rw [hvalue, hdeclared]
      exact fun hholds => by_contra fun hnone => hholds (hnothing hnone)
    · rw [hvalue, hdeclared]
      tauto

/-- In the module of `choiceModule`, the object for the number has a value as its interface declares
it, and the object for the nothing has none. -/
theorem choice_unionValues :
    Compilation.ofModules [choiceModule] = .ok choiceCompilation ∧
      (∃ e x, ObjectOf choiceCompilation 1 0 1 (.int 3) e x ∧
        "value" ∈ e.properties.map Prod.fst ∧ "value" ∈ x.properties.map Prod.fst) ∧
      ∃ e x, ObjectOf choiceCompilation 1 0 1 .void e x ∧
        "value" ∉ e.properties.map Prod.fst ∧ "value" ∈ x.properties.map Prod.fst := by
  have h : Compilation.ofModules [choiceModule] = .ok choiceCompilation := by cbv
  have hpayload : choiceCompilation.set.HasPayload 0 1 := ⟨_, rfl, by decide⟩
  have hnumber : Value.union 0 1 (.int 3) ∈ (choiceCompilation.defaultsOf 1).values :=
    List.mem_cons_self
  have hnothing : Value.union 0 1 .void ∈ (choiceCompilation.defaultsOf 1).values :=
    List.mem_cons_of_mem _ List.mem_cons_self
  refine ⟨h, ?_, ?_⟩
  · obtain ⟨e, x, -, -, hobject, -, -, -, hdeclared, -, -⟩ := unionValues_laws h hnumber .refl
    obtain ⟨m, -, -, rfl, -⟩ := hobject.object
    exact ⟨_, x, hobject, (Context.value_mem_properties_iff _ 0 1 _).mpr Value.noConfusion,
      hdeclared.mpr hpayload⟩
  · obtain ⟨e, x, -, -, hobject, -, -, -, hdeclared, -, -⟩ := unionValues_laws h hnothing .refl
    obtain ⟨m, -, -, rfl, -⟩ := hobject.object
    exact ⟨_, x, hobject, fun hvalue => (Context.value_mem_properties_iff _ 0 1 _).mp hvalue rfl,
      hdeclared.mpr hpayload⟩

end TypeScript

end Adl
