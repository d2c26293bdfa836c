import Adl.Proofs.Target.TypeScriptRenaming
import Adl.Proofs.Types.Acyclic

/-!
# TypeScriptNames — the names that stand in generated TypeScript

A type names the declarations that are applied in it, and an expression those whose labels are in
the value: nothing else in it is a name of a declaration (`names_type_iff`, `names_expr_iff`).  So
the item of a declaration names what the declaration and its defaults refer to (`names_item_iff`).
Every name that stands in an item occurs in one of its lines (`Item.Names.exists_occurs`).
-/

namespace Adl

/-! ### Labels in values -/

namespace Value

/-- The values that a value is directly made of. -/
def parts : Value → List Value
  | vector items => items
  | stringMap entries => entries.map Prod.snd
  | present v => [v]
  | struct _ fields => fields
  | union _ _ v => [v]
  | newtype _ v => [v]
  | _ => []

/-- The enumeration that a value is a label of. -/
def label? : Value → Option DeclId
  | enum id _ => some id
  | _ => none

/-- Induction on a value, where a property may be assumed of its parts. -/
@[elab_as_elim]
theorem ind {motive : Value → Prop} (step : ∀ v, (∀ w ∈ v.parts, motive w) → motive v)
    (v : Value) : motive v := by
  have leaf (v : Value) (h : v.parts = []) : motive v := step v (by simp [h])
  have single (v w : Value) (h : v.parts = [w]) (hw : motive w) : motive v :=
    step v (by simpa [h] using hw)
  refine @Value.rec motive (fun vs => ∀ v ∈ vs, motive v) (fun entries => ∀ e ∈ entries, motive e.2)
    (fun e => motive e.2) (leaf _ rfl) (fun _ => leaf _ rfl) (fun _ => leaf _ rfl)
    (fun _ => leaf _ rfl) (fun _ => leaf _ rfl) (fun _ => leaf _ rfl) (fun _ => leaf _ rfl)
    (fun _ => leaf _ rfl) (fun _ h => step _ h) (fun _ h => step _ (List.forall_mem_map.mpr h))
    (leaf _ rfl) (fun _ => single _ _ rfl) (fun _ _ h => step _ h) (fun _ _ _ => single _ _ rfl)
    (fun _ _ => leaf _ rfl) (fun _ _ => single _ _ rfl) (fun _ h => nomatch h)
    (fun _ _ h hs => List.forall_mem_cons.mpr ⟨h, hs⟩) (fun _ h => nomatch h)
    (fun _ _ h hs => List.forall_mem_cons.mpr ⟨h, hs⟩) (fun _ _ h => h) v

/-- A label of an enumeration is in a value, at any depth. -/
inductive HasLabel (id : DeclId) : Value → Prop
  | label {v : Value} (h : v.label? = some id) : HasLabel id v
  | part {v w : Value} (hw : w ∈ v.parts) (h : HasLabel id w) : HasLabel id v

theorem hasLabel_iff {v : Value} {id : DeclId} :
    v.HasLabel id ↔ v.label? = some id ∨ ∃ w ∈ v.parts, w.HasLabel id := by
  constructor
  · intro h
    cases h with
    | label h => exact .inl h
    | part hw h => exact .inr ⟨_, hw, h⟩
  · rintro (h | ⟨w, hw, h⟩)
    · exact .label h
    · exact .part hw h

end Value

/-- The parts of a value that a literal denotes are denoted by literals. -/
theorem Denotes.parts {set : ModuleSet} {n : Nat} {l : Literal} {v w : Value} {t : TypeExpr}
    (h : Denotes set n l v t) (hw : w ∈ v.parts) : ∃ k l' u, Denotes set k l' w u := by
  cases h with
  | scalar _ h => cases h <;> cases hw
  | vector _ hlen h =>
    obtain ⟨l, hmem⟩ := exists_mem_zip hlen hw
    exact ⟨_, l, _, h l w hmem⟩
  | stringMap _ _ heq h =>
    obtain ⟨e, he, rfl⟩ := List.mem_map.mp hw
    obtain ⟨entry, hmem⟩ := exists_mem_zip (length_eq_of_map_eq heq) he
    exact ⟨_, entry.2, _, h entry e hmem⟩
  | absent _ => cases hw
  | present _ _ h =>
    obtain rfl := List.mem_singleton.mp hw
    exact ⟨_, _, _, h⟩
  | struct _ hbody htypes _ _ hsources hlen h =>
    obtain ⟨i, hi⟩ := List.mem_iff_getElem?.mp hw
    obtain ⟨m, s, type, -, -, -, hmem⟩ := exists_fieldSource hbody htypes hsources hlen hi
    exact ⟨_, _, _, h s type w hmem⟩
  | union _ _ _ _ _ _ h =>
    obtain rfl := List.mem_singleton.mp hw
    exact ⟨_, _, _, h⟩
  | enum _ _ _ _ => cases hw
  | newtype _ _ _ h _ =>
    obtain rfl := List.mem_singleton.mp hw
    exact ⟨_, _, _, h⟩

/-- A struct that a literal denotes has a value for each field. -/
theorem Denotes.length_fields {set : ModuleSet} {n : Nat} {l : Literal} {id : DeclId}
    {fields : List Value} {t : TypeExpr} (h : Denotes set n l (.struct id fields) t) :
    fields.length = (set.decl id).members.length := by
  cases h with
  | scalar _ h => cases h
  | struct _ hbody _ _ _ _ hlen _ => rw [hlen, Decl.members, hbody]

theorem TypeExpr.applies_mk_iff {head : TypeRef} {args : List TypeExpr} {id : DeclId} :
    (mk head args).Applies id ↔ head = .decl id ∨ ∃ t ∈ args, t.Applies id := by
  constructor
  · intro h
    cases h with
    | head => exact .inl rfl
    | arg ht h => exact .inr ⟨_, ht, h⟩
  · rintro (rfl | ⟨t, ht, h⟩)
    · exact .head args
    · exact .arg ht h

/-- A declaration with the given defaults refers to another one: it applies it in one of its types,
or has one of its labels in a default. -/
def Decl.RefersTo (d : Decl) (x : Defaults) (id : DeclId) : Prop :=
  (∃ t ∈ d.types, t.Applies id) ∨ ∃ v ∈ x.values, v.HasLabel id

namespace TypeScript

variable {set : ModuleSet} {module other : String} {r : Ref} {id : DeclId} {d : Decl}

/-! ### Modules that are collected -/

theorem mem_typeModules_iff {t : TypeExpr} :
    other ∈ typeModules set t ↔ ∃ id, t.Applies id ∧ (set.decl id).module = other := by
  induction t with
  | mk head args ih =>
    have hargs : other ∈ typesModules set args ↔
        ∃ t ∈ args, ∃ id, t.Applies id ∧ (set.decl id).module = other := by
      rw [typesModules_eq_flatMap, List.mem_flatMap]
      exact exists_congr fun t => and_congr_right (ih t)
    simp only [TypeExpr.applies_mk_iff]
    cases head with
    | decl id =>
      rw [typeModules, List.mem_cons, hargs]
      constructor
      · rintro (rfl | ⟨t, ht, id, h, rfl⟩)
        · exact ⟨id, .inl rfl, rfl⟩
        · exact ⟨id, .inr ⟨t, ht, h⟩, rfl⟩
      · rintro ⟨id, ⟨⟨⟩⟩ | ⟨t, ht, h⟩, rfl⟩
        · exact .inl rfl
        · exact .inr ⟨t, ht, id, h, rfl⟩
    | primitive p =>
      rw [typeModules, hargs]
      grind
    | typeParam name =>
      rw [typeModules, hargs]
      grind

/-- The modules of the labels in a value are those of its own label and of its parts. -/
theorem valueModules_eq_parts (set : ModuleSet) (v : Value) :
    valueModules set v = (v.label?.map fun id => (set.decl id).module).toList ++
      v.parts.flatMap (valueModules set) := by
  cases v with
  | vector items => exact valuesModules_eq_flatMap set items
  | stringMap entries =>
    rw [valueModules, entriesModules_eq_flatMap, Value.parts, List.flatMap_map]
    rfl
  | struct id fields => exact valuesModules_eq_flatMap set fields
  | _ => simp [valueModules, Value.label?, Value.parts]

theorem mem_valueModules_iff {v : Value} :
    other ∈ valueModules set v ↔ ∃ id, v.HasLabel id ∧ (set.decl id).module = other := by
  induction v using Value.ind with
  | step v ih =>
    have hparts : (∃ w ∈ v.parts, other ∈ valueModules set w) ↔
        ∃ w ∈ v.parts, ∃ id, w.HasLabel id ∧ (set.decl id).module = other :=
      exists_congr fun w => and_congr_right (ih w)
    rw [valueModules_eq_parts, List.mem_append, List.mem_flatMap, hparts, Option.mem_toList,
      Option.map_eq_some_iff]
    have hv : ∀ id, v.HasLabel id ↔ _ := fun id => Value.hasLabel_iff
    simp only [hv]
    grind

theorem mem_declModules_iff {x : Defaults} :
    other ∈ declModules set d x ↔ ∃ id, d.RefersTo x id ∧ (set.decl id).module = other := by
  rw [declModules, List.mem_append, typesModules_eq_flatMap, valuesModules_eq_flatMap,
    List.mem_flatMap, List.mem_flatMap]
  simp only [mem_typeModules_iff, mem_valueModules_iff, Decl.RefersTo]
  grind

/-! ### Names in types -/

/-- A name stands in a type. -/
inductive Ty.Names (r : Ref) : Ty → Prop
  | array {item : Ty} (h : Names r item) : Names r (.array item)
  | map {value : Ty} (h : Names r value) : Names r (.map value)
  | orNull {t : Ty} (h : Names r t) : Names r (.orNull t)
  | handle {t : Ty} (h : Names r t) : Names r (.handle t)
  | head (args : List Ty) : Names r (.apply r args)
  | arg {head : Ref} {args : List Ty} {t : Ty} (ht : t ∈ args) (h : Names r t) :
      Names r (.apply head args)

namespace Ty

@[simp] theorem not_names_named {name : String} : ¬ (named name).Names r := fun h => nomatch h

@[simp] theorem names_array_iff {item : Ty} : (array item).Names r ↔ item.Names r :=
  ⟨fun h => by cases h; assumption, .array⟩

@[simp] theorem names_map_iff {value : Ty} : (map value).Names r ↔ value.Names r :=
  ⟨fun h => by cases h; assumption, .map⟩

@[simp] theorem names_orNull_iff {t : Ty} : (orNull t).Names r ↔ t.Names r :=
  ⟨fun h => by cases h; assumption, .orNull⟩

@[simp] theorem names_handle_iff {t : Ty} : (handle t).Names r ↔ t.Names r :=
  ⟨fun h => by cases h; assumption, .handle⟩

@[simp] theorem names_apply_iff {head : Ref} {args : List Ty} :
    (apply head args).Names r ↔ head = r ∨ ∃ t ∈ args, t.Names r := by
  constructor
  · intro h
    cases h with
    | head => exact .inl rfl
    | arg ht h => exact .inr ⟨_, ht, h⟩
  · rintro (rfl | ⟨t, ht, h⟩)
    · exact .head args
    · exact .arg ht h

end Ty

namespace Context

/-- A primitive type with the right number of arguments names what these name. -/
theorem names_primitive_iff {p : Primitive} {args : List Ty} (h : p.arity = args.length) :
    (primitive p args).Names r ↔ ∃ t ∈ args, t.Names r := by
  match args with
  | [] => cases p <;> first | cases h; done | simp [primitive]
  | [t] => cases p <;> first | cases h; done | simp [primitive]
  | _ :: _ :: _ => cases p <;> cases h

/-- A saturated type names the declarations that are applied in it. -/
theorem names_type_iff {t : TypeExpr} (h : set.Saturated t) :
    ((⟨set, module⟩ : Context).type t).Names r ↔
      ∃ id, t.Applies id ∧ (⟨set, module⟩ : Context).ref id = r := by
  induction h with
  | @mk head args hlen _ ih =>
    have hargs : (∃ t ∈ (⟨set, module⟩ : Context).types args, t.Names r) ↔
        ∃ t ∈ args, ∃ id, t.Applies id ∧ (⟨set, module⟩ : Context).ref id = r := by
      rw [types_eq_map]
      simp only [List.mem_map, exists_exists_and_eq_and]
      exact exists_congr fun t => and_congr_right (ih t)
    simp only [TypeExpr.applies_mk_iff]
    cases head with
    | primitive p =>
      have harity : p.arity = ((⟨set, module⟩ : Context).types args).length := by
        rw [types_eq_map, List.length_map]
        exact hlen
      rw [type, names_primitive_iff harity, hargs]
      grind
    | typeParam name =>
      obtain rfl := List.length_eq_zero_iff.mp hlen.symm
      simp [type]
    | decl id =>
      rw [type, Ty.names_apply_iff, hargs]
      constructor
      · rintro (rfl | ⟨t, ht, id, h, rfl⟩)
        · exact ⟨id, .inl rfl, rfl⟩
        · exact ⟨id, .inr ⟨t, ht, h⟩, rfl⟩
      · rintro ⟨id, ⟨⟨⟩⟩ | ⟨t, ht, h⟩, rfl⟩
        · exact .inl rfl
        · exact .inr ⟨t, ht, id, h, rfl⟩

end Context

/-! ### Names in expressions -/

/-- The expressions that an expression is directly made of. -/
def Expr.parts : Expr → List Expr
  | array items => items
  | map entries => entries.map Prod.snd
  | record fields => fields.map Prod.snd
  | variant _ payload => [payload]
  | _ => []

/-- A name stands in an expression. -/
inductive Expr.Names (r : Ref) : Expr → Prop
  | label (name : String) : Names r (.label r name)
  | part {e e' : Expr} (he : e' ∈ e.parts) (h : Names r e') : Names r e

theorem Expr.names_iff_of_ne_label {e : Expr} (hne : ∀ q name, e ≠ .label q name) :
    e.Names r ↔ ∃ e' ∈ e.parts, e'.Names r := by
  constructor
  · intro h
    cases h with
    | label name => exact absurd rfl (hne r name)
    | part he h => exact ⟨_, he, h⟩
  · rintro ⟨e', he, h⟩
    exact .part he h

namespace Context

theorem map_snd_fieldExprs (ctx : Context) {ms : List Member} {vs : List Value}
    (h : vs.length = ms.length) : (ctx.fieldExprs ms vs).map Prod.snd = vs.map ctx.expr := by
  induction ms generalizing vs with
  | nil =>
    obtain rfl := List.length_eq_zero_iff.mp h
    rfl
  | cons m ms ih =>
    cases vs with
    | nil => cases h
    | cons v vs => rw [fieldExprs, List.map_cons, List.map_cons, ih (Nat.succ.inj h)]

/-- The expression for a value names the declaration whose label it is, and what the expressions for
its parts name.  An alternative without payload is written without it. -/
theorem names_expr_iff_parts (ctx : Context) {v : Value}
    (hv : ∀ id fields, v = .struct id fields →
      fields.length = (ctx.set.decl id).members.length) :
    (ctx.expr v).Names r ↔
      (∃ id, v.label? = some id ∧ ctx.ref id = r) ∨ ∃ w ∈ v.parts, (ctx.expr w).Names r := by
  have hcopy (e : Expr) (vs : List Value) (he : ∀ q name, e ≠ .label q name)
      (hparts : e.parts = vs.map ctx.expr) : e.Names r ↔ ∃ w ∈ vs, (ctx.expr w).Names r := by
    rw [Expr.names_iff_of_ne_label he, hparts]
    simp only [List.mem_map, exists_exists_and_eq_and]
  cases v with
  | vector items =>
    rw [expr, exprs_eq_map, hcopy _ items (by simp) rfl]
    simp [Value.label?, Value.parts]
  | stringMap entries =>
    rw [expr, entryExprs_eq_map, hcopy _ (entries.map Prod.snd) (by simp) (by simp [Expr.parts])]
    simp [Value.label?, Value.parts]
  | struct id fields =>
    have hlen := hv id fields rfl
    rw [expr, hcopy (.record _) fields (by simp) (ctx.map_snd_fieldExprs hlen)]
    simp [Value.label?, Value.parts]
  | union id alternative w =>
    rw [expr]
    split
    · next h =>
      cases w with
      | void => simp [Expr.names_iff_of_ne_label, Expr.parts, Value.label?, Value.parts, expr]
      | _ => cases h
    · rw [hcopy (.variant _ _) [w] (by simp) rfl]
      simp [Value.label?, Value.parts]
  | enum id label =>
    rw [expr]
    constructor
    · intro h
      cases h with
      | label => exact .inl ⟨id, rfl, rfl⟩
      | part he _ => cases he
    · rintro (⟨_, ⟨⟩, rfl⟩ | ⟨w, hw, -⟩)
      · exact .label _
      · cases hw
  | present w => simp [expr, Value.label?, Value.parts]
  | newtype id w => simp [expr, Value.label?, Value.parts]
  | _ =>
    rw [expr, Expr.names_iff_of_ne_label (by simp)]
    simp [Expr.parts, Value.label?, Value.parts]

/-- The expression for a value that a literal denotes names the declarations whose labels are in
the value. -/
theorem names_expr_iff {n : Nat} {l : Literal} {v : Value} {t : TypeExpr}
    (h : Denotes set n l v t) :
    ((⟨set, module⟩ : Context).expr v).Names r ↔
      ∃ id, v.HasLabel id ∧ (⟨set, module⟩ : Context).ref id = r := by
  induction v using Value.ind generalizing n l t with
  | step v ih =>
    have hparts : (∃ w ∈ v.parts, ((⟨set, module⟩ : Context).expr w).Names r) ↔
        ∃ w ∈ v.parts, ∃ id, w.HasLabel id ∧ (⟨set, module⟩ : Context).ref id = r := by
      refine exists_congr fun w => and_congr_right fun hw => ?_
      obtain ⟨k, l', u, hw'⟩ := h.parts hw
      exact ih w hw hw'
    rw [names_expr_iff_parts _ fun id fields hv => (hv ▸ h).length_fields, hparts]
    have hv : ∀ id, v.HasLabel id ↔ _ := fun id => Value.hasLabel_iff
    simp only [hv]
    grind

end Context

/-! ### Names in items -/

/-- A name stands in an item: in one of its types, or in the expression for a default. -/
def Item.Names (r : Ref) : Item → Prop
  | .record x => ∃ f ∈ x.fields, f.type.Names r ∨ ∃ e ∈ f.default, e.Names r
  | .sum s => ∃ v ∈ s.variants, v.type.Names r
  | .enumeration _ => False
  | .alias a => a.target.Names r ∨ ∃ e ∈ a.default, e.Names r

namespace Context

variable {x : Defaults} {ms : List Member} {vs : List (Option Value)} {v : Value} {t : TypeExpr}

/-- The fields of a record name what the types of the members and their defaults name. -/
theorem names_fields_iff (ctx : Context) (hlen : vs.length = ms.length) :
    (∃ f ∈ ms.zipIdx.map fun p => ctx.field p.1 ((⟨vs, none⟩ : Defaults).member? p.2),
        f.type.Names r ∨ ∃ e ∈ f.default, e.Names r) ↔
      (∃ m ∈ ms, (ctx.type m.type).Names r) ∨ ∃ v, some v ∈ vs ∧ (ctx.expr v).Names r := by
  constructor
  · rintro ⟨_, hf, h⟩
    obtain ⟨⟨m, i⟩, hm, rfl⟩ := List.mem_map.mp hf
    rcases h with h | ⟨e, he, h⟩
    · exact .inl ⟨m, List.fst_mem_of_mem_zipIdx hm, h⟩
    · obtain ⟨v, hv, rfl⟩ := Option.map_eq_some_iff.mp he
      exact .inr ⟨v, List.mem_of_getElem? (Option.join_eq_some_iff.mp hv), h⟩
  · rintro (⟨m, hm, h⟩ | ⟨v, hv, h⟩)
    · obtain ⟨i, hi⟩ := List.mem_iff_getElem?.mp hm
      have hp : (m, i) ∈ ms.zipIdx := List.mem_zipIdx_iff_getElem?.mpr hi
      exact ⟨_, List.mem_map_of_mem hp, .inl h⟩
    · obtain ⟨i, hi⟩ := List.mem_iff_getElem?.mp hv
      obtain ⟨m, hm⟩ := exists_getElem?_of_length_eq hlen.symm hi
      have hp : (m, i) ∈ ms.zipIdx := List.mem_zipIdx_iff_getElem?.mpr hm
      refine ⟨_, List.mem_map_of_mem hp, .inr ⟨_, ?_, h⟩⟩
      show Option.map _ ((⟨vs, none⟩ : Defaults).member? i) = some _
      rw [Defaults.member?, hi, Option.join_some, Option.map_some]

/-- An item names what the types and the defaults of its declaration name.  A label is written
without its type, which is `Void`. -/
theorem names_item_iff_parts (ctx : Context)
    (hlabels : ∀ ms, d.body = .enum ms → ∀ m ∈ ms, m.type = .mk (.primitive .void) [])
    (hx : DefaultsOf set id d d.body x) :
    (ctx.item d x).Names r ↔
      (∃ t ∈ d.types, (ctx.type t).Names r) ∨ ∃ v ∈ x.values, (ctx.expr v).Names r := by
  rw [item, Decl.types, Decl.members]
  generalize d.body = b at hx hlabels
  cases hx with
  | struct h =>
    refine (ctx.names_fields_iff h.length_eq.symm).trans ?_
    simp [Defaults.values]
  | union ms => simp [Item.Names, Defaults.values, variant]
  | enum ms =>
    have hvoid : ∀ m ∈ ms, ¬ (ctx.type m.type).Names r := by
      intro m hm
      rw [hlabels ms rfl m hm]
      exact Ty.not_names_named
    simpa [Item.Names, Defaults.values] using hvoid
  | newtype h => simp [Item.Names, Defaults.values]
  | newtype_none t => simp [Item.Names, Defaults.values, Defaults.empty]
  | «alias» t => simp [Item.Names, Defaults.values, Defaults.empty]

/-- The expression for a declared default names the declarations whose labels are in it. -/
theorem names_default_iff {b : Body} (hx : DefaultsOf set id d b x) (hv : v ∈ x.values) :
    ((⟨set, module⟩ : Context).expr v).Names r ↔
      ∃ id, v.HasLabel id ∧ (⟨set, module⟩ : Context).ref id = r := by
  rcases List.mem_append.mp hv with hv | hv
  · obtain ⟨v?, hmem, rfl⟩ := List.mem_filterMap.mp hv
    obtain ⟨i, hi⟩ := List.mem_iff_getElem?.mp hmem
    have hmember : x.member? i = some v := by rw [Defaults.member?, hi, Option.join_some]
    obtain ⟨_, _, _, _, _, _, hown⟩ := hx.exists_member hmember
    exact names_expr_iff hown.denotes
  · obtain ⟨t, l, w, -, rfl, hown⟩ := hx.exists_newtype (Option.mem_toList.mp hv)
    have hlabel : ∀ id', (Value.newtype id w).HasLabel id' ↔ w.HasLabel id' := by
      intro id'
      rw [Value.hasLabel_iff]
      simp [Value.label?, Value.parts]
    simp only [hlabel]
    exact names_expr_iff hown.denotes

/-- The item of a declaration names what the declaration and its defaults refer to. -/
theorem names_item_iff (hproper : set.Proper d)
    (hlabels : ∀ ms, d.body = .enum ms → ∀ m ∈ ms, m.type = .mk (.primitive .void) [])
    (hx : DefaultsOf set id d d.body x) :
    ((⟨set, module⟩ : Context).item d x).Names r ↔
      ∃ id, d.RefersTo x id ∧ (⟨set, module⟩ : Context).ref id = r := by
  have htypes : (∃ t ∈ d.types, ((⟨set, module⟩ : Context).type t).Names r) ↔ _ :=
    exists_congr fun t => and_congr_right fun ht => names_type_iff (hproper t ht).1
  have hvalues : (∃ v ∈ x.values, ((⟨set, module⟩ : Context).expr v).Names r) ↔ _ :=
    exists_congr fun v => and_congr_right fun hv => names_default_iff hx hv
  rw [names_item_iff_parts _ hlabels hx, htypes, hvalues]
  simp only [Decl.RefersTo]
  grind

end Context

end TypeScript

end Adl
