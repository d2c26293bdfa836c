import Adl.Proofs.Value.Renaming
import Adl.Target.TypeScriptUnit

/-!
# TypeScript renaming — generated TypeScript does not depend on places

The lines of a declaration with a new place are the same, and so are the modules that it refers to:
declarations are named, and a name is qualified by the module of the declaration.
-/

namespace Adl.TypeScript

variable {set set' : ModuleSet} (r : set.Renaming set') {module : String} {id : DeclId}
  {t : TypeExpr} {m : Member} {v : Value} {x : Defaults}

namespace Context

/-! ### Types and values -/

theorem types_eq_map (ctx : Context) (ts : List TypeExpr) : ctx.types ts = ts.map ctx.type := by
  induction ts with
  | nil => rfl
  | cons t ts ih => rw [types, ih, List.map_cons]

theorem exprs_eq_map (ctx : Context) (vs : List Value) : ctx.exprs vs = vs.map ctx.expr := by
  induction vs with
  | nil => rfl
  | cons v vs ih => rw [exprs, ih, List.map_cons]

theorem entryExprs_eq_map (ctx : Context) (entries : List (String × Value)) :
    ctx.entryExprs entries = entries.map fun e => (e.1, ctx.expr e.2) := by
  induction entries with
  | nil => rfl
  | cons e entries ih =>
    obtain ⟨key, v⟩ := e
    rw [entryExprs, ih, List.map_cons]

theorem ref_eq (hid : r.Kept id) :
    (⟨set', module⟩ : Context).ref (r.place id) = (⟨set, module⟩ : Context).ref id := by
  rw [ref, ref, r.decl_eq id hid]
  rfl

theorem type_eq (ht : t.Within r.Kept) :
    (⟨set', module⟩ : Context).type (t.rename r.place) = (⟨set, module⟩ : Context).type t := by
  induction ht with
  | @mk head args hhead _ ih =>
    have hargs : (⟨set', module⟩ : Context).types (args.map (TypeExpr.rename r.place)) =
        (⟨set, module⟩ : Context).types args := by
      rw [types_eq_map, types_eq_map, List.map_map]
      exact List.map_congr_left ih
    rw [TypeExpr.rename_mk]
    cases head with
    | primitive p => rw [TypeRef.rename, type, type, hargs]
    | typeParam name => rfl
    | decl id => rw [TypeRef.rename, type, type, hargs, ref_eq r (hhead id rfl)]

/-- The fields of a struct are built by the same expressions, if their values are. -/
theorem fieldExprs_eq {ms : List Member} {vs : List Value}
    (hvs : ∀ v ∈ vs, (⟨set', module⟩ : Context).expr (v.rename r.place) =
      (⟨set, module⟩ : Context).expr v) :
    (⟨set', module⟩ : Context).fieldExprs (ms.map (Member.rename r.place))
        (vs.map (Value.rename r.place)) =
      (⟨set, module⟩ : Context).fieldExprs ms vs := by
  induction ms generalizing vs with
  | nil => rw [List.map_nil, fieldExprs, fieldExprs]
  | cons m ms ih =>
    cases vs with
    | nil => rfl
    | cons v vs =>
      obtain ⟨hv, hvs⟩ := List.forall_mem_cons.mp hvs
      rw [List.map_cons, List.map_cons, fieldExprs, fieldExprs, hv, ih hvs]
      rfl

/-- A renamed value is built by the same expression. -/
theorem expr_eq (hv : v.Within r.Kept) :
    (⟨set', module⟩ : Context).expr (v.rename r.place) = (⟨set, module⟩ : Context).expr v := by
  induction hv with
  | vector _ ih =>
    rw [Value.rename_vector, expr, expr, exprs_eq_map, exprs_eq_map, List.map_map]
    exact congrArg Expr.array (List.map_congr_left ih)
  | stringMap _ ih =>
    rw [Value.rename_stringMap, expr, expr, entryExprs_eq_map, entryExprs_eq_map, List.map_map]
    exact congrArg Expr.map (List.map_congr_left fun e he => congrArg (e.1, ·) (ih e he))
  | present _ ih => rw [Value.rename, expr, expr, ih]
  | struct hid _ ih =>
    rw [Value.rename_struct, expr, expr, r.members_eq hid, fieldExprs_eq r ih]
  | union hid alternative _ ih =>
    rw [Value.rename, expr, expr, r.member_eq hid, Value.isVoid_rename, ih]
    rfl
  | enum hid label =>
    rw [Value.rename, expr, expr, r.member_eq hid, ref_eq r hid]
    rfl
  | newtype hid _ ih => rw [Value.rename, expr, expr, ih]
  | _ => rfl

theorem map_expr_eq {v? : Option Value} (hv : ∀ v, v? = some v → v.Within r.Kept) :
    (v?.map (Value.rename r.place)).map (⟨set', module⟩ : Context).expr =
      v?.map (⟨set, module⟩ : Context).expr := by
  cases v? with
  | none => rfl
  | some v => exact congrArg some (expr_eq r (hv v rfl))

/-! ### Items -/

theorem field_eq {v? : Option Value} (ht : m.type.Within r.Kept)
    (hv : ∀ v, v? = some v → v.Within r.Kept) :
    (⟨set', module⟩ : Context).field (m.rename r.place) (v?.map (Value.rename r.place)) =
      (⟨set, module⟩ : Context).field m v? := by
  rw [field, field, map_expr_eq r hv]
  exact congrArg (fun t => Field.mk _ _ t _) (type_eq r ht)

theorem variant_eq {d : Decl} (ht : m.type.Within r.Kept) :
    (⟨set', module⟩ : Context).variant (d.rename r.place) (m.rename r.place) =
      (⟨set, module⟩ : Context).variant d m := by
  have hhead : (m.rename r.place).type.head = .primitive .void ↔
      m.type.head = .primitive .void := by
    rw [Member.rename, TypeExpr.head_rename]
    exact TypeRef.rename_eq_primitive_iff
  unfold variant
  simp only [hhead, ne_eq]
  exact congrArg (fun t => Variant.mk _ _ _ t _) (type_eq r ht)

theorem fields_eq {ms : List Member} (hms : ∀ m ∈ ms, m.type.Within r.Kept)
    (hx : x.Within r.Kept) :
    ((ms.map (Member.rename r.place)).zipIdx.map fun p =>
        (⟨set', module⟩ : Context).field p.1 ((x.rename r.place).member? p.2)) =
      ms.zipIdx.map fun p => (⟨set, module⟩ : Context).field p.1 (x.member? p.2) := by
  rw [List.zipIdx_map, List.map_map]
  refine List.map_congr_left fun p hp => ?_
  have hm := hms p.1 (List.fst_mem_of_mem_zipIdx hp)
  show (⟨set', module⟩ : Context).field (p.1.rename r.place) ((x.rename r.place).member? p.2) = _
  rw [Defaults.member?_rename, field_eq r hm fun v hv => hx.member? hv]

theorem variants_eq {d : Decl} {ms : List Member} (hms : ∀ m ∈ ms, m.type.Within r.Kept) :
    (ms.map (Member.rename r.place)).map
        ((⟨set', module⟩ : Context).variant (d.rename r.place)) =
      ms.map ((⟨set, module⟩ : Context).variant d) := by
  rw [List.map_map]
  exact List.map_congr_left fun m hm => variant_eq r (hms m hm)

/-- The item of a declaration at a new place is the same. -/
theorem item_eq (hid : r.Kept id) (hx : x.Within r.Kept) :
    (⟨set', module⟩ : Context).item (set'.decl (r.place id)) (x.rename r.place) =
      (⟨set, module⟩ : Context).item (set.decl id) x := by
  have hmem : ∀ m ∈ (set.decl id).members, m.type.Within r.Kept :=
    fun m hm => r.within_of_mem_members hid hm
  have htypes : ∀ t ∈ (set.decl id).types, t.Within r.Kept := r.closed id hid
  rw [r.decl_eq id hid, item, item, Decl.rename]
  rw [Decl.members] at hmem
  rw [Decl.types] at htypes
  cases hb : (set.decl id).body with
  | struct ms =>
    rw [hb] at hmem
    exact congrArg (fun fields => Item.record ⟨_, _, _, fields⟩) (fields_eq r hmem hx)
  | union ms =>
    rw [hb] at hmem
    have hvariants : (ms.map (Member.rename r.place)).map
        ((⟨set', module⟩ : Context).variant ((set.decl id).rename r.place)) =
        ms.map ((⟨set, module⟩ : Context).variant (set.decl id)) := variants_eq r hmem
    rw [Decl.rename, hb] at hvariants
    exact congrArg (fun vs => Item.sum ⟨_, _, _, vs⟩) hvariants
  | enum ms =>
    have hlabels : (ms.map (Member.rename r.place)).map label = ms.map label := by
      rw [List.map_map]
      rfl
    exact congrArg (fun ls => Item.enumeration ⟨_, _, ls⟩) hlabels
  | «alias» t =>
    rw [hb] at htypes
    exact congrArg₂ (fun t d => Item.alias ⟨_, _, _, t, d⟩)
      (type_eq r (htypes t List.mem_cons_self)) (map_expr_eq r hx.newtype)
  | newtype t default =>
    rw [hb] at htypes
    exact congrArg₂ (fun t d => Item.alias ⟨_, _, _, t, d⟩)
      (type_eq r (htypes t List.mem_cons_self)) (map_expr_eq r hx.newtype)

/-- The lines of a declaration at a new place are the same. -/
theorem declLines_eq (hid : r.Kept id) (hx : x.Within r.Kept) :
    declLines ⟨set', module⟩ (set'.decl (r.place id)) (x.rename r.place) =
      declLines ⟨set, module⟩ (set.decl id) x := by
  rw [declLines, declLines, item_eq r hid hx, r.decl_eq id hid]
  rfl

end Context

/-! ### Imports -/

theorem typesModules_eq_flatMap (set : ModuleSet) (ts : List TypeExpr) :
    typesModules set ts = ts.flatMap (typeModules set) := by
  induction ts with
  | nil => rfl
  | cons t ts ih => rw [typesModules, ih, List.flatMap_cons]

theorem valuesModules_eq_flatMap (set : ModuleSet) (vs : List Value) :
    valuesModules set vs = vs.flatMap (valueModules set) := by
  induction vs with
  | nil => rfl
  | cons v vs ih => rw [valuesModules, ih, List.flatMap_cons]

theorem entriesModules_eq_flatMap (set : ModuleSet) (entries : List (String × Value)) :
    entriesModules set entries = entries.flatMap fun e => valueModules set e.2 := by
  induction entries with
  | nil => rfl
  | cons e entries ih =>
    obtain ⟨key, v⟩ := e
    rw [entriesModules, ih, List.flatMap_cons]

theorem typeModules_eq (ht : t.Within r.Kept) :
    typeModules set' (t.rename r.place) = typeModules set t := by
  induction ht with
  | @mk head args hhead _ ih =>
    have hargs : typesModules set' (args.map (TypeExpr.rename r.place)) =
        typesModules set args := by
      rw [typesModules_eq_flatMap, typesModules_eq_flatMap, List.flatMap_map]
      exact List.flatMap_congr ih
    rw [TypeExpr.rename_mk]
    cases head with
    | primitive p => rw [TypeRef.rename, typeModules, typeModules, hargs]
    | typeParam name => rw [TypeRef.rename, typeModules, typeModules, hargs]
    | decl id =>
      rw [TypeRef.rename, typeModules, typeModules, hargs, r.decl_eq id (hhead id rfl)]
      rfl

theorem valueModules_eq (hv : v.Within r.Kept) :
    valueModules set' (v.rename r.place) = valueModules set v := by
  induction hv with
  | vector _ ih =>
    rw [Value.rename_vector, valueModules, valueModules, valuesModules_eq_flatMap,
      valuesModules_eq_flatMap, List.flatMap_map]
    exact List.flatMap_congr ih
  | stringMap _ ih =>
    rw [Value.rename_stringMap, valueModules, valueModules, entriesModules_eq_flatMap,
      entriesModules_eq_flatMap, List.flatMap_map]
    exact List.flatMap_congr ih
  | present _ ih => rw [Value.rename, valueModules, valueModules, ih]
  | struct hid _ ih =>
    rw [Value.rename_struct, valueModules, valueModules, valuesModules_eq_flatMap,
      valuesModules_eq_flatMap, List.flatMap_map]
    exact List.flatMap_congr ih
  | union hid alternative _ ih => rw [Value.rename, valueModules, valueModules, ih]
  | enum hid label =>
    rw [Value.rename, valueModules, valueModules, r.decl_eq _ hid]
    rfl
  | newtype hid _ ih => rw [Value.rename, valueModules, valueModules, ih]
  | _ => rfl

/-- The modules that a declaration at a new place refers to are the same. -/
theorem declModules_eq (hid : r.Kept id) (hx : x.Within r.Kept) :
    declModules set' (set'.decl (r.place id)) (x.rename r.place) =
      declModules set (set.decl id) x := by
  rw [declModules, declModules, Defaults.values_rename, r.decl_eq id hid, Decl.types_rename,
    typesModules_eq_flatMap, typesModules_eq_flatMap, valuesModules_eq_flatMap,
    valuesModules_eq_flatMap, List.flatMap_map, List.flatMap_map]
  exact congrArg₂ (· ++ ·)
    (List.flatMap_congr fun t ht => typeModules_eq r (r.closed id hid t ht))
    (List.flatMap_congr fun v hv => valueModules_eq r (hx.values v hv))

end Adl.TypeScript
