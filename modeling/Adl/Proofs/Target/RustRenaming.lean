import Adl.Proofs.Target.Containment
import Adl.Proofs.Value.Renaming
import Adl.Target.RustUnit

/-!
# Rust renaming — generated Rust does not depend on places

The lines of a declaration with a new place are the same: they name declarations, and whether a
member is boxed depends on what is reachable from its type, which renamings respect.
-/

namespace Adl

/-! ### What holds what -/

variable {ρ : DeclId → DeclId} {K : DeclId → Prop}

theorem heldAll_rename {ts : List TypeExpr} (h : ∀ t ∈ ts, (t.rename ρ).held = t.held.map ρ) :
    heldAll (ts.map (TypeExpr.rename ρ)) = (heldAll ts).map ρ := by
  induction ts with
  | nil => rfl
  | cons t ts ih =>
    obtain ⟨ht, hts⟩ := List.forall_mem_cons.mp h
    rw [List.map_cons, heldAll, heldAll, ht, ih hts, List.map_append]

theorem TypeExpr.held_rename (t : TypeExpr) : (t.rename ρ).held = t.held.map ρ := by
  induction t with
  | mk head args ih =>
    have hall := heldAll_rename ih
    rw [rename_mk]
    cases head with
    | primitive p =>
      rw [TypeRef.rename]
      cases p <;> first | rfl | exact hall
    | typeParam name => exact hall
    | decl id => exact congrArg (ρ id :: ·) hall

theorem TypeExpr.Within.of_holdsInline {t : TypeExpr} {b : DeclId} (h : t.Within K)
    (hb : t.HoldsInline b) : K b := by
  induction hb with
  | head args =>
    obtain ⟨hhead, -⟩ := h
    exact hhead b rfl
  | arg _ ht _ ih =>
    obtain ⟨-, hargs⟩ := h
    exact ih (hargs _ ht)

namespace ModuleSet.Renaming

open Relation (ReflTransGen)

variable {set set' : ModuleSet} (r : set.Renaming set') {a b c id : DeclId} {t : TypeExpr}

theorem edge_iff (ha : r.Kept a) :
    (Containment.ofSet set').Edge (r.place a) c ↔
      ∃ b, r.Kept b ∧ r.place b = c ∧ (Containment.ofSet set).Edge a b := by
  have hmap : heldAll ((set.decl a).types.map (TypeExpr.rename r.place)) =
      (heldAll (set.decl a).types).map r.place :=
    heldAll_rename fun t _ => TypeExpr.held_rename t
  rw [Containment.ofSet_edge_iff, r.decl_eq a ha, Decl.types_rename, hmap, List.mem_map]
  refine exists_congr fun b => ?_
  rw [Containment.ofSet_edge_iff]
  constructor
  · rintro ⟨hb, heq⟩
    obtain ⟨t, ht, hbt⟩ := Containment.mem_heldAll_iff.mp hb
    exact ⟨(r.closed a ha t ht).of_holdsInline (TypeExpr.mem_held_iff.mp hbt), heq, hb⟩
  · rintro ⟨-, heq, hb⟩
    exact ⟨hb, heq⟩

/-- A path in `set` is a path between the new places. -/
theorem path_place (ha : r.Kept a) (h : ReflTransGen (Containment.ofSet set).Edge a b) :
    ReflTransGen (Containment.ofSet set').Edge (r.place a) (r.place b) ∧ r.Kept b := by
  induction h with
  | refl => exact ⟨.refl, ha⟩
  | @tail b c _ hbc ih =>
    obtain ⟨hpath, hb⟩ := ih
    obtain ⟨t, ht, hct⟩ : set.HoldsInline b c := by rwa [← Containment.ofSet_edge_eq]
    have hc := (r.closed b hb t ht).of_holdsInline hct
    exact ⟨hpath.tail ((r.edge_iff hb).mpr ⟨c, hc, rfl, hbc⟩), hc⟩

/-- A path in `set'` from a new place leads to a new place, and is one in `set`. -/
theorem path_of_place (ha : r.Kept a)
    (h : ReflTransGen (Containment.ofSet set').Edge (r.place a) c) :
    ∃ b, r.Kept b ∧ r.place b = c ∧ ReflTransGen (Containment.ofSet set).Edge a b := by
  induction h with
  | refl => exact ⟨a, ha, rfl, .refl⟩
  | tail _ hcd ih =>
    obtain ⟨b, hb, rfl, hpath⟩ := ih
    obtain ⟨d, hd, rfl, hbd⟩ := (r.edge_iff hb).mp hcd
    exact ⟨d, hd, rfl, hpath.tail hbd⟩

theorem reaches_eq (ha : r.Kept a) (hb : r.Kept b) :
    (Containment.ofSet set').reaches (r.place a) (r.place b) =
      (Containment.ofSet set).reaches a b := by
  rw [Bool.eq_iff_iff, Containment.reaches_eq_true_iff, Containment.reaches_eq_true_iff]
  constructor
  · intro h
    obtain ⟨b', hb', heq, hpath⟩ := r.path_of_place ha h
    rwa [r.injective b' b hb' hb heq] at hpath
  · exact fun h => (r.path_place ha h).1

/-- A member needs a box at a new place if it needs one. -/
theorem needsBox_eq (ht : t.Within r.Kept) (hid : r.Kept id) :
    (Containment.ofSet set').needsBox (t.rename r.place) (r.place id) =
      (Containment.ofSet set).needsBox t id := by
  rw [Containment.needsBox, Containment.needsBox, TypeExpr.held_rename, List.any_map,
    Bool.eq_iff_iff, List.any_eq_true, List.any_eq_true]
  refine exists_congr fun b => and_congr_right fun hb => ?_
  rw [Function.comp, r.reaches_eq (ht.of_holdsInline (TypeExpr.mem_held_iff.mp hb)) hid]

end ModuleSet.Renaming

/-! ### Types and values -/

namespace Rust.Context

open Target (Options)

theorem anyMentions_map {p : String} {f : TypeExpr → TypeExpr} {ts : List TypeExpr}
    (h : ∀ t ∈ ts, mentions p (f t) = mentions p t) :
    anyMentions p (ts.map f) = anyMentions p ts := by
  induction ts with
  | nil => rfl
  | cons t ts ih =>
    obtain ⟨ht, hts⟩ := List.forall_mem_cons.mp h
    rw [List.map_cons, anyMentions, anyMentions, ht, ih hts]

theorem mentions_rename {p : String} (t : TypeExpr) :
    mentions p (t.rename ρ) = mentions p t := by
  induction t with
  | mk head args ih =>
    have hargs := anyMentions_map ih
    rw [TypeExpr.rename_mk]
    cases head with
    | primitive p => exact hargs
    | typeParam name => exact congrArg (name == p || ·) hargs
    | decl id => exact hargs

theorem unused_rename (d : Decl) : unused (d.rename ρ) = unused d := by
  rw [unused, unused, Decl.types_rename]
  refine List.filter_congr fun p _ => ?_
  rw [anyMentions_map fun t _ => mentions_rename t]

theorem marked_rename (d : Decl) : marked (d.rename ρ) = marked d := by
  rw [marked, marked, unused_rename]

theorem types_eq_map (ctx : Context) (ts : List TypeExpr) : ctx.types ts = ts.map ctx.type := by
  induction ts with
  | nil => rfl
  | cons t ts ih => rw [types, ih, List.map_cons]

theorem exprs_eq_map (ctx : Context) (vs : List Value) : ctx.exprs vs = vs.map ctx.expr := by
  induction vs with
  | nil => rfl
  | cons v vs ih => rw [exprs, ih, List.map_cons]

theorem entryExprs_eq_map (ctx : Context) (entries : List (String × Value)) :
    ctx.entryExprs entries = entries.map fun e => (e.1, ctx.expr e.2) := by
  induction entries with
  | nil => rfl
  | cons e entries ih =>
    obtain ⟨key, v⟩ := e
    rw [entryExprs, ih, List.map_cons]

section Renaming

variable {set set' : ModuleSet} (r : set.Renaming set') {module : String} {options : Options}
  {id : DeclId} {t : TypeExpr} {m : Member} {v : Value}

theorem typePath_eq (hid : r.Kept id) :
    (ofOptions set' module options).typePath (r.place id) =
      (ofOptions set module options).typePath id := by
  unfold typePath
  show (if (set'.decl (r.place id)).module = module then _ else _) = _
  rw [ofOptions, r.decl_eq id hid]
  rfl

theorem type_eq (ht : t.Within r.Kept) :
    (ofOptions set' module options).type (t.rename r.place) =
      (ofOptions set module options).type t := by
  induction ht with
  | @mk head args hhead _ ih =>
    have hargs : (ofOptions set' module options).types (args.map (TypeExpr.rename r.place)) =
        (ofOptions set module options).types args := by
      rw [types_eq_map, types_eq_map, List.map_map]
      exact List.map_congr_left ih
    rw [TypeExpr.rename_mk]
    cases head with
    | primitive p =>
      rw [TypeRef.rename, type, type, hargs]
      rfl
    | typeParam name => rfl
    | decl id => rw [TypeRef.rename, type, type, hargs, typePath_eq r (hhead id rfl)]

theorem memberType_eq (hid : r.Kept id) (ht : m.type.Within r.Kept) :
    (ofOptions set' module options).memberType (r.place id) (m.rename r.place) =
      (ofOptions set module options).memberType id m := by
  have hbox := r.needsBox_eq ht hid
  have htype : (ofOptions set' module options).type (m.type.rename r.place) =
      (ofOptions set module options).type m.type := type_eq r ht
  unfold memberType
  rw [show (m.rename r.place).type = m.type.rename r.place from rfl, htype]
  show (if (Containment.ofSet set').needsBox _ _ then _ else _) = _
  rw [hbox]
  rfl

theorem memberExpr_eq (hid : r.Kept id) (ht : m.type.Within r.Kept) (e : Expr) :
    (ofOptions set' module options).memberExpr (r.place id) (m.rename r.place) e =
      (ofOptions set module options).memberExpr id m e := by
  have hbox := r.needsBox_eq ht hid
  unfold memberExpr
  show (if (Containment.ofSet set').needsBox (m.type.rename r.place) _ then _ else _) = _
  rw [hbox]
  rfl

/-- The fields of a struct are built by the same expressions, if their values are. -/
theorem fieldExprs_eq {ms : List Member} {vs : List Value} (hid : r.Kept id)
    (hms : ∀ m ∈ ms, m.type.Within r.Kept)
    (hvs : ∀ v ∈ vs, (ofOptions set' module options).expr (v.rename r.place) =
      (ofOptions set module options).expr v) :
    (ofOptions set' module options).fieldExprs (r.place id) (ms.map (Member.rename r.place))
        (vs.map (Value.rename r.place)) =
      (ofOptions set module options).fieldExprs id ms vs := by
  induction ms generalizing vs with
  | nil => rw [List.map_nil, fieldExprs, fieldExprs]
  | cons m ms ih =>
    cases vs with
    | nil => rfl
    | cons v vs =>
      obtain ⟨hm, hms⟩ := List.forall_mem_cons.mp hms
      obtain ⟨hv, hvs⟩ := List.forall_mem_cons.mp hvs
      rw [List.map_cons, List.map_cons, fieldExprs, fieldExprs, hv, memberExpr_eq r hid hm,
        ih hms hvs]
      rfl

/-- A renamed value is built by the same expression. -/
theorem expr_eq (hv : v.Within r.Kept) :
    (ofOptions set' module options).expr (v.rename r.place) =
      (ofOptions set module options).expr v := by
  induction hv with
  | vector _ ih =>
    rw [Value.rename_vector, expr, expr, exprs_eq_map, exprs_eq_map, List.map_map]
    exact congrArg Expr.vector (List.map_congr_left ih)
  | stringMap _ ih =>
    rw [Value.rename_stringMap, expr, expr, entryExprs_eq_map, entryExprs_eq_map, List.map_map]
    exact congrArg Expr.map (List.map_congr_left fun e he => congrArg (e.1, ·) (ih e he))
  | present _ ih => rw [Value.rename, expr, expr, ih]
  | @struct id fields hid _ ih =>
    have hfields := fieldExprs_eq r hid (fun m hm => r.within_of_mem_members hid hm) ih
    rw [Value.rename_struct, expr, expr]
    show Expr.record _ ((ofOptions set' module options).fieldExprs _
      (set'.decl (r.place id)).members _) (marked (set'.decl (r.place id))) = _
    rw [r.members_eq hid, hfields, r.decl_eq id hid, marked_rename, typePath_eq r hid]
    rfl
  | @union id v hid alternative _ ih =>
    rw [Value.rename, expr, expr]
    show (if _ then Expr.label _ (typeIdent ((set'.decl (r.place id)).member alternative).name)
      else Expr.variant _ (typeIdent ((set'.decl (r.place id)).member alternative).name)
        ((ofOptions set' module options).memberExpr _
          ((set'.decl (r.place id)).member alternative) _)) = _
    rw [r.member_eq hid, Value.isVoid_rename, typePath_eq r hid, ih,
      memberExpr_eq r hid (r.within_member hid alternative)]
    rfl
  | @enum id hid label =>
    rw [Value.rename, expr, expr]
    show Expr.label _ (typeIdent ((set'.decl (r.place id)).member label).name) = _
    rw [r.member_eq hid, typePath_eq r hid]
    rfl
  | @newtype id v hid _ ih =>
    rw [Value.rename, expr, expr, ih]
    show Expr.wrapped _ _ (marked (set'.decl (r.place id))) = _
    rw [r.decl_eq id hid, marked_rename, typePath_eq r hid]
    rfl
  | _ => rfl

theorem map_expr_eq {v? : Option Value} (hv : ∀ v, v? = some v → v.Within r.Kept) :
    (v?.map (Value.rename r.place)).map (ofOptions set' module options).expr =
      v?.map (ofOptions set module options).expr := by
  cases v? with
  | none => rfl
  | some v => exact congrArg some (expr_eq r (hv v rfl))

/-! ### Items -/

theorem field_eq {v? : Option Value} (hid : r.Kept id) (ht : m.type.Within r.Kept)
    (hv : ∀ v, v? = some v → v.Within r.Kept) :
    (ofOptions set' module options).field (r.place id) (m.rename r.place)
        (v?.map (Value.rename r.place)) =
      (ofOptions set module options).field id m v? := by
  unfold field
  rw [memberType_eq r hid ht]
  cases v? with
  | none => rfl
  | some v =>
    simp only [Option.map_some, expr_eq r (hv v rfl), memberExpr_eq r hid ht]
    rfl

theorem variant_eq (hid : r.Kept id) (ht : m.type.Within r.Kept) :
    (ofOptions set' module options).variant (r.place id) (m.rename r.place) =
      (ofOptions set module options).variant id m := by
  unfold variant
  have hhead : (m.rename r.place).type.head = .primitive .void ↔
      m.type.head = .primitive .void := by
    rw [Member.rename, TypeExpr.head_rename]
    exact TypeRef.rename_eq_primitive_iff
  simp only [memberType_eq r hid ht, hhead]
  rfl

variable {x : Defaults}

theorem fields_eq {ms : List Member} (hid : r.Kept id) (hms : ∀ m ∈ ms, m.type.Within r.Kept)
    (hx : x.Within r.Kept) :
    ((ms.map (Member.rename r.place)).zipIdx.map fun p =>
        (ofOptions set' module options).field (r.place id) p.1 ((x.rename r.place).member? p.2)) =
      ms.zipIdx.map fun p => (ofOptions set module options).field id p.1 (x.member? p.2) := by
  rw [List.zipIdx_map, List.map_map]
  refine List.map_congr_left fun p hp => ?_
  have hm := hms p.1 (List.fst_mem_of_mem_zipIdx hp)
  show (ofOptions set' module options).field (r.place id) (p.1.rename r.place)
    ((x.rename r.place).member? p.2) = _
  rw [Defaults.member?_rename, field_eq r hid hm fun v hv => hx.member? hv]

theorem variants_eq {ms : List Member} (hid : r.Kept id)
    (hms : ∀ m ∈ ms, m.type.Within r.Kept) :
    (ms.map (Member.rename r.place)).map ((ofOptions set' module options).variant (r.place id)) =
      ms.map ((ofOptions set module options).variant id) := by
  rw [List.map_map]
  exact List.map_congr_left fun m hm => variant_eq r hid (hms m hm)

/-- The item of a declaration at a new place is the same. -/
theorem item_eq (hid : r.Kept id) (hx : x.Within r.Kept) :
    (ofOptions set' module options).item (set'.decl (r.place id)) (x.rename r.place) =
      (ofOptions set module options).item (set.decl id) x := by
  have hmem : ∀ m ∈ (set.decl id).members, m.type.Within r.Kept :=
    fun m hm => r.within_of_mem_members hid hm
  have htypes : ∀ t ∈ (set.decl id).types, t.Within r.Kept := r.closed id hid
  have hplace : ((set.decl id).rename r.place).id = r.place id := congrArg r.place (r.id_eq id hid)
  have hunused := unused_rename (ρ := r.place) (set.decl id)
  rw [r.decl_eq id hid]
  unfold item
  rw [hplace, hunused, r.id_eq id hid]
  rw [Decl.members] at hmem
  rw [Decl.types] at htypes
  rw [Decl.rename]
  cases hb : (set.decl id).body with
  | struct ms =>
    rw [hb] at hmem
    exact congrArg (fun fields => Item.record ⟨_, _, _, fields, _⟩) (fields_eq r hid hmem hx)
  | union ms =>
    rw [hb] at hmem
    exact congrArg (fun vs => Item.sum ⟨_, _, _, false, vs, _⟩) (variants_eq r hid hmem)
  | enum ms =>
    rw [hb] at hmem
    exact congrArg (fun vs => Item.sum ⟨_, _, _, true, vs, _⟩) (variants_eq r hid hmem)
  | «alias» t =>
    rw [hb] at htypes
    exact congrArg (fun t => Item.alias ⟨_, _, _, t⟩) (type_eq r (htypes t List.mem_cons_self))
  | newtype t default =>
    rw [hb] at htypes
    exact congrArg₂ (fun t d => Item.newtype ⟨_, _, _, t, _, d⟩)
      (type_eq r (htypes t List.mem_cons_self)) (map_expr_eq r hx.newtype)

/-- The lines of a declaration at a new place are the same. -/
theorem declLines_eq (hid : r.Kept id) (hx : x.Within r.Kept) :
    declLines (ofOptions set' module options) (set'.decl (r.place id)) (x.rename r.place) =
      declLines (ofOptions set module options) (set.decl id) x := by
  rw [declLines, declLines, item_eq r hid hx, r.decl_eq id hid]
  rfl

end Renaming

end Rust.Context

end Adl
