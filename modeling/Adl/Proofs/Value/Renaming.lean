import Adl.Proofs.Types.Renaming
import Adl.Proofs.Value.Declared

/-!
# Renaming values — literals denote the same where declarations have other places

A value knows the places of the declarations of its parts, so a value of the renamed type is a
renamed value (`Renaming.denotes`).  Its canonical literal is the same, because it consists of names
only.  The declared defaults of a declaration with a new place are the renamed ones.
-/

namespace Adl

namespace Value

/-! ### Values -/

mutual

/-- A value with other places for the declarations of its parts. -/
def rename (ρ : DeclId → DeclId) : Value → Value
  | vector items => vector (renameAll ρ items)
  | stringMap entries => stringMap (renameEntries ρ entries)
  | present v => present (rename ρ v)
  | struct id fields => struct (ρ id) (renameAll ρ fields)
  | union id alternative v => union (ρ id) alternative (rename ρ v)
  | enum id label => enum (ρ id) label
  | newtype id v => newtype (ρ id) (rename ρ v)
  | v => v

/-- The same for a list of values. -/
def renameAll (ρ : DeclId → DeclId) : List Value → List Value
  | [] => []
  | v :: vs => rename ρ v :: renameAll ρ vs

/-- The same for the values of a map. -/
def renameEntries (ρ : DeclId → DeclId) : List (String × Value) → List (String × Value)
  | [] => []
  | (key, v) :: entries => (key, rename ρ v) :: renameEntries ρ entries

end

/-- All declarations in a value are among the given ones. -/
inductive Within (K : DeclId → Prop) : Value → Prop
  | void : Within K .void
  | bool (b : Bool) : Within K (.bool b)
  | int (i : Int) : Within K (.int i)
  | word (n : Nat) : Within K (.word n)
  | float (d : Double) : Within K (.float d)
  | string (s : String) : Within K (.string s)
  | bytes (b : List UInt8) : Within K (.bytes b)
  | json (l : Literal) : Within K (.json l)
  | vector {items : List Value} (h : ∀ v ∈ items, Within K v) : Within K (.vector items)
  | stringMap {entries : List (String × Value)} (h : ∀ e ∈ entries, Within K e.2) :
      Within K (.stringMap entries)
  | absent : Within K .absent
  | present {v : Value} (h : Within K v) : Within K (.present v)
  | struct {id : DeclId} {fields : List Value} (hid : K id) (h : ∀ v ∈ fields, Within K v) :
      Within K (.struct id fields)
  | union {id : DeclId} {v : Value} (hid : K id) (alternative : Nat) (h : Within K v) :
      Within K (.union id alternative v)
  | enum {id : DeclId} (hid : K id) (label : Nat) : Within K (.enum id label)
  | newtype {id : DeclId} {v : Value} (hid : K id) (h : Within K v) : Within K (.newtype id v)

variable {ρ : DeclId → DeclId} {K : DeclId → Prop} {v : Value}

theorem renameAll_eq_map (vs : List Value) : renameAll ρ vs = vs.map (rename ρ) := by
  induction vs with
  | nil => rfl
  | cons v vs ih => rw [renameAll, ih, List.map_cons]

theorem renameEntries_eq_map (entries : List (String × Value)) :
    renameEntries ρ entries = entries.map fun e => (e.1, e.2.rename ρ) := by
  induction entries with
  | nil => rfl
  | cons e entries ih =>
    obtain ⟨key, v⟩ := e
    rw [renameEntries, ih, List.map_cons]

theorem rename_vector (items : List Value) :
    (vector items).rename ρ = .vector (items.map (rename ρ)) := by
  rw [rename, renameAll_eq_map]

theorem rename_stringMap (entries : List (String × Value)) :
    (stringMap entries).rename ρ = .stringMap (entries.map fun e => (e.1, e.2.rename ρ)) := by
  rw [rename, renameEntries_eq_map]

theorem rename_struct (id : DeclId) (fields : List Value) :
    (struct id fields).rename ρ = .struct (ρ id) (fields.map (rename ρ)) := by
  rw [rename, renameAll_eq_map]

@[simp] theorem isVoid_rename : (v.rename ρ).isVoid = v.isVoid := by
  cases v <;> rfl

theorem key_rename : (v.rename ρ).key = v.key.rename ρ := by
  cases v with
  | struct id fields => cases fields <;> rfl
  | _ => rfl

theorem Within.key (h : v.Within K) : v.key.Within K := by
  cases h with
  | @struct id fields hid h =>
    cases fields with
    | nil => exact .struct hid h
    | cons first rest => exact h first List.mem_cons_self
  | vector h => exact .vector h
  | stringMap h => exact .stringMap h
  | present h => exact .present h
  | union hid alternative h => exact .union hid alternative h
  | enum hid label => exact .enum hid label
  | newtype hid h => exact .newtype hid h
  | _ => constructor

end Value

namespace ModuleSet.Renaming

variable {set set' : ModuleSet} (r : set.Renaming set') {v : Value} {t : TypeExpr} {l : Literal}
  {n : Nat}

theorem memberName_eq {id : DeclId} (h : r.Kept id) (index : Nat) :
    Value.memberName set' (r.place id) index = Value.memberName set id index := by
  rw [Value.memberName, Value.memberName, r.members_eq h, List.getElem?_map, Option.map_map]
  rfl

/-- A renamed value has the same canonical literal. -/
theorem toLiteral_eq (h : v.Within r.Kept) :
    (v.rename r.place).toLiteral set' = v.toLiteral set := by
  induction h with
  | vector _ ih =>
    rw [Value.rename_vector, Value.toLiteral, Value.toLiteral, Value.toLiterals_eq_map,
      Value.toLiterals_eq_map, List.map_map]
    exact congrArg Literal.array (List.map_congr_left ih)
  | stringMap _ ih =>
    rw [Value.rename_stringMap, Value.toLiteral, Value.toLiteral, Value.toEntries_eq_map,
      Value.toEntries_eq_map, List.map_map]
    exact congrArg Literal.object (List.map_congr_left fun e he => congrArg (e.1, ·) (ih e he))
  | present _ ih => simpa only [Value.rename, Value.toLiteral] using ih
  | @struct id fields hid _ ih =>
    have hnames : (set'.decl (r.place id)).members.map Member.serializedName =
        (set.decl id).members.map Member.serializedName := by
      rw [r.members_eq hid, List.map_map]
      rfl
    have hfields : (fields.map (Value.rename r.place)).map (Value.toLiteral set') =
        fields.map (Value.toLiteral set) := by
      rw [List.map_map]
      exact List.map_congr_left ih
    rw [Value.rename_struct, Value.toLiteral, Value.toLiteral, Value.toLiterals_eq_map,
      Value.toLiterals_eq_map, hnames, hfields]
  | union hid alternative _ ih =>
    rw [Value.rename, Value.toLiteral, Value.toLiteral, Value.isVoid_rename, ih,
      r.memberName_eq hid]
  | enum hid label => rw [Value.rename, Value.toLiteral, Value.toLiteral, r.memberName_eq hid]
  | newtype _ _ ih => simpa only [Value.rename, Value.toLiteral] using ih
  | _ => rfl

/-! ### What literals denote -/

theorem nothingRepeated {name : ScopedName} {inner : Value} (hw : inner.Within r.Kept)
    (h : NothingRepeated set name inner) :
    NothingRepeated set' name (inner.rename r.place) := by
  intro items' heq
  cases hw with
  | @vector items hitems =>
    rw [Value.rename_vector] at heq
    cases heq
    obtain ⟨hset, hmap⟩ := h items rfl
    simp only [List.pairwise_map]
    constructor
    · intro hn
      refine (hset hn).imp_of_mem fun hv hw h => ?_
      rwa [r.toLiteral_eq (hitems _ hv), r.toLiteral_eq (hitems _ hw)]
    · intro hn
      refine (hmap hn).imp_of_mem fun hv hw h => ?_
      rwa [Value.key_rename, Value.key_rename, r.toLiteral_eq (hitems _ hv).key,
        r.toLiteral_eq (hitems _ hw).key]
  | _ => cases heq

theorem denotesScalar {p : Primitive} (h : DenotesScalar p l v) :
    v.rename r.place = v ∧ v.Within r.Kept := by
  cases h <;> exact ⟨rfl, by constructor⟩

theorem fieldSource {entries : List (String × Literal)} {m : Member} {s : Nat × Literal}
    (h : FieldSource entries n m s) : FieldSource entries n (m.rename r.place) s := by
  cases h with
  | given h => exact .given h
  | declared h hd => exact .declared h hd

/-- What a struct literal denotes is renamed with the type, if this holds of what its fields are
read from. -/
theorem denotes_struct {id : DeclId} {args types : List TypeExpr} {ms : List Member}
    {entries : List (String × Literal)} {sources : List (Nat × Literal)} {vs : List Value}
    (ht : t.Within r.Kept) (hexp : set.Expands t (.mk (.decl id) args))
    (hbody : (set.decl id).body = .struct ms) (htypes : set.BodyAt id args (.fields types))
    (hkeys : (entries.map Prod.fst).Nodup)
    (hknown : ∀ key ∈ entries.map Prod.fst, key ∈ ms.map Member.serializedName)
    (hsources : List.Forall₂ (FieldSource entries n) ms sources) (hlen : vs.length = ms.length)
    (ih : ∀ s type v, (s, type, v) ∈ sources.zip (types.zip vs) → type.Within r.Kept →
      Denotes set' s.1 s.2 (v.rename r.place) (type.rename r.place) ∧ v.Within r.Kept) :
    Denotes set' n (.object entries) ((Value.struct id vs).rename r.place) (t.rename r.place) ∧
      (Value.struct id vs).Within r.Kept := by
  obtain ⟨hexp', hw⟩ := r.expands_mk ht hexp
  have hk := hw.decl
  have hwtypes := (r.within_of_bodyAt hk hw.args htypes).1 types rfl
  have hbody' : (set'.decl (r.place id)).body = .struct (ms.map (Member.rename r.place)) := by
    rw [r.body_eq hk, hbody]
    rfl
  have hnames : (ms.map (Member.rename r.place)).map Member.serializedName =
      ms.map Member.serializedName := by
    rw [List.map_map]
    rfl
  have hsources' : List.Forall₂ (FieldSource entries n) (ms.map (Member.rename r.place)) sources :=
    List.forall₂_map_left_iff.mpr (hsources.imp fun _ _ hs => r.fieldSource hs)
  rw [Value.rename_struct]
  refine ⟨.struct hexp' hbody' (r.bodyAt hk htypes) hkeys ?_ hsources' ?_ ?_, .struct hk ?_⟩
  · rwa [hnames]
  · rw [List.length_map, List.length_map, hlen]
  · intro s type v hmem
    rw [List.zip_map, List.zip_map_right, List.mem_map] at hmem
    obtain ⟨⟨s', type', v'⟩, hmem, heq⟩ := hmem
    cases heq
    exact (ih s' type' v' hmem (hwtypes type' (List.of_mem_zip (List.of_mem_zip hmem).2).1)).1
  · intro v hv
    obtain ⟨i, hi⟩ := List.mem_iff_getElem?.mp hv
    obtain ⟨_, s, type, -, -, htype, hmem⟩ := exists_fieldSource hbody htypes hsources hlen hi
    exact (ih s type v hmem (hwtypes type (List.mem_of_getElem? htype))).2

/-- What a literal denotes at a type is renamed with the type. -/
theorem denotes (ht : t.Within r.Kept) (h : Denotes set n l v t) :
    Denotes set' n l (v.rename r.place) (t.rename r.place) ∧ v.Within r.Kept := by
  induction h with
  | scalar hexp h =>
    obtain ⟨hexp', -⟩ := r.expands_mk ht hexp
    obtain ⟨hv, hw⟩ := r.denotesScalar h
    rw [hv]
    exact ⟨.scalar hexp' h, hw⟩
  | vector hexp hlen _ ih =>
    obtain ⟨hexp', hw⟩ := r.expands_mk ht hexp
    have helem := hw.args _ List.mem_cons_self
    rw [Value.rename_vector]
    refine ⟨.vector hexp' (by rw [hlen, List.length_map]) ?_, .vector fun v hv => ?_⟩
    · intro l v hmem
      rw [List.zip_map_right, List.mem_map] at hmem
      obtain ⟨⟨l', v'⟩, hmem, heq⟩ := hmem
      cases heq
      exact (ih l' v' hmem helem).1
    · obtain ⟨l, hmem⟩ := exists_mem_zip hlen hv
      exact (ih l v hmem helem).2
  | stringMap hexp hkeys heq _ ih =>
    obtain ⟨hexp', hw⟩ := r.expands_mk ht hexp
    have helem := hw.args _ List.mem_cons_self
    rw [Value.rename_stringMap]
    refine ⟨.stringMap hexp' hkeys ?_ ?_, .stringMap fun e he => ?_⟩
    · rw [heq, List.map_map]
      rfl
    · intro e w hmem
      rw [List.zip_map_right, List.mem_map] at hmem
      obtain ⟨⟨e', w'⟩, hmem, heq⟩ := hmem
      cases heq
      exact (ih e' w' hmem helem).1
    · obtain ⟨e', hmem⟩ := exists_mem_zip (by simpa using congrArg List.length heq) he
      exact (ih e' e hmem helem).2
  | absent hexp =>
    obtain ⟨hexp', -⟩ := r.expands_mk ht hexp
    exact ⟨.absent hexp', .absent⟩
  | present hexp hl _ ih =>
    obtain ⟨hexp', hw⟩ := r.expands_mk ht hexp
    obtain ⟨hv, hvw⟩ := ih (hw.args _ List.mem_cons_self)
    exact ⟨.present hexp' hl hv, .present hvw⟩
  | struct hexp hbody htypes hkeys hknown hsources hlen _ ih =>
    exact r.denotes_struct ht hexp hbody htypes hkeys hknown hsources hlen ih
  | @union n l payload v t type id args types ms index m hexp hbody hm hl htypes htype _ ih =>
    obtain ⟨hexp', hw⟩ := r.expands_mk ht hexp
    have hk := hw.decl
    have hbody' : (set'.decl (r.place id)).body = .union (ms.map (Member.rename r.place)) := by
      rw [r.body_eq hk, hbody]
      rfl
    have hm' : (ms.map (Member.rename r.place))[index]? = some (m.rename r.place) := by
      rw [List.getElem?_map, hm, Option.map_some]
    have hwtypes := (r.within_of_bodyAt hk hw.args htypes).1 types rfl
    obtain ⟨hv, hvw⟩ := ih (hwtypes type (List.mem_of_getElem? htype))
    refine ⟨.union hexp' hbody' hm' hl (r.bodyAt hk htypes) ?_ hv, .union hk index hvw⟩
    rw [List.getElem?_map, htype, Option.map_some]
  | @enum n l t id args ms index m hexp hbody hm hl =>
    obtain ⟨hexp', hw⟩ := r.expands_mk ht hexp
    have hk := hw.decl
    have hbody' : (set'.decl (r.place id)).body = .enum (ms.map (Member.rename r.place)) := by
      rw [r.body_eq hk, hbody]
      rfl
    have hm' : (ms.map (Member.rename r.place))[index]? = some (m.rename r.place) := by
      rw [List.getElem?_map, hm, Option.map_some]
    exact ⟨.enum hexp' hbody' hm' hl, .enum hk index⟩
  | @newtype n l v t target type id args default hexp hbody htarget _ hu ih =>
    obtain ⟨hexp', hw⟩ := r.expands_mk ht hexp
    have hk := hw.decl
    have hbody' : (set'.decl (r.place id)).body = .newtype (target.rename r.place) default := by
      rw [r.body_eq hk, hbody]
      rfl
    obtain ⟨hv, hvw⟩ := ih ((r.within_of_bodyAt hk hw.args htarget).2 type rfl)
    refine ⟨.newtype hexp' hbody' (r.bodyAt hk htarget) hv ?_, .newtype hk hvw⟩
    rw [r.scopedName_eq hk]
    exact r.nothingRepeated hvw hu

end ModuleSet.Renaming

/-! ### Declared defaults -/

namespace Defaults

/-- Defaults with other places for the declarations in them. -/
def rename (ρ : DeclId → DeclId) (x : Defaults) : Defaults :=
  ⟨x.fields.map (Option.map (Value.rename ρ)), x.newtype.map (Value.rename ρ)⟩

/-- All declarations in defaults are among the given ones. -/
structure Within (K : DeclId → Prop) (x : Defaults) : Prop where
  fields : ∀ v, some v ∈ x.fields → v.Within K
  newtype : ∀ v, x.newtype = some v → v.Within K

theorem member?_rename (ρ : DeclId → DeclId) (x : Defaults) (index : Nat) :
    (x.rename ρ).member? index = (x.member? index).map (Value.rename ρ) := by
  rw [member?, member?, rename, List.getElem?_map]
  cases x.fields[index]? <;> rfl

theorem Within.member? {K : DeclId → Prop} {x : Defaults} (h : x.Within K) {index : Nat}
    {v : Value} (hv : x.member? index = some v) : v.Within K :=
  h.fields v (List.mem_of_getElem? (Option.join_eq_some_iff.mp hv))

theorem values_rename (ρ : DeclId → DeclId) (x : Defaults) :
    (x.rename ρ).values = x.values.map (Value.rename ρ) := by
  rw [values, values, rename, List.filterMap_map, List.map_append, List.map_filterMap]
  cases x.newtype <;> rfl

theorem Within.values {K : DeclId → Prop} {x : Defaults} (h : x.Within K) :
    ∀ v ∈ x.values, v.Within K := by
  intro v hv
  rcases List.mem_append.mp hv with hv | hv
  · obtain ⟨v?, hmem, heq⟩ := List.mem_filterMap.mp hv
    exact h.fields v (heq ▸ hmem)
  · exact h.newtype v (Option.mem_toList.mp hv)

theorem within_empty (K : DeclId → Prop) : Within K .empty :=
  ⟨fun _ hv => absurd hv List.not_mem_nil, fun _ hv => by cases hv⟩

end Defaults

namespace ModuleSet.Renaming

variable {set set' : ModuleSet} (r : set.Renaming set')

theorem ownDenotes {d : Decl} {t : TypeExpr} {l : Literal} {v : Value} (ht : t.Within r.Kept)
    (h : OwnDenotes set d t l v) :
    OwnDenotes set' (d.rename r.place) (t.rename r.place) l (v.rename r.place) ∧
      v.Within r.Kept := by
  obtain ⟨hdenotes, hv⟩ := r.denotes ht h.denotes
  refine ⟨⟨r.saturated ht h.saturated, fun p hp => ?_, hdenotes⟩, hv⟩
  exact h.bound p (TypeExpr.mentions_rename_iff.mp hp)

theorem fieldDefault {d : Decl} {m : Member} {x : Option Value} (ht : m.type.Within r.Kept)
    (h : FieldDefault set d m x) :
    FieldDefault set' (d.rename r.place) (m.rename r.place) (x.map (Value.rename r.place)) ∧
      ∀ v, x = some v → v.Within r.Kept := by
  cases h with
  | none hm => exact ⟨.none hm, fun _ h => nomatch h⟩
  | some hm h =>
    obtain ⟨h', hv⟩ := r.ownDenotes ht h
    refine ⟨.some hm h', ?_⟩
    rintro _ ⟨⟩
    exact hv

theorem fieldDefaults {d : Decl} {ms : List Member} {xs : List (Option Value)}
    (hms : ∀ m ∈ ms, m.type.Within r.Kept) (h : List.Forall₂ (FieldDefault set d) ms xs) :
    List.Forall₂ (FieldDefault set' (d.rename r.place)) (ms.map (Member.rename r.place))
        (xs.map (Option.map (Value.rename r.place))) ∧
      ∀ v, some v ∈ xs → v.Within r.Kept := by
  induction h with
  | nil => exact ⟨.nil, fun _ h => nomatch h⟩
  | cons hx _ ih =>
    obtain ⟨hm, hms⟩ := List.forall_mem_cons.mp hms
    obtain ⟨hx', hxw⟩ := r.fieldDefault hm hx
    obtain ⟨hxs', hxsw⟩ := ih hms
    refine ⟨.cons hx' hxs', fun v hv => ?_⟩
    rcases List.mem_cons.mp hv with h | h
    · exact hxw v h.symm
    · exact hxsw v h

/-- The defaults of a declaration at a new place are the renamed ones. -/
theorem defaultsOf {id : DeclId} {x : Defaults} (hk : r.Kept id)
    (h : DefaultsOf set id (set.decl id) (set.decl id).body x) :
    DefaultsOf set' (r.place id) (set'.decl (r.place id)) (set'.decl (r.place id)).body
        (x.rename r.place) ∧ x.Within r.Kept := by
  have hclosed := r.closed id hk
  rw [r.body_eq hk, r.decl_eq id hk]
  rw [Decl.types, Decl.members] at hclosed
  generalize (set.decl id).body = body at h hclosed
  have hnone : ∀ ms : List Member, Defaults.rename r.place ⟨ms.map fun _ => none, none⟩ =
      ⟨(ms.map (Member.rename r.place)).map fun _ => none, none⟩ := by
    intro ms
    simp [Defaults.rename, Function.comp_def]
  have hnone' : ∀ ms : List Member, Defaults.Within r.Kept ⟨ms.map fun _ => none, none⟩ := by
    intro ms
    exact ⟨fun v hv => by simp at hv, fun v hv => by cases hv⟩
  cases h with
  | struct h =>
    obtain ⟨h', hv⟩ := r.fieldDefaults (List.forall_mem_map.mp hclosed) h
    exact ⟨.struct h', hv, fun v hv => by cases hv⟩
  | union ms =>
    rw [hnone]
    exact ⟨.union _, hnone' ms⟩
  | enum ms =>
    rw [hnone]
    exact ⟨.enum _, hnone' ms⟩
  | newtype h =>
    obtain ⟨h', hv⟩ := r.ownDenotes (hclosed _ List.mem_cons_self) h
    refine ⟨.newtype h', fun v hv => absurd hv List.not_mem_nil, ?_⟩
    rintro _ ⟨⟩
    exact .newtype hk hv
  | newtype_none t => exact ⟨.newtype_none _, Defaults.within_empty _⟩
  | «alias» t => exact ⟨.alias _, Defaults.within_empty _⟩

end ModuleSet.Renaming

end Adl
