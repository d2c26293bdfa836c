import Adl.Proofs.Json.Same
import Adl.Proofs.Model.Resolved
import Adl.Proofs.Value.Contained
import Adl.Proofs.Value.RoundTrip

/-!
# Distinct — elements of sets and keys of maps

The elements of a set and the keys of a map are compared by their canonical literals, in which the
members of a string map, or of an object at type `Json`, have the order in which they were written.
So elements with different literals can still be the same data.  This takes a map or an object whose
keys are listed in another order, or more than once; an integer of more than 64 bits; or a number
that is not finite.  Elements with none of these are plain (`Value.Plain`), and plain elements of
one type are the same data only if they have the same literal (`Denotes.separated`).
-/

namespace Adl

open Relation (ReflTransGen)

variable {r : String → String → Prop}

/-! ### Plain literals -/

/-- A literal that is data as it is written: keys are listed in the order `r`, integers have 64
bits, and numbers are finite. -/
inductive Literal.Plain (r : String → String → Prop) : Literal → Prop
  | null : Plain r .null
  | integer {i : Int} (hle : -0x8000000000000000 ≤ i) (hlt : i < 0x10000000000000000) :
      Plain r (.integer i)
  | double {d : Double} (h : d.isFinite) : Plain r (.double d)
  | string (s : String) : Plain r (.string s)
  | boolean (b : Bool) : Plain r (.boolean b)
  | array {items : List Literal} (h : ∀ l ∈ items, Plain r l) : Plain r (.array items)
  | object {entries : List (String × Literal)} (hkeys : (entries.map Prod.fst).Pairwise r)
      (h : ∀ e ∈ entries, Plain r e.2) : Plain r (.object entries)

/-- No key is listed twice. -/
theorem nodup_of_pairwise (hr : ∀ a b, r a b → ¬ r b a) {keys : List String}
    (h : keys.Pairwise r) : keys.Nodup := by
  refine h.imp fun {a b} hab heq => ?_
  subst heq
  exact hr a a hab hab

namespace Literal

theorem same_array_iff {xs ys : List Literal} : (array xs).same (array ys) ↔
    xs.length = ys.length ∧
      ∀ (i : Nat) x y, xs[i]? = some x → ys[i]? = some y → x.same y := by
  rw [same, sameItems_iff, forall₂_iff_getElem?]

/-- The items of arrays that are the same data are the same data. -/
theorem items_same_of_same {xs ys : List Literal} (h : (array xs).toJson.same (array ys).toJson) :
    xs.length = ys.length ∧
      ∀ (i : Nat) x y, xs[i]? = some x → ys[i]? = some y → x.toJson.same y.toJson := by
  rw [toJson, toJson, Json.same, Json.sameItems_iff, itemsToJson_eq_map, itemsToJson_eq_map,
    List.forall₂_map_left_iff, List.forall₂_map_right_iff, forall₂_iff_getElem?] at h
  exact h

section

variable {xs ys : List (String × Literal)}

theorem same_object_iff : (object xs).same (object ys) ↔ xs.length = ys.length ∧
    ∀ (i : Nat) x y, xs[i]? = some x → ys[i]? = some y → x.1 = y.1 ∧ x.2.same y.2 := by
  rw [same, sameEntries_iff, forall₂_iff_getElem?]

theorem map_fst_entriesToJson (xs : List (String × Literal)) :
    (entriesToJson xs).map Prod.fst = xs.map Prod.fst := by
  rw [entriesToJson_eq_map, List.map_map]
  rfl

variable (h : (object xs).toJson.same (object ys).toJson)

include h

/-- Two objects that are the same data have the same keys, if both list them in one order. -/
theorem keys_eq_of_same (hr : ∀ a b, r a b → ¬ r b a) (hx : (xs.map Prod.fst).Pairwise r)
    (hy : (ys.map Prod.fst).Pairwise r) : xs.map Prod.fst = ys.map Prod.fst := by
  have hnodup := nodup_of_pairwise hr hx
  have hnodup' := nodup_of_pairwise hr hy
  refine List.Perm.eq_of_pairwise (fun a b _ _ hab hba => absurd hba (hr a b hab)) hx hy ?_
  rw [List.perm_ext_iff_of_nodup hnodup hnodup']
  intro key
  rw [← map_fst_entriesToJson xs, ← map_fst_entriesToJson ys]
  refine Json.mem_keys_of_same_sorted ?_ ?_ h
  · rwa [map_fst_entriesToJson]
  · rwa [map_fst_entriesToJson]

/-- The values of two objects that are the same data are the same data, if both have the same keys
in the same order. -/
theorem values_same_of_same (hnodup : (xs.map Prod.fst).Nodup)
    (hkeys : xs.map Prod.fst = ys.map Prod.fst) {i : Nat} {x y : String × Literal}
    (hx : xs[i]? = some x) (hy : ys[i]? = some y) : x.1 = y.1 ∧ x.2.toJson.same y.2.toJson := by
  have hkey : x.1 = y.1 := by
    have hi := congrArg (·[i]?) hkeys
    simpa [hx, hy] using hi
  have hmem {zs : List (String × Literal)} {z : String × Literal} (hz : zs[i]? = some z) :
      (z.1, z.2.toJson) ∈ entriesToJson zs := by
    rw [entriesToJson_eq_map]
    exact List.mem_map.mpr ⟨z, List.mem_of_getElem? hz, rfl⟩
  refine ⟨hkey, Json.same_of_same_sorted ?_ ?_ h (hmem hx) (hkey ▸ hmem hy)⟩
  · rwa [map_fst_entriesToJson]
  · rwa [map_fst_entriesToJson, ← hkeys]

end

/-- Plain literals that are the same data are the same literal. -/
theorem Plain.same_of_toJson (hr : ∀ a b, r a b → ¬ r b a) {x y : Literal} (hx : x.Plain r)
    (hy : y.Plain r) (h : x.toJson.same y.toJson) : x.same y := by
  induction hx generalizing y with
  | null => cases hy <;> simp_all [toJson, Json.same, same, Json.sorted]
  | integer => cases hy <;> simp_all [toJson, Json.same, same, Json.sorted]
  | double => cases hy <;> simp_all [toJson, Json.same, same, Json.sorted]
  | string s => cases hy <;> simp_all [toJson, Json.same, same, Json.sorted]
  | boolean b => cases hy <;> simp_all [toJson, Json.same, same, Json.sorted]
  | @array xs _ ih =>
    cases hy with
    | @array ys hys =>
      obtain ⟨hlen, hitems⟩ := items_same_of_same h
      refine same_array_iff.mpr ⟨hlen, fun i x y hx hy => ?_⟩
      exact ih x (List.mem_of_getElem? hx) (hys y (List.mem_of_getElem? hy)) (hitems i x y hx hy)
    | _ => simp_all [toJson, Json.same, Json.sorted]
  | @object xs hkeys _ ih =>
    cases hy with
    | @object ys hkeys' hys =>
      have heq := keys_eq_of_same h hr hkeys hkeys'
      refine same_object_iff.mpr ⟨length_eq_of_map_eq heq, fun i x y hx hy => ?_⟩
      obtain ⟨hkey, hsame⟩ := values_same_of_same h (nodup_of_pairwise hr hkeys) heq hx hy
      exact ⟨hkey, ih x (List.mem_of_getElem? hx) (hys y (List.mem_of_getElem? hy)) hsame⟩
    | _ => simp_all [toJson, Json.same, Json.sorted]

end Literal

/-! ### Plain values -/

/-- A value that is data as it is written, at any depth. -/
inductive Value.Plain (r : String → String → Prop) : Value → Prop
  | void : Plain r .void
  | bool (b : Bool) : Plain r (.bool b)
  | int (i : Int) : Plain r (.int i)
  | word (n : Nat) : Plain r (.word n)
  | float {d : Double} (h : d.isFinite) : Plain r (.float d)
  | string (s : String) : Plain r (.string s)
  | bytes (bytes : List UInt8) : Plain r (.bytes bytes)
  | json {l : Literal} (h : l.Plain r) : Plain r (.json l)
  | vector {items : List Value} (h : ∀ v ∈ items, Plain r v) : Plain r (.vector items)
  | stringMap {entries : List (String × Value)} (hkeys : (entries.map Prod.fst).Pairwise r)
      (h : ∀ e ∈ entries, Plain r e.2) : Plain r (.stringMap entries)
  | absent : Plain r .absent
  | present {v : Value} (h : Plain r v) : Plain r (.present v)
  | struct {fields : List Value} (decl : DeclId) (h : ∀ v ∈ fields, Plain r v) :
      Plain r (.struct decl fields)
  | union {v : Value} (decl : DeclId) (alternative : Nat) (h : Plain r v) :
      Plain r (.union decl alternative v)
  | enum (decl : DeclId) (label : Nat) : Plain r (.enum decl label)
  | newtype {v : Value} (decl : DeclId) (h : Plain r v) : Plain r (.newtype decl v)

variable {set : ModuleSet} {n : Nat} {l : Literal} {v w : Value} {t u : TypeExpr}

/-- The canonical literal of a plain scalar is plain. -/
theorem DenotesScalar.plain {p : Primitive} (h : DenotesScalar p l v) (hv : v.Plain r) :
    (v.toLiteral set).Plain r := by
  cases h with
  | void => exact .null
  | typeToken => exact .null
  | bool b => exact .boolean b
  | @int p bits i hp hle hlt =>
    have hpow : (2 : Int) ^ (bits - 1) ≤ 0x8000000000000000 := by cases p <;> cases hp <;> decide
    exact .integer (by omega) (by omega)
  | @word p bits i hp hlt =>
    have hpow : 2 ^ bits ≤ 0x10000000000000000 := by cases p <;> cases hp <;> decide
    exact .integer (by omega) (by omega)
  | string s => exact .string s
  | byteVector h => exact .string _
  | json l =>
    cases hv with
    | json h => exact h
  | _ =>
    cases hv with
    | float h => exact .double h

/-- Only the null literal is null as data, among those of plain values. -/
theorem Value.Plain.toJson_ne_null (hv : v.Plain r) (hne : v.toLiteral set ≠ .null) :
    (v.toLiteral set).toJson ≠ .null := by
  induction hv with
  | int i =>
    rw [Value.toLiteral, Literal.toJson]
    split <;> simp
  | word n =>
    rw [Value.toLiteral, Literal.toJson]
    split <;> simp
  | json h =>
    rw [Value.toLiteral] at hne ⊢
    cases h <;> simp_all [Literal.toJson, Json.sorted]
  | union id index _ ih =>
    rw [Value.toLiteral]
    split <;> simp [Literal.toJson, Json.sorted]
  | present h ih =>
    rw [Value.toLiteral] at hne ⊢
    exact ih hne
  | newtype id h ih =>
    rw [Value.toLiteral] at hne ⊢
    exact ih hne
  | _ => simp_all [Value.toLiteral, Literal.toJson, Json.sorted]

/-! ### Values of one type -/

/-- What the values of an expanded type look like. -/
def ModuleSet.Shape (set : ModuleSet) (v : Value) (u : TypeExpr) : Prop :=
  match u.head with
  | .typeParam _ => False
  | .primitive .vector => ∃ vs, v = .vector vs
  | .primitive .stringMap => ∃ vs, v = .stringMap vs ∧ (vs.map Prod.fst).Nodup
  | .primitive .nullable => v = .absent ∨ ∃ w, v = .present w ∧ w.toLiteral set ≠ .null
  | .primitive p => ∃ l, DenotesScalar p l v
  | .decl id =>
    match (set.decl id).body with
    | .struct ms => ∃ vs, v = .struct id vs ∧ vs.length = ms.length
    | .union ms => ∃ index m w, v = .union id index w ∧ ms[index]? = some m
    | .enum ms => ∃ index m, v = .enum id index ∧ ms[index]? = some m
    | .newtype _ _ => ∃ w, v = .newtype id w
    | .alias _ => False

theorem Denotes.shape (h : Denotes set n l v t) (ht : set.Expands t u) : set.Shape v u := by
  cases h with
  | @scalar _ _ _ _ p args ht' hs =>
    cases ht.unique ht'
    obtain ⟨hvector, hmap, hnullable⟩ := Normalize.ne_of_denotesScalar hs
    cases p with
    | vector => exact absurd rfl hvector
    | stringMap => exact absurd rfl hmap
    | nullable => exact absurd rfl hnullable
    | _ => exact ⟨l, hs⟩
  | vector ht' =>
    cases ht.unique ht'
    exact ⟨_, rfl⟩
  | stringMap ht' hkeys heq =>
    cases ht.unique ht'
    exact ⟨_, rfl, heq ▸ hkeys⟩
  | absent ht' =>
    cases ht.unique ht'
    exact .inl rfl
  | present ht' hl h =>
    cases ht.unique ht'
    exact .inr ⟨_, rfl, fun hnull => hl (h.toLiteral_eq_null_iff.mp hnull)⟩
  | struct ht' hbody _ _ _ _ hlen =>
    cases ht.unique ht'
    simp [ModuleSet.Shape, TypeExpr.head, hbody, hlen]
  | union ht' hbody hm =>
    cases ht.unique ht'
    simp [ModuleSet.Shape, TypeExpr.head, hbody, hm]
  | enum ht' hbody hm =>
    cases ht.unique ht'
    simp [ModuleSet.Shape, TypeExpr.head, hbody, hm]
  | newtype ht' hbody =>
    cases ht.unique ht'
    simp [ModuleSet.Shape, TypeExpr.head, hbody]

/-- If two values are plain and the same data, then their canonical literals are the same. -/
def ModuleSet.Separated (set : ModuleSet) (r : String → String → Prop) (v w : Value) : Prop :=
  v.Plain r → w.Plain r → (v.toLiteral set).toJson.same (w.toLiteral set).toJson →
    (v.toLiteral set).same (w.toLiteral set)

section

variable (hr : ∀ a b, r a b → ¬ r b a) {vs ws : List Value}

theorem separated_vector
    (h : ∀ (i : Nat) v w, vs[i]? = some v → ws[i]? = some w → set.Separated r v w) :
    set.Separated r (.vector vs) (.vector ws) := by
  intro hv hw hsame
  cases hv with
  | vector hv =>
  cases hw with
  | vector hw =>
  rw [Value.toLiteral, Value.toLiteral, Value.toLiterals_eq_map, Value.toLiterals_eq_map] at hsame ⊢
  obtain ⟨hlen, hitems⟩ := Literal.items_same_of_same hsame
  refine Literal.same_array_iff.mpr ⟨hlen, fun i x y hx hy => ?_⟩
  have hsame := hitems i x y hx hy
  obtain ⟨v, hvi, rfl⟩ := Option.map_eq_some_iff.mp ((List.getElem?_map ..).symm.trans hx)
  obtain ⟨w, hwi, rfl⟩ := Option.map_eq_some_iff.mp ((List.getElem?_map ..).symm.trans hy)
  exact h i v w hvi hwi (hv v (List.mem_of_getElem? hvi)) (hw w (List.mem_of_getElem? hwi)) hsame

include hr in
theorem separated_stringMap {vs ws : List (String × Value)}
    (h : ∀ v ∈ vs, ∀ w ∈ ws, set.Separated r v.2 w.2) :
    set.Separated r (.stringMap vs) (.stringMap ws) := by
  intro hv hw hsame
  cases hv with
  | stringMap hkeys hv =>
  cases hw with
  | stringMap hkeys' hw =>
  have hfst (vs : List (String × Value)) :
      (vs.map fun e => (e.1, e.2.toLiteral set)).map Prod.fst = vs.map Prod.fst := by
    rw [List.map_map]
    rfl
  rw [Value.toLiteral, Value.toLiteral, Value.toEntries_eq_map, Value.toEntries_eq_map] at hsame ⊢
  have heq := Literal.keys_eq_of_same hsame hr (by rwa [hfst]) (by rwa [hfst])
  have hnodup := nodup_of_pairwise hr hkeys
  rw [← hfst] at hnodup
  refine Literal.same_object_iff.mpr ⟨length_eq_of_map_eq heq, fun i x y hx hy => ?_⟩
  obtain ⟨hkey, hsame⟩ := Literal.values_same_of_same hsame hnodup heq hx hy
  obtain ⟨v, hvi, rfl⟩ := Option.map_eq_some_iff.mp ((List.getElem?_map ..).symm.trans hx)
  obtain ⟨w, hwi, rfl⟩ := Option.map_eq_some_iff.mp ((List.getElem?_map ..).symm.trans hy)
  have hvi := List.mem_of_getElem? hvi
  have hwi := List.mem_of_getElem? hwi
  exact ⟨hkey, h v hvi w hwi (hv v hvi) (hw w hwi) hsame⟩

theorem separated_struct (hnames : set.DistinctNames) {id : DeclId} {ms : List Member}
    (hbody : (set.decl id).body = .struct ms) (hvs : vs.length = ms.length)
    (hws : ws.length = ms.length)
    (h : ∀ (i : Nat) v w, vs[i]? = some v → ws[i]? = some w → set.Separated r v w) :
    set.Separated r (.struct id vs) (.struct id ws) := by
  intro hv hw hsame
  cases hv with
  | struct _ hv =>
  cases hw with
  | struct _ hw =>
  have hms : (set.decl id).members = ms := by rw [Decl.members, hbody]
  have hfst {us : List Value} (hus : us.length = ms.length) :
      ((ms.map Member.serializedName).zip (us.map (Value.toLiteral set))).map Prod.fst =
        ms.map Member.serializedName :=
    List.map_fst_zip (by rw [List.length_map, List.length_map, hus])
  have hnodup := hnames id
  rw [hms, ← hfst hvs] at hnodup
  have heq := (hfst hvs).trans (hfst hws).symm
  rw [Value.toLiteral, Value.toLiteral, hms, Value.toLiterals_eq_map, Value.toLiterals_eq_map]
    at hsame ⊢
  refine Literal.same_object_iff.mpr ⟨length_eq_of_map_eq heq, fun i x y hx hy => ?_⟩
  obtain ⟨hkey, hsame⟩ := Literal.values_same_of_same hsame hnodup heq hx hy
  obtain ⟨v, hvi, hvx⟩ := Option.map_eq_some_iff.mp
    ((List.getElem?_map ..).symm.trans (List.getElem?_zip_eq_some.mp hx).2)
  obtain ⟨w, hwi, hwy⟩ := Option.map_eq_some_iff.mp
    ((List.getElem?_map ..).symm.trans (List.getElem?_zip_eq_some.mp hy).2)
  rw [← hvx, ← hwy] at hsame ⊢
  exact ⟨hkey, h i v w hvi hwi (hv v (List.mem_of_getElem? hvi)) (hw w (List.mem_of_getElem? hwi))
    hsame⟩

theorem separated_union (hnames : set.DistinctNames) {id : DeclId} {ms : List Member}
    {index index' : Nat} {m m' : Member} (hms : (set.decl id).members = ms)
    (hm : ms[index]? = some m) (hm' : ms[index']? = some m')
    (h : index = index' → set.Separated r v w) :
    set.Separated r (.union id index v) (.union id index' w) := by
  intro hv hw hsame
  cases hv with
  | union _ _ hv =>
  cases hw with
  | union _ _ hw =>
  rw [Value.toLiteral, Value.toLiteral, Value.memberName_eq hms hm, Value.memberName_eq hms hm']
    at hsame ⊢
  by_cases hnothing : v.isVoid
  · rw [if_pos hnothing] at hsame ⊢
    by_cases hnothing' : w.isVoid
    · rwa [if_pos hnothing'] at hsame ⊢
    · simp [if_neg hnothing', Literal.toJson, Json.same, Json.sorted] at hsame
  · rw [if_neg hnothing] at hsame ⊢
    by_cases hnothing' : w.isVoid
    · simp [if_pos hnothing', Literal.toJson, Json.same, Json.sorted] at hsame
    · rw [if_neg hnothing'] at hsame ⊢
      have hsingle : Json.same (.object [(m.serializedName, (v.toLiteral set).toJson)])
        (.object [(m'.serializedName, (w.toLiteral set).toJson)]) := hsame
      simp only [Json.same, Json.sameMembers, Bool.and_true, Bool.and_eq_true, beq_iff_eq]
        at hsingle
      have hnodup := hnames id
      rw [hms] at hnodup
      have hindex : index = index' := by
        have hi := Normalize.memberIndex?_of_getElem? hnodup hm
        rw [hsingle.1, Normalize.memberIndex?_of_getElem? hnodup hm'] at hi
        exact (Option.some.inj hi).symm
      have hpayload := h hindex hv hw hsingle.2
      simpa only [Literal.same, Literal.sameEntries, hsingle.1, beq_self_eq_true, Bool.true_and,
        Bool.and_true] using hpayload

end

/-- Plain values of one type that are the same data have the same canonical literal. -/
theorem Denotes.separated (hnames : set.DistinctNames) (hr : ∀ a b, r a b → ¬ r b a)
    (h : Denotes set n l v t) : ∀ {k l' w}, Denotes set k l' w t → set.Separated r v w := by
  induction h with
  | @scalar n l v t p args ht hs =>
    intro k l' w hw hv hwp hsame
    have hscalar : ∃ l', DenotesScalar p l' w := by
      obtain ⟨hvector, hmap, hnullable⟩ := Normalize.ne_of_denotesScalar hs
      have hshape := hw.shape ht
      cases p with
      | vector => exact absurd rfl hvector
      | stringMap => exact absurd rfl hmap
      | nullable => exact absurd rfl hnullable
      | _ => exact hshape
    obtain ⟨l', hs'⟩ := hscalar
    exact (hs.plain hv).same_of_toJson hr (hs'.plain hwp) hsame
  | @vector n t elem rest items vs ht hlen h ih =>
    intro k l' w hw
    obtain ⟨ws, rfl⟩ := hw.shape ht
    refine separated_vector fun i v w hv hwi => ?_
    obtain ⟨l, hl⟩ := exists_getElem?_of_length_eq hlen hv
    obtain ⟨k', l'', h'⟩ := hw.exists_of_contains (.item ht (List.mem_of_getElem? hwi))
    exact ih l v (mem_zip_iff.mpr ⟨i, hl, hv⟩) h'
  | @stringMap n t elem rest entries vs ht hkeys heq h ih =>
    intro k l' w hw
    obtain ⟨ws, rfl, -⟩ := hw.shape ht
    refine separated_stringMap hr fun v hv w hwi => ?_
    obtain ⟨e, he⟩ := exists_mem_zip (length_eq_of_map_eq heq) hv
    obtain ⟨k', l'', h'⟩ := hw.exists_of_contains (.entry ht hwi)
    exact ih e v he h'
  | absent ht =>
    intro k l' w hw hv hwp hsame
    rcases hw.shape ht with rfl | ⟨w, rfl, hne⟩
    · rfl
    · cases hwp with
      | present hwp => exact absurd (Json.same_null_left.mp hsame) (hwp.toJson_ne_null hne)
  | present ht hl h ih =>
    intro k l' w hw hv hwp hsame
    cases hv with
    | present hv =>
    rcases hw.shape ht with rfl | ⟨w, rfl, hne⟩
    · refine absurd (Json.same_null_right.mp hsame) (hv.toJson_ne_null ?_)
      exact fun hnull => hl (h.toLiteral_eq_null_iff.mp hnull)
    · cases hwp with
      | present hwp =>
        obtain ⟨k', l'', h'⟩ := hw.exists_of_contains (.present ht)
        rw [Value.toLiteral, Value.toLiteral] at hsame ⊢
        exact ih h' hv hwp hsame
  | @struct n t id args types ms entries sources vs ht hbody htypes hkeys hknown hsources hlen h
      ih =>
    intro k l' w hw
    have hshape := hw.shape ht
    simp only [ModuleSet.Shape, TypeExpr.head, hbody] at hshape
    obtain ⟨ws, rfl, hlen'⟩ := hshape
    refine separated_struct hnames hbody hlen hlen' fun i v w hv hwi => ?_
    obtain ⟨_, s, type, -, -, htype, hmem⟩ := exists_fieldSource hbody htypes hsources hlen hv
    obtain ⟨k', l'', h'⟩ := hw.exists_of_contains (.field ht htypes hwi htype)
    exact ih s type v hmem h'
  | @union n l payload v t type id args types ms index m ht hbody hm hl htypes htype h ih =>
    intro k l' w hw
    have hshape := hw.shape ht
    simp only [ModuleSet.Shape, TypeExpr.head, hbody] at hshape
    obtain ⟨index', m', w, rfl, hm'⟩ := hshape
    refine separated_union hnames (by rw [Decl.members, hbody]) hm hm' ?_
    rintro rfl
    obtain ⟨k', l'', h'⟩ := hw.exists_of_contains (.payload ht htypes htype)
    exact ih h'
  | @enum n l t id args ms index m ht hbody hm hl =>
    intro k l' w hw hv hwp hsame
    have hshape := hw.shape ht
    simp only [ModuleSet.Shape, TypeExpr.head, hbody] at hshape
    obtain ⟨index', m', rfl, hm'⟩ := hshape
    exact hsame
  | newtype ht hbody htarget h hu ih =>
    intro k l' w hw hv hwp hsame
    have hshape := hw.shape ht
    simp only [ModuleSet.Shape, TypeExpr.head, hbody] at hshape
    obtain ⟨w, rfl⟩ := hshape
    cases hv with
    | newtype _ hv =>
    cases hwp with
    | newtype _ hwp =>
    obtain ⟨k', l'', h'⟩ := hw.exists_of_contains (.target ht htarget)
    rw [Value.toLiteral, Value.toLiteral] at hsame ⊢
    exact ih h' hv hwp hsame

end Adl
