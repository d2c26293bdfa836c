import Adl.Proofs.Value.Generic

/-!
# Nesting — how many declared defaults a value needs

A literal denotes one value at most, however many declared defaults may be nested
(`Denotes.unique`), and how many it needs does not depend on the arguments of a type: if it denotes
a value at a generic type at all, it needs no more of them there than at any instance
(`Denotes.of_subst`).  So what the empty literal denotes at a struct is known from the declared
defaults at their types as they are written (`denotes_empty_iff`).
-/

namespace Adl

variable {set : ModuleSet} {n k : Nat} {l : Literal} {v w : Value} {t : TypeExpr}

/-! ### One value -/

/-- What a literal denotes, it is read as. -/
theorem Denotes.yields (h : Denotes set n l v t) (hd : set.DistinctNames) (location : Location) :
    Yields ((Graph.plain set).value location (n + 1) l (set.chainBound t) t) v :=
  (Graph.reads_of_denotes hd h).yields

theorem Denotes.unique (h : Denotes set n l v t) (h' : Denotes set k l w t)
    (hd : set.DistinctNames) : v = w := by
  have hv := (h.weaken k).yields hd (.ofModule "")
  have hw := (h'.weaken n).yields hd (.ofModule "")
  rw [Nat.add_comm k n] at hw
  exact hv.unique hw

/-! ### Fewer defaults -/

/-- A field is read from one literal, however many defaults may be nested. -/
theorem FieldSource.literal_eq {entries : List (String × Literal)} {m : Member}
    {s s' : Nat × Literal} (hkeys : (entries.map Prod.fst).Nodup) (h : FieldSource entries n m s)
    (h' : FieldSource entries k m s') : s.2 = s'.2 := by
  cases h with
  | given h =>
    cases h' with
    | given h' =>
      have hlookup := lookup_of_mem hkeys h
      exact Option.some.inj (hlookup.symm.trans (lookup_of_mem hkeys h'))
    | declared hnot _ => exact absurd (List.mem_map_of_mem h) hnot
  | declared hnot hm =>
    cases h' with
    | given h' => exact absurd (List.mem_map_of_mem h') hnot
    | declared _ hm' => exact Option.some.inj (hm.symm.trans hm')

section

variable {σ : Bindings} {id : DeclId} {args : List TypeExpr} {ms : List Member}
  {entries : List (String × Literal)}

/-- The fields of a struct need no more defaults than those of an instance of it. -/
theorem denotes_struct_of_subst (hd : set.DistinctNames) {types : List TypeExpr}
    {sources : List (Nat × Literal)} {vs : List Value}
    (ht : set.Expands t (.mk (.decl id) args)) (hbody : (set.decl id).body = .struct ms)
    (htypes : set.BodyAt id args (.fields types)) (hkeys : (entries.map Prod.fst).Nodup)
    (hknown : ∀ key ∈ entries.map Prod.fst, key ∈ ms.map Member.serializedName)
    (hsources : List.Forall₂ (FieldSource entries n) ms sources) (hlen : vs.length = ms.length)
    (ih : ∀ s type v, (s, type, v) ∈ sources.zip (types.zip vs) → ∀ k w,
      Denotes set k s.2 w (type.subst σ) → Denotes set k s.2 v type)
    (h' : Denotes set k (.object entries) w (t.subst σ)) :
    Denotes set k (.object entries) (.struct id vs) t := by
  obtain ⟨entries', b, vs', hl, hb, -, rfl, hfields⟩ :=
    (Graph.yields_value_struct (ht.subst_decl σ) hbody).mp (h'.yields hd (.ofModule ""))
  cases hl
  obtain rfl := hb.unique (htypes.subst σ)
  have hms : ms.length = types.length := by
    cases htypes.struct_eq hbody
    rw [List.length_map]
  obtain ⟨sources', hsources', hlen', hvs'⟩ := (Graph.yields_fieldValues_iff hkeys
    (hms.trans (List.length_map _).symm)).mp hfields
  refine .struct ht hbody htypes hkeys hknown hsources' hlen ?_
  intro s' type v hmem
  -- At this place the field has a source and a value in both derivations.
  obtain ⟨i, hs', htv⟩ := mem_zip_iff.mp hmem
  obtain ⟨htype, hv⟩ := List.getElem?_zip_eq_some.mp htv
  obtain ⟨m, hm, hfrom'⟩ := forall₂_getElem? hsources' hs'
  obtain ⟨s, hs⟩ := exists_getElem?_of_length_eq hsources.length_eq.symm hm
  obtain ⟨w, hw⟩ := exists_getElem?_of_length_eq (hlen'.trans hlen.symm) hv
  have hfrom := (forall₂_iff_getElem?.mp hsources).2 i m s hm hs
  have hsame : s.2 = s'.2 := hfrom.literal_eq hkeys hfrom'
  have htype' : (types.map (·.subst σ))[i]? = some (type.subst σ) := by
    rw [List.getElem?_map, htype, Option.map_some]
  have hread := hvs' s' (type.subst σ) w
    (mem_zip_iff.mpr ⟨i, hs', List.getElem?_zip_eq_some.mpr ⟨htype', hw⟩⟩)
  have hpart := ih s type v (mem_zip_iff.mpr ⟨i, hs, htv⟩) s'.1 w
  rw [hsame] at hpart
  exact hpart (Graph.denotes_of_yields_value hread)

/-- The payload of a union needs no more defaults than that of an instance of it. -/
theorem denotes_union_of_subst (hd : set.DistinctNames) {types : List TypeExpr} {type : TypeExpr}
    {index : Nat} {m : Member} {payload : Literal}
    (ht : set.Expands t (.mk (.decl id) args)) (hbody : (set.decl id).body = .union ms)
    (hm : ms[index]? = some m)
    (hl : l = .object [(m.serializedName, payload)] ∨
      l = .string m.serializedName ∧ payload = .null)
    (htypes : set.BodyAt id args (.fields types)) (htype : types[index]? = some type)
    (ih : ∀ k w, Denotes set k payload w (type.subst σ) → Denotes set k payload v type)
    (h' : Denotes set k l w (t.subst σ)) : Denotes set k l (.union id index v) t := by
  obtain ⟨name, payload', index', type', w', hl', halt, rfl, hread⟩ :=
    (Graph.yields_value_union (ht.subst_decl σ) hbody).mp (h'.yields hd (.ofModule ""))
  obtain ⟨b, hindex, hb, htype'⟩ := Graph.yields_alternative.mp halt
  obtain ⟨rfl, rfl⟩ : name = m.serializedName ∧ payload' = payload := by
    rcases hl with rfl | ⟨rfl, rfl⟩
    · rcases hl' with hl' | ⟨hl', -⟩
      · cases hl'
        exact ⟨rfl, rfl⟩
      · cases hl'
    · rcases hl' with hl' | ⟨hl', rfl⟩
      · cases hl'
      · cases hl'
        exact ⟨rfl, rfl⟩
  have hnd := hd id
  rw [Decl.members, hbody] at hnd
  cases hindex.symm.trans (Normalize.memberIndex?_of_getElem? hnd hm)
  obtain rfl := hb.unique (htypes.subst σ)
  obtain rfl : type' = type.subst σ := by
    rw [← htype', Members.map, Members.toFields, List.getElem?_map, htype]
    rfl
  exact .union ht hbody hm hl htypes htype (ih k w' (Graph.denotes_of_yields_value hread))

end

/-- What a literal denotes at a type it denotes with as few nested defaults as something is denoted
with at an instance. -/
theorem Denotes.of_subst (hd : set.DistinctNames) {σ : Bindings} (h : Denotes set n l v t)
    (h' : Denotes set k l w (t.subst σ)) : Denotes set k l v t := by
  -- The value stays that of the generic type; only the numbers come from the instance.
  induction h generalizing k w with
  | scalar ht h => exact .scalar ht h
  | absent ht => exact .absent ht
  | enum ht hbody hm hl => exact .enum ht hbody hm hl
  | @vector n t elem rest items vs ht hlen _ ih =>
    obtain ⟨items', elem', rest', ws, hl, hargs, -, hread⟩ :=
      (Graph.yields_value_vector (ht.subst_primitive σ)).mp (h'.yields hd (.ofModule ""))
    cases hl
    cases hargs
    obtain ⟨hlen', hws⟩ := Graph.yields_elements_iff.mp hread
    refine .vector ht hlen fun l v hmem => ?_
    obtain ⟨i, hl, hv⟩ := mem_zip_iff.mp hmem
    obtain ⟨w, hw⟩ := exists_getElem?_of_length_eq (hlen'.symm.trans hlen) hv
    exact ih l v hmem (Graph.denotes_of_yields_value (hws l w (mem_zip_iff.mpr ⟨i, hl, hw⟩)))
  | @stringMap n t elem rest entries vs ht hkeys heq _ ih =>
    obtain ⟨entries', elem', rest', ws, hl, hargs, -, hread⟩ :=
      (Graph.yields_value_stringMap (ht.subst_primitive σ)).mp (h'.yields hd (.ofModule ""))
    cases hl
    cases hargs
    obtain ⟨-, heq', hws⟩ := Graph.yields_mapEntries_iff.mp hread
    refine .stringMap ht hkeys heq fun e v hmem => ?_
    obtain ⟨i, he, hv⟩ := mem_zip_iff.mp hmem
    have hlen' : ws.length = vs.length := by
      simpa using congrArg List.length (heq'.symm.trans heq)
    obtain ⟨w, hw⟩ := exists_getElem?_of_length_eq hlen' hv
    exact ih e v hmem (Graph.denotes_of_yields_value (hws e w (mem_zip_iff.mpr ⟨i, he, hw⟩)))
  | present ht hl _ ih =>
    rcases (Graph.yields_value_nullable (ht.subst_primitive σ)).mp (h'.yields hd (.ofModule ""))
      with ⟨hnull, -⟩ | ⟨-, elem', rest', chain, w', hargs, -, -, hread⟩
    · exact absurd hnull hl
    · cases hargs
      exact .present ht hl (ih (Graph.denotes_of_yields_value hread))
  | struct ht hbody htypes hkeys hknown hsources hlen _ ih =>
    exact denotes_struct_of_subst hd ht hbody htypes hkeys hknown hsources hlen
      (fun s type v hmem k w => ih s type v hmem) h'
  | union ht hbody hm hl htypes htype _ ih =>
    exact denotes_union_of_subst hd ht hbody hm hl htypes htype (fun k w => ih) h'
  | newtype ht hbody htarget _ hu ih =>
    obtain ⟨type', chain, w', hb, -, -, -, hread⟩ :=
      (Graph.yields_value_newtype (ht.subst_decl σ) hbody).mp (h'.yields hd (.ofModule ""))
    cases hb.unique (htarget.subst σ)
    exact .newtype ht hbody htarget (ih (Graph.denotes_of_yields_value hread)) hu

/-! ### The empty literal -/

theorem ModuleSet.Expands.of_struct {id : DeclId} {args : List TypeExpr} {ms : List Member}
    (hbody : (set.decl id).body = .struct ms) :
    set.Expands (.mk (.decl id) args) (.mk (.decl id) args) := by
  refine .of_decl ?_ args
  rw [isAlias, Decl.isAlias, hbody]
  exact Bool.false_ne_true

/-- Where nothing is given, a field is read from its declared default. -/
theorem fieldSource_nil_iff {m : Member} {s : Nat × Literal} :
    FieldSource [] n m s ↔ n = s.1 + 1 ∧ m.default = some s.2 := by
  constructor
  · intro h
    cases h with
    | given h => cases h
    | declared _ hm => exact ⟨rfl, hm⟩
  · obtain ⟨k, l⟩ := s
    rintro ⟨rfl, hm⟩
    exact .declared List.not_mem_nil hm

/-- A field that is left out has the value `w`, where at most `n` declared defaults may be nested
and `σ` binds the parameters of its type. -/
def FilledIn (set : ModuleSet) (n : Nat) (σ : Bindings) (m : Member) (w : Value) : Prop :=
  ∃ k l, n = k + 1 ∧ m.default = some l ∧ Denotes set k l w (m.type.subst σ)

/-- The empty literal denotes a struct of which all fields are filled in. -/
theorem denotes_empty_iff (hd : set.DistinctNames) {id : DeclId} {args : List TypeExpr}
    {ms : List Member} {b : Members} (hbody : (set.decl id).body = .struct ms)
    (hb : set.BodyAt id args b) :
    Denotes set n (.object []) v (.mk (.decl id) args) ↔ ∃ vs, v = .struct id vs ∧
      List.Forall₂ (FilledIn set n ((set.decl id).typeParams.zip args)) ms vs := by
  have hself : set.Expands (.mk (.decl id) args) (.mk (.decl id) args) := .of_struct hbody
  obtain rfl := hb.struct_eq hbody
  constructor
  · intro h
    obtain ⟨entries, b, vs, hl, hb', -, rfl, hfields⟩ :=
      (Graph.yields_value_struct hself hbody).mp (h.yields hd (.ofModule ""))
    cases hl
    obtain rfl := hb'.unique hb
    have hkeys : (([] : List (String × Literal)).map Prod.fst).Nodup := List.nodup_nil
    obtain ⟨sources, hsources, hlen, hvs⟩ :=
      (Graph.yields_fieldValues_iff hkeys (List.length_map _).symm).mp hfields
    refine ⟨vs, rfl, forall₂_iff_getElem?.mpr ⟨hlen.symm, ?_⟩⟩
    intro i m w hm hw
    obtain ⟨s, hs⟩ := exists_getElem?_of_length_eq hsources.length_eq.symm hm
    obtain ⟨hn, hdefault⟩ :=
      fieldSource_nil_iff.mp ((forall₂_iff_getElem?.mp hsources).2 i m s hm hs)
    refine ⟨s.1, s.2, hn, hdefault, Graph.denotes_of_yields_value (hvs s _ w ?_)⟩
    refine mem_zip_iff.mpr ⟨i, hs, List.getElem?_zip_eq_some.mpr ⟨?_, hw⟩⟩
    rw [List.getElem?_map, hm, Option.map_some]
  · rintro ⟨vs, rfl, h⟩
    obtain ⟨hlen, hfilled⟩ := forall₂_iff_getElem?.mp h
    have hsources : List.Forall₂ (FieldSource [] n) ms
        (ms.map fun m => (n - 1, m.default.getD .null)) := by
      refine List.forall₂_map_right_iff.mpr (List.forall₂_same.mpr fun m hm => ?_)
      obtain ⟨w, -, k, l, rfl, hdefault, -⟩ := exists_of_forall₂ h.flip hm
      rw [hdefault]
      exact fieldSource_nil_iff.mpr ⟨rfl, hdefault⟩
    refine .struct hself hbody hb List.nodup_nil (fun _ h => nomatch h) hsources hlen.symm ?_
    intro s type w hmem
    obtain ⟨i, hs, htw⟩ := mem_zip_iff.mp hmem
    obtain ⟨htype, hw⟩ := List.getElem?_zip_eq_some.mp htw
    obtain ⟨m, hm⟩ := exists_getElem?_of_length_eq hlen hw
    obtain ⟨k, l, rfl, hdefault, hdenotes⟩ := hfilled i m w hm hw
    rw [List.getElem?_map, hm, Option.map_some] at hs htype
    cases hs
    cases htype
    show Denotes set k (m.default.getD .null) w _
    rwa [hdefault, Option.getD_some]

end Adl
