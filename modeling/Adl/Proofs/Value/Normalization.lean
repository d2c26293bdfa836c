import Adl.Proofs.Model.Resolved
import Adl.Proofs.Value.Reading
import Adl.Types.Check
import Mathlib

/-!
# Normalization — the values that are computed are those that literals denote

`Graph.normalize` returns a value exactly if the literal denotes it (`yields_normalize_iff`), in any
set that modules resolve to (`normalize_eq_ok_iff_denotes`).

Soundness follows the recursion of `Graph.value`: one step (`denotes_of_step`) needs the statement
for fewer nested defaults, for smaller literals, and for shorter chains of types at the same
literal.  Completeness is by induction on `Denotes`.  It carries along the chain of types from a
type to the one that takes the literal apart, because the recursion only ends well if the chain
was not bounded too tightly; that it was not is `Chain.le_bound`.
-/

namespace Adl

/-! ### Smaller literals -/

theorem Literal.weight_lt_of_mem_items {l : Literal} {items : List Literal} (h : l ∈ items) :
    l.weight < (Literal.array items).weight := by
  rw [weight]
  induction items with
  | nil => cases h
  | cons item items ih =>
    rw [weightItems]
    rcases List.mem_cons.mp h with rfl | h
    · omega
    · have := ih h
      omega

theorem Literal.weight_lt_of_mem_entries {e : String × Literal}
    {entries : List (String × Literal)} (h : e ∈ entries) :
    e.2.weight < (Literal.object entries).weight := by
  rw [weight]
  induction entries with
  | nil => cases h
  | cons e' entries ih =>
    obtain ⟨key, l⟩ := e'
    rw [weightEntries]
    rcases List.mem_cons.mp h with rfl | h
    · dsimp only
      omega
    · have := ih h
      omega

namespace ModuleSet

variable {set : ModuleSet} {id : DeclId} {args : List TypeExpr} {b : Members}

theorem BodyAt.struct_eq {ms : List Member} (h : set.BodyAt id args b)
    (hb : (set.decl id).body = .struct ms) :
    b = .fields (ms.map (·.type.subst ((set.decl id).typeParams.zip args))) := by
  rw [← h.body_eq, hb, Body.subst]

theorem BodyAt.union_eq {ms : List Member} (h : set.BodyAt id args b)
    (hb : (set.decl id).body = .union ms) :
    b = .fields (ms.map (·.type.subst ((set.decl id).typeParams.zip args))) := by
  rw [← h.body_eq, hb, Body.subst]

end ModuleSet

/-- Every field of a struct is read from a source at a type. -/
theorem exists_fieldSource {set : ModuleSet} {id : DeclId} {args types : List TypeExpr}
    {ms : List Member} {entries : List (String × Literal)} {n i : Nat}
    {sources : List (Nat × Literal)} {vs : List Value} {v : Value}
    (hbody : (set.decl id).body = .struct ms) (htypes : set.BodyAt id args (.fields types))
    (hsources : List.Forall₂ (FieldSource entries n) ms sources) (hlen : vs.length = ms.length)
    (hv : vs[i]? = some v) :
    ∃ m s type, ms[i]? = some m ∧ FieldSource entries n m s ∧ types[i]? = some type ∧
      (s, type, v) ∈ sources.zip (types.zip vs) := by
  have htypesLen : types.length = vs.length := by
    rw [Members.fields.inj (htypes.struct_eq hbody), List.length_map, hlen]
  obtain ⟨hslen, hR⟩ := forall₂_iff_getElem?.mp hsources
  obtain ⟨m, hm⟩ := exists_getElem?_of_length_eq hlen.symm hv
  obtain ⟨s, hs⟩ := exists_getElem?_of_length_eq hslen.symm hm
  obtain ⟨type, htype⟩ := exists_getElem?_of_length_eq htypesLen hv
  exact ⟨m, s, type, hm, hR i m s hm hs, htype,
    mem_zip_iff.mpr ⟨i, hs, List.getElem?_zip_eq_some.mpr ⟨htype, hv⟩⟩⟩

namespace Graph

variable {set : ModuleSet} {location : Location} {n chain : Nat} {l : Literal} {t u : TypeExpr}
  {v : Value}

/-! ### Soundness -/

/-- What a struct literal is read as, it denotes, if this holds of what its fields are read from. -/
theorem denotes_of_struct {id : DeclId} {args : List TypeExpr} {ms : List Member}
    (ht : set.Expands t (.mk (.decl id) args)) (hb : (set.decl id).body = .struct ms)
    (ih : ∀ entries s m, l = .object entries → FieldSource entries n m s → ∀ type v,
      Yields ((plain set).value location (s.1 + 1) s.2 (set.chainBound type) type) v →
        Denotes set s.1 s.2 v type)
    (h : Yields ((plain set).value location (n + 1) l chain t) v) : Denotes set n l v t := by
  obtain ⟨entries, b, vs, rfl, hbody, hc, rfl, hvs⟩ := (yields_value_struct ht hb).mp h
  obtain ⟨hkeys, -, hknown⟩ := Normalize.checkFields_eq_ok_iff.mp hc
  obtain rfl := hbody.struct_eq hb
  rw [Decl.members, hb] at hknown
  obtain ⟨sources, hsources, hlen, hvs⟩ :=
    (yields_fieldValues_iff hkeys (List.length_map _).symm).mp hvs
  refine .struct ht hb hbody hkeys hknown hsources hlen ?_
  intro s type v hmem
  obtain ⟨m, -, hs⟩ := exists_of_forall₂ hsources (List.of_mem_zip hmem).1
  exact ih entries s m rfl hs type v (hvs s type v hmem)

/-- One step: what a literal is read as, it denotes, if this holds of its parts. -/
theorem denotes_of_step
    (ih_default : ∀ k < n, ∀ l chain t v,
      Yields ((plain set).value location (k + 1) l chain t) v → Denotes set k l v t)
    (ih_part : ∀ l', l'.weight < l.weight → ∀ chain t v,
      Yields ((plain set).value location (n + 1) l' chain t) v → Denotes set n l' v t)
    (ih_chain : ∀ c < chain, ∀ t v,
      Yields ((plain set).value location (n + 1) l c t) v → Denotes set n l v t)
    (h : Yields ((plain set).value location (n + 1) l chain t) v) : Denotes set n l v t := by
  obtain ⟨⟨head, args⟩, ht⟩ := expands_of_yields_value h
  cases head with
  | typeParam name => exact absurd h (yields_value_typeParam ht)
  | primitive p =>
    by_cases hp : p ≠ .vector ∧ p ≠ .stringMap ∧ p ≠ .nullable
    · exact .scalar ht ((Normalize.scalar_eq_ok_iff hp).mp ((yields_value_scalar ht hp).mp h))
    · by_cases hvec : p = .vector
      · subst hvec
        obtain ⟨items, elem, rest, vs, rfl, rfl, rfl, hr⟩ := (yields_value_vector ht).mp h
        obtain ⟨hlen, hvs⟩ := yields_elements_iff.mp hr
        refine .vector ht hlen fun l v hmem => ?_
        exact ih_part l (Literal.weight_lt_of_mem_items (List.of_mem_zip hmem).1) _ elem v
          (hvs l v hmem)
      · by_cases hmap : p = .stringMap
        · subst hmap
          obtain ⟨entries, elem, rest, vs, rfl, rfl, rfl, hr⟩ := (yields_value_stringMap ht).mp h
          obtain ⟨⟨hkeys, -⟩, heq, hvs⟩ := yields_mapEntries_iff.mp hr
          refine .stringMap ht hkeys heq fun e w hmem => ?_
          exact ih_part e.2 (Literal.weight_lt_of_mem_entries (List.of_mem_zip hmem).1) _ elem w.2
            (hvs e w hmem)
        · have hnull : p = .nullable := by
            by_contra hnull
            exact hp ⟨hvec, hmap, hnull⟩
          subst hnull
          rcases (yields_value_nullable ht).mp h with ⟨rfl, rfl⟩ | ⟨hl, hr⟩
          · exact .absent ht
          · obtain ⟨elem, rest, c, w, rfl, rfl, rfl, hr⟩ := hr
            exact .present ht hl (ih_chain c (Nat.lt_succ_self c) elem w hr)
  | decl id =>
    cases hb : (set.decl id).body with
    | struct ms =>
      refine denotes_of_struct ht hb ?_ h
      rintro entries s m rfl hs type v h
      cases hs with
      | given hmem => exact ih_part _ (Literal.weight_lt_of_mem_entries hmem) _ type v h
      | declared _ _ => exact ih_default _ (Nat.lt_succ_self _) _ _ type v h
    | union ms =>
      obtain ⟨name, payload, index, type, w, hl, halt, rfl, hr⟩ := (yields_value_union ht hb).mp h
      obtain ⟨b, hindex, hbody, htype⟩ := yields_alternative.mp halt
      obtain ⟨m, hm, rfl⟩ := Normalize.memberIndex?_eq_some hindex
      obtain rfl := hbody.union_eq hb
      have hmem : (ms.map (·.type.subst ((set.decl id).typeParams.zip args)))[index]? =
          some type := by
        rw [Members.toFields] at htype
        rw [← htype, List.getElem?_map, hm]
        rfl
      have hlt : payload.weight < l.weight := by
        rcases hl with rfl | ⟨rfl, rfl⟩
        · exact Literal.weight_lt_of_mem_entries (List.mem_singleton_self (_, payload))
        · exact Nat.zero_lt_one
      exact .union ht hb hm hl hbody hmem (ih_part payload hlt _ type w hr)
    | enum ms =>
      obtain ⟨index, rfl, hr⟩ := (yields_value_enum ht hb).mp h
      obtain ⟨name, hindex, hl⟩ := Normalize.label_eq_ok_iff.mp hr
      rw [Decl.members, hb] at hindex
      obtain ⟨m, hm, rfl⟩ := Normalize.memberIndex?_eq_some hindex
      exact .enum ht hb hm hl
    | newtype target d =>
      obtain ⟨type, c, w, hbody, rfl, rfl, hu, hr⟩ := (yields_value_newtype ht hb).mp h
      exact .newtype ht hb hbody (ih_chain c (Nat.lt_succ_self c) type w hr)
        (Normalize.checkUnique_eq_ok_iff.mp hu)
    | «alias» target =>
      have ha : set.isAlias id := by rw [ModuleSet.isAlias, Decl.isAlias, hb]
      exact absurd ⟨id, rfl, ha⟩ ht.no_alias

/-- What a literal is read as, it denotes. -/
theorem denotes_of_yields_value
    (h : Yields ((plain set).value location (n + 1) l chain t) v) : Denotes set n l v t := by
  induction n using Nat.strongRecOn generalizing l chain t v with
  | ind n ih_default =>
    generalize hw : l.weight = w at h
    induction w using Nat.strongRecOn generalizing l chain t v with
    | ind w ih_part =>
      subst hw
      induction chain using Nat.strongRecOn generalizing t v with
      | ind chain ih_chain =>
        exact denotes_of_step (fun k hk l chain t v => ih_default k hk)
          (fun l' hl' chain t v h => ih_part l'.weight hl' h rfl)
          (fun c hc t v h => ih_chain c hc h) h

/-! ### Completeness -/

/-- A literal is read as `v`, whenever the chain of types may be as long as it is. -/
def Reads (set : ModuleSet) (location : Location) (n : Nat) (l : Literal) (v : Value)
    (t : TypeExpr) : Prop :=
  ∃ s k u, set.Chain l.isNull s k t u ∧ set.Last l.isNull u ∧
    ∀ chain, k ≤ chain → Yields ((plain set).value location (n + 1) l chain t) v

/-- The chain is long enough where a part of a literal is read. -/
theorem Reads.yields (h : Reads set location n l v t) :
    Yields ((plain set).value location (n + 1) l (set.chainBound t) t) v := by
  obtain ⟨s, k, u, hc, hu, h⟩ := h
  exact h _ (hc.le_bound hu)

/-- At a type that takes the literal apart, the length of the chain does not matter. -/
theorem reads_of_last (ht : set.Expands t u) (hu : set.Last l.isNull u)
    (h : ∀ chain, Yields ((plain set).value location (n + 1) l chain t) v) :
    Reads set location n l v t := by
  obtain ⟨s, hc⟩ := ht.chain l.isNull
  exact ⟨s, 0, u, hc, hu, fun chain _ => h chain⟩

/-- At a newtype and at `Nullable` one more type of the chain is read. -/
theorem reads_of_link {w : Value} {type : TypeExpr} (ht : set.Expands t u)
    (hlink : set.Link l.isNull u 1 type) (hr : Reads set location n l w type)
    (h : ∀ chain, Yields ((plain set).value location (n + 1) l chain type) w →
      Yields ((plain set).value location (n + 1) l (chain + 1) t) v) :
    Reads set location n l v t := by
  obtain ⟨s, hc⟩ := ht.chain l.isNull
  obtain ⟨s', k, u', hc', hu', hr⟩ := hr
  refine ⟨s + (s' + 1), 0 + (1 + k), u', hc.trans (.link hlink hc'), hu', ?_⟩
  intro chain hle
  obtain ⟨c, rfl⟩ : ∃ c, chain = c + 1 := ⟨chain - 1, by omega⟩
  exact h c (hr c (by omega))

theorem reads_struct {id : DeclId} {args types : List TypeExpr} {ms : List Member}
    {entries : List (String × Literal)} {sources : List (Nat × Literal)} {vs : List Value}
    (ht : set.Expands t (.mk (.decl id) args)) (hbody : (set.decl id).body = .struct ms)
    (htypes : set.BodyAt id args (.fields types)) (hkeys : (entries.map Prod.fst).Nodup)
    (hknown : ∀ key ∈ entries.map Prod.fst, key ∈ ms.map Member.serializedName)
    (hsources : List.Forall₂ (FieldSource entries n) ms sources) (hlen : vs.length = ms.length)
    (h : ∀ s type v, (s, type, v) ∈ sources.zip (types.zip vs) →
      Reads set location s.1 s.2 v type) :
    Reads set location n (.object entries) (.struct id vs) t := by
  refine reads_of_last ht (ModuleSet.last_of_struct hbody) fun chain => ?_
  have hc : Normalize.checkFields (set.decl id) [] entries = .ok () := by
    refine Normalize.checkFields_eq_ok_iff.mpr ⟨hkeys, fun _ _ => List.not_mem_nil, ?_⟩
    rw [Decl.members, hbody]
    exact hknown
  have hms : ms.length = types.length := by
    cases htypes.struct_eq hbody
    rw [List.length_map]
  refine (yields_value_struct ht hbody).mpr ⟨entries, _, vs, rfl, htypes, hc, rfl, ?_⟩
  refine (yields_fieldValues_iff hkeys hms).mpr ⟨sources, hsources, hlen, ?_⟩
  exact fun s type v hmem => (h s type v hmem).yields

/-- What a literal denotes, it is read as. -/
theorem reads_of_denotes (hd : set.DistinctNames) (h : Denotes set n l v t) :
    Reads set location n l v t := by
  induction h with
  | @scalar n l v t p args ht h =>
    have hp := Normalize.ne_of_denotesScalar h
    refine reads_of_last ht (ModuleSet.last_of_primitive hp.2.2) fun chain => ?_
    exact (yields_value_scalar ht hp).mpr ((Normalize.scalar_eq_ok_iff hp).mpr h)
  | vector ht hlen _ ih =>
    refine reads_of_last ht (ModuleSet.last_of_primitive (by simp)) fun chain => ?_
    refine (yields_value_vector ht).mpr ⟨_, _, _, _, rfl, rfl, rfl, ?_⟩
    exact yields_elements_iff.mpr ⟨hlen, fun l v hmem => (ih l v hmem).yields⟩
  | stringMap ht hkeys heq _ ih =>
    refine reads_of_last ht (ModuleSet.last_of_primitive (by simp)) fun chain => ?_
    refine (yields_value_stringMap ht).mpr ⟨_, _, _, _, rfl, rfl, rfl, ?_⟩
    exact yields_mapEntries_iff.mpr ⟨⟨hkeys, fun _ _ => List.not_mem_nil⟩, heq,
      fun e w hmem => (ih e w hmem).yields⟩
  | absent ht =>
    refine reads_of_last ht ModuleSet.last_of_null fun chain => ?_
    exact (yields_value_nullable ht).mpr (.inl ⟨rfl, rfl⟩)
  | present ht hl _ ih =>
    refine reads_of_link ht (.nullable (Literal.isNull_eq_false_iff.mpr hl)) ih ?_
    exact fun chain h => (yields_value_nullable ht).mpr
      (.inr ⟨hl, _, _, chain, _, rfl, rfl, rfl, h⟩)
  | struct ht hbody htypes hkeys hknown hsources hlen _ ih =>
    exact reads_struct ht hbody htypes hkeys hknown hsources hlen ih
  | @union n l payload v t type id args types ms index m ht hbody hm hl htypes htype _ ih =>
    refine reads_of_last ht (ModuleSet.last_of_union hbody) fun chain => ?_
    have hnd := hd id
    rw [Decl.members, hbody] at hnd
    refine (yields_value_union ht hbody).mpr
      ⟨m.serializedName, payload, index, type, v, hl, ?_, rfl, ih.yields⟩
    refine yields_alternative.mpr ⟨_, Normalize.memberIndex?_of_getElem? hnd hm, htypes, ?_⟩
    rw [Members.toFields, htype, Option.getD_some]
  | @enum n l t id args ms index m ht hbody hm hl =>
    refine reads_of_last ht (ModuleSet.last_of_enum hbody) fun chain => ?_
    have hnd := hd id
    rw [Decl.members, hbody] at hnd
    refine (yields_value_enum ht hbody).mpr ⟨index, rfl, ?_⟩
    refine Normalize.label_eq_ok_iff.mpr ⟨m.serializedName, ?_, hl⟩
    rw [Decl.members, hbody]
    exact Normalize.memberIndex?_of_getElem? hnd hm
  | newtype ht hbody htarget _ hu ih =>
    refine reads_of_link ht (.newtype hbody htarget) ih ?_
    exact fun chain h => (yields_value_newtype ht hbody).mpr
      ⟨_, chain, _, htarget, rfl, rfl, Normalize.checkUnique_eq_ok_iff.mpr hu, h⟩

/-- The normalization returns the value that the literal denotes, and only if there is one. -/
theorem yields_normalize_iff (hd : set.DistinctNames) :
    Yields ((plain set).normalize l t location) v ↔ Denotes set maxDefaultDepth l v t := by
  rw [normalize, yields_adapt]
  exact ⟨denotes_of_yields_value, fun h => (reads_of_denotes hd h).yields⟩

/-! ### The values of a resolved set -/

/-- At every type over a resolved set, the normalization of a literal is the value it denotes. -/
theorem normalize_eq_ok_iff_denotes {modules : List Source.Module}
    (h : ModuleSet.resolve modules = .ok set) :
    ((plain set).normalize l t location).run = .ok v ↔ Denotes set maxDefaultDepth l v t :=
  yields_normalize_iff (resolve_eq_ok_iff.mp h).distinctNames

/-- The module of `struct Point { Int8 x; Int8 y = 7; };`, as it is parsed. -/
def pointModule : Source.Module :=
  let int8 : Source.TypeExpr := .mk "Int8" [] .start
  ⟨"geometry", [], [⟨"Point", [], [], .struct
    [⟨"x", "x", int8, none, [], .start⟩, ⟨"y", "y", int8, some (.integer 7), [], .start⟩],
    .start⟩], []⟩

/-- What `pointModule` resolves to. -/
def pointSet : ModuleSet :=
  let int8 : TypeExpr := .mk (.primitive .int8) []
  ⟨[⟨"geometry", [], [0], []⟩],
    [⟨0, "geometry", "Point", [], [], .struct
      [⟨"x", "x", int8, none, []⟩, ⟨"y", "y", int8, some (.integer 7), []⟩]⟩],
    [(⟨"geometry", "Point"⟩, 0)]⟩

/-- A struct literal denotes the struct that is completed by the default of `y`. -/
theorem point_denotes :
    ModuleSet.resolve [pointModule] = .ok pointSet ∧
      ((plain pointSet).normalize (.object [("x", .integer 1)]) (.mk (.decl 0) [])
        (.ofModule "geometry")).run = .ok (.struct 0 [.int 1, .int 7]) ∧
      Denotes pointSet maxDefaultDepth (.object [("x", .integer 1)]) (.struct 0 [.int 1, .int 7])
        (.mk (.decl 0) []) := by
  have hset : ModuleSet.resolve [pointModule] = .ok pointSet := rfl
  have hvalue : ((plain pointSet).normalize (.object [("x", .integer 1)]) (.mk (.decl 0) [])
      (.ofModule "geometry")).run = .ok (.struct 0 [.int 1, .int 7]) := by cbv
  exact ⟨hset, hvalue, (normalize_eq_ok_iff_denotes hset).mp hvalue⟩

/-- A finite double that is infinite in 32 bits denotes nothing at `Float`, in a set that passes
all checks. -/
theorem large_double_no_float :
    ModuleSet.resolve [pointModule] = .ok pointSet ∧ pointSet.checkAll = .ok () ∧
      (Double.ofDecimal false 35 37).isFinite ∧
      ¬ ∃ v, ((plain pointSet).normalize (.double (Double.ofDecimal false 35 37))
        (.mk (.primitive .float) []) (.ofModule "geometry")).run = .ok v := by
  refine ⟨rfl, rfl, by decide +kernel, ?_⟩
  rintro ⟨v, h⟩
  have hlarge : (Double.ofDecimal false 35 37).overflowsSingle = true := by decide +kernel
  have hfloat : pointSet.Expands (.mk (.primitive .float) []) (.mk (.primitive .float) []) :=
    .of_primitive _ _
  have hv := (yields_value_scalar hfloat (by decide)).mp (yields_adapt.mp h)
  simp only [Normalize.scalar, Primitive.range?, hlarge, if_true] at hv
  cases hv

end Graph

end Adl
