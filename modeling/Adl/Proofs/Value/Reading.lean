import Adl.Proofs.Value.Links
import Adl.Proofs.Value.Parts

/-!
# Reading — one step of the reading of a literal

Says for each kind of type when `Graph.value` returns a value, in terms of what it returns for the
parts.  Aliases, locations and the text of failures are gone from these statements, and so are the
loops over items, entries and fields: every part is read at its own type, independently of the
others.
-/

namespace Adl.Graph

variable {set : ModuleSet} {location : Location} {n chain : Nat} {l : Literal} {t u : TypeExpr}
  {v : Value} {α : Type} {a : α} {args : List TypeExpr} {id : DeclId}

/-! ### Steps -/

theorem not_yields_fault {f : DefaultFault} : ¬ Yields (fault f : ExceptT Failure Id α) a :=
  not_yields_throw

theorem yields_checked {x : Except DefaultFault α} :
    Yields (checked x : ExceptT Failure Id α) a ↔ x = .ok a := by
  cases x with
  | ok b => exact yields_pure.trans ⟨fun h => h ▸ rfl, fun h => Except.ok.inj h⟩
  | error f => exact ⟨fun h => absurd h not_yields_fault, fun h => by cases h⟩

theorem yields_typed {x : ExceptT TypeError Id α} : Yields (typed x) a ↔ Yields x a := yields_adapt

theorem yields_within {segment : String} {x : ExceptT Failure Id α} :
    Yields (within segment x) a ↔ Yields x a := yields_adapt

/-- A step after the expansion of a type is made with the expanded type. -/
theorem yields_expanded (ht : set.Expands t u) {f : TypeExpr → ExceptT Failure Id α} :
    Yields (do let t ← typed ((plain set).expand t location); f t) a ↔ Yields (f u) a := by
  rw [yields_bind]
  simp only [yields_typed, yields_expand_iff]
  constructor
  · rintro ⟨w, hw, h⟩
    rwa [ht.unique hw]
  · exact fun h => ⟨u, ht, h⟩

/-! ### The value at each kind of type -/

/-- A value is read at the expanded type. -/
theorem expands_of_yields_value (h : Yields ((plain set).value location (n + 1) l chain t) v) :
    ∃ u, set.Expands t u := by
  rw [value, yields_bind] at h
  obtain ⟨u, hu, -⟩ := h
  exact ⟨u, yields_expand_iff.mp (yields_typed.mp hu)⟩

theorem yields_value_typeParam {name : String} (ht : set.Expands t (.mk (.typeParam name) args)) :
    ¬ Yields ((plain set).value location (n + 1) l chain t) v := by
  rw [value, yields_expanded ht]
  exact not_yields_fault

theorem yields_value_vector (ht : set.Expands t (.mk (.primitive .vector) args)) :
    Yields ((plain set).value location (n + 1) l chain t) v ↔
      ∃ items elem rest vs, l = .array items ∧ args = elem :: rest ∧ v = .vector vs ∧
        Yields ((plain set).elements location (n + 1) items 0 elem) vs := by
  rw [value, yields_expanded ht]
  dsimp only [TypeExpr.head, TypeExpr.args]
  cases l with
  | array items =>
    cases args with
    | nil => simp [not_yields_fault]
    | cons elem rest => simp [yields_map, and_comm]
  | _ => simp [not_yields_fault]

theorem yields_value_stringMap (ht : set.Expands t (.mk (.primitive .stringMap) args)) :
    Yields ((plain set).value location (n + 1) l chain t) v ↔
      ∃ entries elem rest vs, l = .object entries ∧ args = elem :: rest ∧ v = .stringMap vs ∧
        Yields ((plain set).mapEntries location (n + 1) entries [] elem) vs := by
  rw [value, yields_expanded ht]
  dsimp only [TypeExpr.head, TypeExpr.args]
  cases l with
  | object entries =>
    cases args with
    | nil => simp [not_yields_fault]
    | cons elem rest => simp [yields_map, and_comm]
  | _ => simp [not_yields_fault]

theorem yields_value_nullable (ht : set.Expands t (.mk (.primitive .nullable) args)) :
    Yields ((plain set).value location (n + 1) l chain t) v ↔
      l = .null ∧ v = .absent ∨
        l ≠ .null ∧ ∃ elem rest chain' w, args = elem :: rest ∧ chain = chain' + 1 ∧
          v = .present w ∧ Yields ((plain set).value location (n + 1) l chain' elem) w := by
  rw [value, yields_expanded ht]
  dsimp only [TypeExpr.head, TypeExpr.args]
  cases l with
  | null => simp [yields_pure, eq_comm]
  | _ =>
    cases args with
    | nil => simp [not_yields_fault]
    | cons elem rest =>
      cases chain with
      | zero => simp [not_yields_fault]
      | succ chain => simp [yields_map, and_comm]

theorem yields_value_scalar {p : Primitive} (ht : set.Expands t (.mk (.primitive p) args))
    (hp : p ≠ .vector ∧ p ≠ .stringMap ∧ p ≠ .nullable) :
    Yields ((plain set).value location (n + 1) l chain t) v ↔ Normalize.scalar p l = .ok v := by
  rw [value, yields_expanded ht, ← yields_checked]
  dsimp only [TypeExpr.head, TypeExpr.args]
  cases p <;> first | rfl | simp at hp

theorem yields_value_struct {ms : List Member} (ht : set.Expands t (.mk (.decl id) args))
    (hb : (set.decl id).body = .struct ms) :
    Yields ((plain set).value location (n + 1) l chain t) v ↔
      ∃ entries b vs, l = .object entries ∧ set.BodyAt id args b ∧
        Normalize.checkFields (set.decl id) [] entries = .ok () ∧ v = .struct id vs ∧
          Yields ((plain set).fieldValues location (n + 1) entries (ms.zip b.toFields)) vs := by
  rw [value, yields_expanded ht]
  dsimp only [TypeExpr.head, TypeExpr.args, plain_set]
  rw [hb]
  cases l with
  | object entries =>
    simp only [yields_bind, yields_pure, yields_typed, yields_checked, yields_members]
    constructor
    · rintro ⟨b, hmem, _, hc, vs, hvs, rfl⟩
      exact ⟨entries, b, vs, rfl, hmem, hc, rfl, hvs⟩
    · rintro ⟨_, b, vs, he, hmem, hc, rfl, hvs⟩
      cases he
      exact ⟨b, hmem, (), hc, vs, hvs, rfl⟩
  | _ => simp [not_yields_fault]

theorem yields_alternative {ms : List Member} {name : String} {index : Nat} {type : TypeExpr} :
    Yields ((plain set).alternative location id args ms name) (index, type) ↔
      ∃ b, Normalize.memberIndex? ms name = some index ∧ set.BodyAt id args b ∧
        b.toFields[index]?.getD default = type := by
  unfold alternative
  cases h : Normalize.memberIndex? ms name with
  | none => simp [not_yields_fault]
  | some i =>
    simp only [yields_bind, yields_pure, yields_typed, yields_members, Option.some.injEq]
    constructor
    · rintro ⟨b, hmem, hp⟩
      cases hp
      exact ⟨b, rfl, hmem, rfl⟩
    · rintro ⟨b, rfl, hmem, rfl⟩
      exact ⟨b, hmem, rfl⟩

theorem yields_value_union {ms : List Member} (ht : set.Expands t (.mk (.decl id) args))
    (hb : (set.decl id).body = .union ms) :
    Yields ((plain set).value location (n + 1) l chain t) v ↔
      ∃ name payload index type w,
        (l = .object [(name, payload)] ∨ l = .string name ∧ payload = .null) ∧
        Yields ((plain set).alternative location id args ms name) (index, type) ∧
        v = .union id index w ∧
          Yields ((plain set).value location (n + 1) payload (set.chainBound type) type) w := by
  rw [value, yields_expanded ht]
  dsimp only [TypeExpr.head, TypeExpr.args, plain_set]
  rw [hb]
  dsimp only
  split
  · next name =>
    simp only [yields_bind, yields_pure, yields_within, yields_adapt, Prod.exists]
    constructor
    · rintro ⟨index, type, halt, w, hw, rfl⟩
      exact ⟨name, .null, index, type, w, .inr ⟨rfl, rfl⟩, halt, rfl, hw⟩
    · rintro ⟨_, _, index, type, w, hl, halt, rfl, hw⟩
      rcases hl with hl | ⟨hl, rfl⟩
      · cases hl
      · cases hl
        exact ⟨index, type, halt, w, hw, rfl⟩
  · next name payload =>
    simp only [yields_bind, yields_pure, yields_within, Prod.exists]
    constructor
    · rintro ⟨index, type, halt, w, hw, rfl⟩
      exact ⟨name, payload, index, type, w, .inl rfl, halt, rfl, hw⟩
    · rintro ⟨_, _, index, type, w, hl, halt, rfl, hw⟩
      rcases hl with hl | ⟨hl, -⟩
      · cases hl
        exact ⟨index, type, halt, w, hw, rfl⟩
      · cases hl
  · next entries hne =>
    constructor
    · exact fun h => absurd h not_yields_fault
    · rintro ⟨name, payload, _, _, _, hl | ⟨hl, -⟩, _⟩
      · cases hl
        exact absurd rfl (hne name payload)
      · cases hl
  · next hs ho hn =>
    constructor
    · exact fun h => absurd h not_yields_fault
    · rintro ⟨name, payload, _, _, _, hl | ⟨hl, -⟩, _⟩
      · exact absurd hl (hn _)
      · exact absurd hl (hs name)

theorem yields_value_enum {ms : List Member} (ht : set.Expands t (.mk (.decl id) args))
    (hb : (set.decl id).body = .enum ms) :
    Yields ((plain set).value location (n + 1) l chain t) v ↔
      ∃ index, v = .enum id index ∧ Normalize.label (set.decl id) l = .ok index := by
  rw [value, yields_expanded ht]
  dsimp only [TypeExpr.head, TypeExpr.args, plain_set]
  rw [hb]
  simp only [yields_bind, yields_pure, yields_checked]
  constructor
  · rintro ⟨index, h, rfl⟩
    exact ⟨index, rfl, h⟩
  · rintro ⟨index, rfl, h⟩
    exact ⟨index, h, rfl⟩

theorem yields_value_newtype {target : TypeExpr} {d : Option Literal}
    (ht : set.Expands t (.mk (.decl id) args)) (hb : (set.decl id).body = .newtype target d) :
    Yields ((plain set).value location (n + 1) l chain t) v ↔
      ∃ type chain' w, set.BodyAt id args (.target type) ∧ chain = chain' + 1 ∧
        v = .newtype id w ∧ Normalize.checkUnique set (set.decl id) w = .ok () ∧
          Yields ((plain set).value location (n + 1) l chain' type) w := by
  rw [value, yields_expanded ht]
  dsimp only [TypeExpr.head, TypeExpr.args, plain_set]
  rw [hb]
  simp only [yields_bind, yields_typed, yields_members]
  constructor
  · rintro ⟨b, hmem, h⟩
    cases b with
    | fields types => exact absurd h not_yields_fault
    | target type =>
      cases chain with
      | zero => exact absurd h not_yields_fault
      | succ chain =>
        simp only [Members.target?, yields_bind, yields_pure, yields_checked] at h
        obtain ⟨w, hw, _, hu, rfl⟩ := h
        exact ⟨type, chain, w, hmem, rfl, rfl, hu, hw⟩
  · rintro ⟨type, chain, w, hmem, rfl, rfl, hu, hw⟩
    refine ⟨_, hmem, ?_⟩
    simp only [Members.target?, yields_bind, yields_pure, yields_checked]
    exact ⟨w, hw, (), hu, rfl⟩

/-! ### Items, entries and fields -/

/-- The items of an array are read one by one. -/
theorem yields_elements_iff {items : List Literal} {index : Nat} {elem : TypeExpr}
    {vs : List Value} :
    Yields ((plain set).elements location n items index elem) vs ↔
      items.length = vs.length ∧ ∀ l v, (l, v) ∈ items.zip vs →
        Yields ((plain set).value location n l (set.chainBound elem) elem) v := by
  induction items generalizing index vs with
  | nil =>
    rw [elements, yields_pure]
    cases vs <;> simp
  | cons item items ih =>
    rw [elements]
    simp only [yields_bind, yields_pure, yields_within, ih, plain_set]
    constructor
    · rintro ⟨w, hw, ws, ⟨hlen, hws⟩, rfl⟩
      refine ⟨congrArg (· + 1) hlen, ?_⟩
      intro l v hmem
      rcases List.mem_cons.mp hmem with h | h
      · cases h
        exact hw
      · exact hws l v h
    · rintro ⟨hlen, hvs⟩
      cases vs with
      | nil => cases hlen
      | cons w ws =>
        exact ⟨w, hvs item w List.mem_cons_self, ws, ⟨Nat.succ.inj hlen,
          fun l v h => hvs l v (List.mem_cons_of_mem _ h)⟩, rfl⟩

/-- The entries of a map are read one by one, and no key is repeated. -/
theorem yields_mapEntries_iff {entries : List (String × Literal)} {seen : List String}
    {elem : TypeExpr} {vs : List (String × Value)} :
    Yields ((plain set).mapEntries location n entries seen elem) vs ↔
      ((entries.map Prod.fst).Nodup ∧ ∀ key ∈ entries.map Prod.fst, key ∉ seen) ∧
        entries.map Prod.fst = vs.map Prod.fst ∧ ∀ e w, (e, w) ∈ entries.zip vs →
          Yields ((plain set).value location n e.2 (set.chainBound elem) elem) w.2 := by
  induction entries generalizing seen vs with
  | nil =>
    rw [mapEntries, yields_pure]
    cases vs <;> simp
  | cons e entries ih =>
    obtain ⟨key, l⟩ := e
    rw [mapEntries]
    simp only [List.map_cons, List.nodup_cons, List.forall_mem_cons]
    by_cases hs : key ∈ seen
    · rw [if_pos hs]
      constructor
      · exact fun h => absurd h not_yields_fault
      · rintro ⟨⟨-, hns, -⟩, -⟩
        exact absurd hs hns
    · rw [if_neg hs]
      simp only [yields_bind, yields_pure, yields_within, ih, plain_set]
      constructor
      · rintro ⟨w, hw, ws, ⟨⟨hnd, hseen⟩, heq, hws⟩, rfl⟩
        refine ⟨⟨⟨fun hin => hseen key hin List.mem_cons_self, hnd⟩, hs,
          fun k hk hks => hseen k hk (List.mem_cons_of_mem _ hks)⟩, congrArg (key :: ·) heq, ?_⟩
        intro e v hmem
        rcases List.mem_cons.mp hmem with h | h
        · cases h
          exact hw
        · exact hws e v h
      · rintro ⟨⟨⟨hnot, hnd⟩, -, hseen⟩, heq, hvs⟩
        cases vs with
        | nil => cases heq
        | cons w ws =>
          obtain ⟨hkey, heq⟩ := List.cons.inj heq
          refine ⟨w.2, hvs (key, l) w List.mem_cons_self, ws, ⟨⟨hnd, ?_⟩, heq,
            fun e v h => hvs e v (List.mem_cons_of_mem _ h)⟩, by rw [hkey]⟩
          intro k hk hks
          rcases List.mem_cons.mp hks with rfl | hks
          · exact hnot hk
          · exact hseen k hk hks

/-- A field is read at its source. -/
theorem yields_fieldValue_iff {entries : List (String × Literal)} {m : Member}
    (hnd : (entries.map Prod.fst).Nodup) :
    Yields ((plain set).fieldValue location (n + 1) entries m t) v ↔
      ∃ s, FieldSource entries n m s ∧
        Yields ((plain set).value location (s.1 + 1) s.2 (set.chainBound t) t) v := by
  rw [fieldValue]
  split
  · next l hl =>
    rw [yields_within]
    constructor
    · exact fun h => ⟨(n, l), .given (mem_of_lookup hl), h⟩
    · rintro ⟨s, hs, h⟩
      cases hs with
      | given hmem =>
        cases hl.symm.trans (lookup_of_mem hnd hmem)
        exact h
      | declared hmem _ => exact absurd (List.mem_map_of_mem (mem_of_lookup hl)) hmem
  · next l hl hd =>
    have hnot := not_mem_of_lookup_eq_none hl
    constructor
    · intro h
      rw [yields_within] at h
      cases n with
      | zero =>
        rw [value] at h
        exact absurd h not_yields_fault
      | succ k => exact ⟨(k, l), .declared hnot hd, h⟩
    · rintro ⟨s, hs, h⟩
      cases hs with
      | given hmem => exact absurd (List.mem_map_of_mem hmem) hnot
      | declared _ hd' =>
        cases hd.symm.trans hd'
        exact yields_within.mpr h
  · next hl hd =>
    constructor
    · exact fun h => absurd h not_yields_fault
    · rintro ⟨s, hs, -⟩
      cases hs with
      | given hmem => exact absurd (List.mem_map_of_mem hmem) (not_mem_of_lookup_eq_none hl)
      | declared _ hd' => cases hd.symm.trans hd'

/-- The fields of a struct are read one by one. -/
theorem yields_fieldValues_iff {entries : List (String × Literal)} {ms : List Member}
    {types : List TypeExpr} {vs : List Value} (hnd : (entries.map Prod.fst).Nodup)
    (hlen : ms.length = types.length) :
    Yields ((plain set).fieldValues location (n + 1) entries (ms.zip types)) vs ↔
      ∃ sources, List.Forall₂ (FieldSource entries n) ms sources ∧ vs.length = ms.length ∧
        ∀ s type v, (s, type, v) ∈ sources.zip (types.zip vs) →
          Yields ((plain set).value location (s.1 + 1) s.2 (set.chainBound type) type) v := by
  induction ms generalizing types vs with
  | nil =>
    rw [List.zip_nil_left, fieldValues, yields_pure]
    cases vs <;> simp
  | cons m ms ih =>
    cases types with
    | nil => cases hlen
    | cons type types =>
      rw [List.zip_cons_cons, fieldValues]
      simp only [yields_bind, yields_pure, yields_fieldValue_iff hnd,
        ih (Nat.succ.inj hlen)]
      constructor
      · rintro ⟨w, ⟨s, hs, hw⟩, ws, ⟨sources, hsources, hlen, hws⟩, rfl⟩
        refine ⟨s :: sources, .cons hs hsources, congrArg (· + 1) hlen, ?_⟩
        intro s' type' v' hmem
        rcases List.mem_cons.mp hmem with h | h
        · cases h
          exact hw
        · exact hws s' type' v' h
      · rintro ⟨sources, hsources, hlen, hvs⟩
        obtain ⟨s, ss, hs, hss, rfl⟩ := List.forall₂_cons_left_iff.mp hsources
        cases vs with
        | nil => cases hlen
        | cons w ws =>
          exact ⟨w, ⟨s, hs, hvs s type w List.mem_cons_self⟩, ws, ⟨ss, hss, Nat.succ.inj hlen,
            fun s type v h => hvs s type v (List.mem_cons_of_mem _ h)⟩, rfl⟩

end Adl.Graph
