import Adl.Proofs.Value.Distinct

/-!
# Collections — sets and maps repeat nothing

The items of a set are values of one type, and so are the keys of a map, which are the first fields
of its items.  A literal is accepted only if their canonical literals differ, so that items and keys
which are plain also differ as data (`normalize_distinct`).  Two that are not plain may be the same
data.
-/

namespace Adl

open Relation (ReflTransGen)

variable {set : ModuleSet} {n k : Nat} {l l' : Literal} {v w : Value} {t u : TypeExpr}

/-- The canonical literals of values differ, and the values differ as data if they are plain. -/
def ModuleSet.Distinct (set : ModuleSet) (vs : List Value) : Prop :=
  vs.Pairwise fun v w => ¬ (v.toLiteral set).same (w.toLiteral set) ∧
    ∀ r : String → String → Prop, (∀ a b, r a b → ¬ r b a) → v.Plain r → w.Plain r →
      ¬ (v.toLiteral set).toJson.same (w.toLiteral set).toJson

/-! ### Keys -/

theorem Value.key_eq_or (v : Value) :
    v.key = v ∨ ∃ id first rest, v = .struct id (first :: rest) := by
  cases v with
  | struct id vs =>
    cases vs with
    | nil => exact .inl rfl
    | cons first rest => exact .inr ⟨id, first, rest, rfl⟩
  | _ => exact .inl rfl

/-- The values of a struct with a field have a field, which is the key. -/
theorem Denotes.eq_struct_key {id : DeclId} {args : List TypeExpr} {m : Member} {ms : List Member}
    (h : Denotes set n l v t) (ht : set.Expands t (.mk (.decl id) args))
    (hbody : (set.decl id).body = .struct (m :: ms)) :
    ∃ fields, v = .struct id (v.key :: fields) := by
  have hshape := h.shape ht
  simp only [ModuleSet.Shape, TypeExpr.head, hbody] at hshape
  obtain ⟨vs, rfl, hlen⟩ := hshape
  cases vs with
  | nil => cases hlen
  | cons first rest => exact ⟨rest, rfl⟩

/-- If the key of a value is its first field, then so it is for all values of the type, and the
keys are of the type of this field. -/
theorem Denotes.contains_key {id : DeclId} {first : Value} {rest : List Value}
    (h : Denotes set n l (.struct id (first :: rest)) t) :
    ∃ u, ∀ {k l' w}, Denotes set k l' w t → set.Contains (w, t) (w.key, u) := by
  cases h with
  | scalar _ hs => cases hs
  | @struct _ _ _ args _ ms _ _ _ ht hbody htypes _ _ _ hlen _ =>
    cases ms with
    | nil => cases hlen
    | cons m ms =>
      rw [htypes.struct_eq hbody] at htypes
      refine ⟨m.type.subst ((set.decl id).typeParams.zip args), fun {k l' w} hw => ?_⟩
      obtain ⟨fields, hfields⟩ := hw.eq_struct_key ht hbody
      generalize w.key = key at hfields ⊢
      subst hfields
      exact .field ht htypes (i := 0) rfl rfl

/-- Plain keys of values of one type that are the same data have the same canonical literal. -/
theorem Denotes.separated_key {r : String → String → Prop} (hnames : set.DistinctNames)
    (hr : ∀ a b, r a b → ¬ r b a) (hv : Denotes set n l v t) (hw : Denotes set k l' w t) :
    set.Separated r v.key w.key := by
  -- A first field of either value is of the same type as that of the other.
  have hfirst {u} (hcv : set.Contains (v, t) (v.key, u)) (hcw : set.Contains (w, t) (w.key, u)) :
      set.Separated r v.key w.key := by
    obtain ⟨_, _, hkv⟩ := hv.exists_of_contains hcv
    obtain ⟨_, _, hkw⟩ := hw.exists_of_contains hcw
    exact hkv.separated hnames hr hkw
  rcases v.key_eq_or with hkv | ⟨id, first, rest, rfl⟩
  · rcases w.key_eq_or with hkw | ⟨id, first, rest, rfl⟩
    · rw [hkv, hkw]
      exact hv.separated hnames hr hw
    · obtain ⟨u, hu⟩ := hw.contains_key
      exact hfirst (hu hv) (hu hw)
  · obtain ⟨u, hu⟩ := hv.contains_key
    exact hfirst (hu hv) (hu hw)

/-! ### Values that repeat nothing -/

theorem Denotes.exists_items {args : List TypeExpr} (h : Denotes set n l v t)
    (ht : set.Expands t (.mk (.primitive .vector) args)) :
    ∃ items elem, v = .vector items ∧ args.head? = some elem ∧
      ∀ item ∈ items, ∃ k l', Denotes set k l' item elem := by
  obtain ⟨items, rfl⟩ := h.shape ht
  cases h with
  | scalar _ hs => cases hs
  | @vector _ _ elem rest literals _ ht' hlen hitems =>
    cases ht.unique ht'
    refine ⟨items, elem, rfl, rfl, fun item hitem => ?_⟩
    obtain ⟨l, hl⟩ := exists_mem_zip hlen hitem
    exact ⟨_, l, hitems l item hl⟩

/-- In every value that a literal is accepted for, no set repeats an item and no map a key: their
canonical literals differ, and they differ as data if they are plain. -/
theorem normalize_distinct {modules : List Source.Module} {location : Location} {inner : Value}
    {id : DeclId} {args : List TypeExpr} {default : Option Literal}
    (h : ModuleSet.resolve modules = .ok set)
    (hv : ((Graph.plain set).normalize l t location).run = .ok v)
    (hpart : ReflTransGen set.Contains (v, t) (.newtype id inner, u))
    (hbody : (set.decl id).body = .newtype (.mk (.primitive .vector) args) default) :
    ∃ items, inner = .vector items ∧
      (set.scopedName id = ⟨"sys.types", "Set"⟩ → set.Distinct items) ∧
      (set.scopedName id = ⟨"sys.types", "Map"⟩ → set.Distinct (items.map Value.key) ∧
        ∀ pair pairArgs m ms, args = [.mk (.decl pair) pairArgs] →
          (set.decl pair).body = .struct (m :: ms) →
            ∀ item ∈ items, ∃ fields, item = .struct pair (item.key :: fields)) := by
  have hnames := (resolve_eq_ok_iff.mp h).distinctNames
  have hdenotes := (Graph.yields_normalize_iff hnames).mp hv
  obtain ⟨k, l, -, hnewtype⟩ := hdenotes.part set.inherits_true trivial hpart
  cases hnewtype with
  | scalar _ hs => cases hs
  | newtype ht hbody' htarget hinner hu =>
    cases hbody.symm.trans hbody'
    have htype := htarget.body_eq
    rw [hbody, Body.subst, Members.target.injEq, TypeExpr.subst_primitive] at htype
    subst htype
    obtain ⟨items, elem, rfl, helem, hitems⟩ := hinner.exists_items (.of_primitive _ _)
    obtain ⟨hset, hmap⟩ := hu items rfl
    refine ⟨items, rfl, fun hname => ?_, fun hname => ⟨?_, ?_⟩⟩
    · refine (hset hname).imp_of_mem fun {v w} hv hw hne => ⟨hne, fun r hr hvp hwp hsame => ?_⟩
      obtain ⟨_, _, hv⟩ := hitems v hv
      obtain ⟨_, _, hw⟩ := hitems w hw
      exact hne (hv.separated hnames hr hw hvp hwp hsame)
    · rw [ModuleSet.Distinct, List.pairwise_map]
      refine (hmap hname).imp_of_mem fun {v w} hv hw hne => ⟨hne, fun r hr hvp hwp hsame => ?_⟩
      obtain ⟨_, _, hv⟩ := hitems v hv
      obtain ⟨_, _, hw⟩ := hitems w hw
      exact hne (hv.separated_key hnames hr hw hvp hwp hsame)
    · rintro pair pairArgs m ms rfl hpair item hitem
      obtain ⟨_, _, hitem⟩ := hitems item hitem
      rw [List.map_singleton, TypeExpr.subst_decl, List.head?_cons, Option.some.injEq] at helem
      subst helem
      refine hitem.eq_struct_key (.of_decl ?_ _) hpair
      rw [ModuleSet.isAlias, Decl.isAlias, hpair]
      exact Bool.false_ne_true

/-- The module of `newtype Set<T> = Vector<T>;`, as it is parsed. -/
def setModule : Source.Module :=
  ⟨"sys.types", [], [⟨"Set", ["T"], [],
    .newtype (.mk "Vector" [.mk "T" [] .start] .start) none, .start⟩], []⟩

/-- What `setModule` resolves to. -/
def setSet : ModuleSet :=
  ⟨[⟨"sys.types", [], [0], []⟩],
    [⟨0, "sys.types", "Set", ["T"], [], .newtype (.mk (.primitive .vector) [.param "T"]) none⟩],
    [(⟨"sys.types", "Set"⟩, 0)]⟩

/-- The type `Set<StringMap<Int32>>`. -/
def countsType : TypeExpr :=
  .mk (.decl 0) [.mk (.primitive .stringMap) [.mk (.primitive .int32) []]]

/-- The map of `{"a": 1, "b": i}`. -/
def counts (i : Int) : Value := .stringMap [("a", .int 1), ("b", .int i)]

/-- The map of `{"b": 2, "a": 1}`. -/
def swappedCounts : Value := .stringMap [("b", .int 2), ("a", .int 1)]

theorem plain_counts (i : Int) : (counts i).Plain (· < ·) := by
  refine .stringMap (.cons ?_ (List.pairwise_singleton ..)) fun e he => ?_
  · intro key hkey
    cases List.mem_singleton.mp hkey
    exact (by decide : "a" < "b")
  · simp only [List.mem_cons, List.not_mem_nil, or_false] at he
    rcases he with rfl | rfl
    · exact .int 1
    · exact .int i

/-- Two maps of a set differ in what they say.  But a set of two maps that say the same in another
order is accepted. -/
theorem counts_distinct :
    ModuleSet.resolve [setModule] = .ok setSet ∧
      ((Graph.plain setSet).normalize
        (.array [(counts 2).toLiteral setSet, (counts 3).toLiteral setSet]) countsType
        (.ofModule "sys.types")).run = .ok (.newtype 0 (.vector [counts 2, counts 3])) ∧
      ¬ ((counts 2).toLiteral setSet).toJson.same ((counts 3).toLiteral setSet).toJson ∧
      ((Graph.plain setSet).normalize
        (.array [(counts 2).toLiteral setSet, swappedCounts.toLiteral setSet]) countsType
        (.ofModule "sys.types")).run = .ok (.newtype 0 (.vector [counts 2, swappedCounts])) ∧
      ((counts 2).toLiteral setSet).toJson.same (swappedCounts.toLiteral setSet).toJson := by
  have hset : ModuleSet.resolve [setModule] = .ok setSet := by cbv
  have hvalue : ((Graph.plain setSet).normalize
      (.array [(counts 2).toLiteral setSet, (counts 3).toLiteral setSet]) countsType
      (.ofModule "sys.types")).run = .ok (.newtype 0 (.vector [counts 2, counts 3])) := by cbv
  refine ⟨hset, hvalue, ?_, by cbv, by decide +kernel⟩
  obtain ⟨items, hitems, hdistinct, -⟩ := normalize_distinct hset hvalue .refl rfl
  cases hitems
  have hdiffer := (List.pairwise_cons.mp (hdistinct rfl)).1 (counts 3) (List.mem_singleton_self _)
  exact hdiffer.2 (· < ·) (fun a b => List.lt_asymm) (plain_counts 2) (plain_counts 3)

end Adl
