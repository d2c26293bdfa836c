import Adl.Proofs.Compile.Compiled
import Adl.Proofs.Types.Checked
import Adl.Proofs.Value.Nesting

/-!
# Constructed — structs of which nothing is given

If all fields of a struct have a declared default, two values can be made of the struct without
giving any field: a constructor takes the defaults that were read once, where they are declared,
and the empty literal is completed by the defaults read anew at an instance of the struct.  The two
agree (`value_empty_iff`), as long as the defaults of the struct leave room for one more: the fields
of the literal are read with one nested default less than the defaults themselves.
-/

namespace Adl

/-- The declared defaults of all fields can be read where they are declared, with at most `n`
further defaults nested in each. -/
def DefaultsWithin (set : ModuleSet) (n : Nat) (ms : List Member) : Prop :=
  ∀ m ∈ ms, ∃ l v, m.default = some l ∧ Denotes set n l v m.type

/-- The declared default of a field has been read as `v`. -/
def StoredDefault (set : ModuleSet) (m : Member) (v : Value) : Prop :=
  ∃ l, m.default = some l ∧ Denotes set maxDefaultDepth l v m.type

section

variable {set : ModuleSet} {d : Decl} {m : Member} {ms : List Member} {v w : Value}
  {vs : List Value} {σ : Bindings}

/-- Where all fields have a default, the defaults that were read are those of all fields. -/
theorem stored_of_fieldDefaults {xs : List (Option Value)} (hall : ∀ m ∈ ms, m.default.isSome)
    (h : List.Forall₂ (FieldDefault set d) ms xs) :
    ∃ vs, xs = vs.map some ∧ List.Forall₂ (StoredDefault set) ms vs := by
  induction h with
  | nil => exact ⟨[], rfl, .nil⟩
  | @cons m x ms xs hx _ ih =>
    obtain ⟨hm, hms⟩ := List.forall_mem_cons.mp hall
    obtain ⟨vs, rfl, hvs⟩ := ih hms
    cases hx with
    | none hnone =>
      rw [hnone] at hm
      cases hm
    | @some l v hsome hv => exact ⟨v :: vs, rfl, .cons ⟨l, hsome, hv.denotes⟩ hvs⟩

/-- A field is filled in with its stored default or not at all, at every instance of its type. -/
theorem filledIn_iff (hd : set.DistinctNames) {n : Nat} (hv : StoredDefault set m v) :
    FilledIn set (n + 1) σ m w ↔
      w = v ∧ ∃ l v, m.default = some l ∧ Denotes set n l v m.type := by
  obtain ⟨l, hl, hv⟩ := hv
  constructor
  · rintro ⟨k, l', hk, hl', hw⟩
    cases hk
    cases hl.symm.trans hl'
    exact ⟨hw.unique (hv.subst σ) hd, l, v, hl, hv.of_subst hd hw⟩
  · rintro ⟨rfl, l', v', hl', hv'⟩
    cases hl.symm.trans hl'
    rw [hv.unique hv' hd]
    exact ⟨n, l, rfl, hl, hv'.subst σ⟩

theorem forall₂_filledIn_iff (hd : set.DistinctNames) {n : Nat} {ws : List Value}
    (h : List.Forall₂ (StoredDefault set) ms vs) :
    List.Forall₂ (FilledIn set (n + 1) σ) ms ws ↔ ws = vs ∧ DefaultsWithin set n ms := by
  induction h generalizing ws with
  | nil => simp [DefaultsWithin]
  | @cons m v ms vs hv _ ih =>
    rw [List.forall₂_cons_left_iff]
    simp only [filledIn_iff hd hv, ih, DefaultsWithin, List.forall_mem_cons]
    constructor
    · rintro ⟨w, ws, ⟨rfl, hm⟩, ⟨rfl, hms⟩, rfl⟩
      exact ⟨rfl, hm, hms⟩
    · rintro ⟨rfl, hm, hms⟩
      exact ⟨v, vs, ⟨rfl, hm⟩, ⟨rfl, hms⟩, rfl⟩

end

namespace Compiled

variable {modules : List Source.Module} {c : Compilation} (h : Compiled modules c) {id : DeclId}
  {args : List TypeExpr} {ms : List Member}

include h

theorem value_eq_ok_iff {t : TypeExpr} {l : Literal} {v : Value} :
    c.value t l = .ok v ↔ Denotes c.set maxDefaultDepth l v t :=
  Graph.yields_normalize_iff h.resolved.distinctNames

/-- The stored defaults of a struct all of whose fields have one. -/
theorem exists_stored (hid : id < c.set.decls.length) (hbody : (c.set.decl id).body = .struct ms)
    (hall : ∀ m ∈ ms, m.default.isSome) :
    ∃ vs, c.defaultsOf id = ⟨vs.map some, none⟩ ∧ List.Forall₂ (StoredDefault c.set) ms vs := by
  have hdefaults := h.defaultsOf (List.getElem?_eq_getElem hid)
  rw [hbody] at hdefaults
  generalize c.defaultsOf id = x at hdefaults
  cases hdefaults with
  | struct hfields =>
    obtain ⟨vs, rfl, hvs⟩ := stored_of_fieldDefaults hall hfields
    exact ⟨vs, rfl, hvs⟩

/-- The empty literal at a struct of stored defaults. -/
theorem denotes_empty_iff_stored {n : Nat} {v : Value} {vs : List Value}
    (hbody : (c.set.decl id).body = .struct ms)
    (hargs : args.length = (c.set.decl id).typeParams.length)
    (hvs : List.Forall₂ (StoredDefault c.set) ms vs) :
    Denotes c.set (n + 1) (.object []) v (.mk (.decl id) args) ↔
      v = .struct id vs ∧ DefaultsWithin c.set n ms := by
  have hd := h.resolved.distinctNames
  have hb : c.set.BodyAt id args _ :=
    ⟨hargs.symm, ModuleSet.proper_of_checkAll h.resolved h.checked id, rfl⟩
  rw [denotes_empty_iff hd hbody hb]
  simp only [forall₂_filledIn_iff hd hvs]
  constructor
  · rintro ⟨_, rfl, rfl, hwithin⟩
    exact ⟨rfl, hwithin⟩
  · rintro ⟨rfl, hwithin⟩
    exact ⟨vs, rfl, rfl, hwithin⟩

end Compiled

/-- At a struct all of whose fields have a declared default, with any arguments, the empty literal
has no value but the struct of the stored defaults, and it has this value if each of the defaults
can be read where it is declared with one nested default less than may be nested. -/
theorem value_empty_iff {modules : List Source.Module} {c : Compilation} {id : DeclId}
    {args : List TypeExpr} {ms : List Member} (h : Compilation.ofModules modules = .ok c)
    (hid : id < c.set.decls.length) (hbody : (c.set.decl id).body = .struct ms)
    (hall : ∀ m ∈ ms, m.default.isSome)
    (hargs : args.length = (c.set.decl id).typeParams.length) :
    ∃ vs, c.defaultsOf id = ⟨vs.map some, none⟩ ∧
      (∀ v, c.value (.mk (.decl id) args) (.object []) = .ok v → v = .struct id vs) ∧
      (c.value (.mk (.decl id) args) (.object []) = .ok (.struct id vs) ↔
        DefaultsWithin c.set (maxDefaultDepth - 1) ms) := by
  rw [ofModules_eq_ok_iff] at h
  obtain ⟨vs, hstored, hvs⟩ := h.exists_stored hid hbody hall
  have hvalue : ∀ v, c.value (.mk (.decl id) args) (.object []) = .ok v ↔
      v = .struct id vs ∧ DefaultsWithin c.set (maxDefaultDepth - 1) ms :=
    fun v => h.value_eq_ok_iff.trans (h.denotes_empty_iff_stored hbody hargs hvs)
  exact ⟨vs, hstored, fun v hv => ((hvalue v).mp hv).1, (hvalue _).trans (and_iff_right rfl)⟩

/-- What `Graph.logModule` compiles to. -/
def logCompilation : Compilation :=
  let defaults : Defaults := ⟨[some (.vector []), some .absent], none⟩
  ⟨Graph.logSet, [defaults], [Graph.logSet.exportDecl 0 defaults]⟩

/-- The empty log of strings is constructed from the defaults of `Log<T>`. -/
theorem log_value_empty :
    Compilation.ofModules [Graph.logModule] = .ok logCompilation ∧
      logCompilation.defaultsOf 0 = ⟨[.vector [], .absent].map some, none⟩ ∧
      logCompilation.value (.mk (.decl 0) [.mk (.primitive .string) []]) (.object []) =
        .ok (.struct 0 [.vector [], .absent]) := by
  have hcompiles : Compilation.ofModules [Graph.logModule] = .ok logCompilation := by cbv
  have hitems : Denotes logCompilation.set (maxDefaultDepth - 1) (.array []) (.vector [])
      (.mk (.primitive .vector) [.param "T"]) := .vector (.of_primitive _ _) rfl (by simp)
  have hlast : Denotes logCompilation.set (maxDefaultDepth - 1) .null .absent
      (.mk (.primitive .nullable) [.param "T"]) := .absent (.of_primitive _ _)
  have hargs : [TypeExpr.mk (.primitive .string) []].length =
      (logCompilation.set.decl 0).typeParams.length := rfl
  obtain ⟨vs, hstored, -, hvalue⟩ := value_empty_iff hcompiles Nat.one_pos rfl (by simp) hargs
  have hvs : [.vector [], .absent].map some = vs.map some := congrArg Defaults.fields hstored
  obtain rfl := List.map_injective_iff.mpr (Option.some_injective Value) hvs
  refine ⟨hcompiles, rfl, hvalue.mpr ?_⟩
  rintro m hm
  rcases List.mem_cons.mp hm with rfl | hm
  · exact ⟨_, _, rfl, hitems⟩
  · cases List.mem_singleton.mp hm
    exact ⟨_, _, rfl, hlast⟩

/-! ### A struct at the limit -/

/-- Sets whose declarations all have defaults compile. -/
theorem exists_compilation {modules : List Source.Module} {set : ModuleSet}
    (hset : ModuleSet.resolve modules = .ok set) (hchecked : set.checkAll = .ok ())
    (hdefaults : ∀ d ∈ set.decls, ∃ x, Yields ((Graph.plain set).defaults d.id) x) :
    ∃ c, Compilation.ofModules modules = .ok c ∧ c.set = set := by
  obtain ⟨xs, hxs⟩ := exists_forall₂ hdefaults
  let records := set.decls.map fun d => set.exportDecl d.id (xs[d.id]?.getD .empty)
  exact ⟨⟨set, xs, records⟩, ofModules_eq_ok_iff.mpr
    ⟨resolve_eq_ok_iff.mp hset, hchecked, hxs, rfl⟩, rfl⟩

/-- The name of the struct with `k` structs inside. -/
def levelName (k : Nat) : String := "S" ++ toString k

/-- The module of `struct S0 { Void inner = null; };`, `struct S1 { S0 inner = {}; };` and so on up
to `S32`, as it is parsed. -/
def levelModule : Source.Module :=
  ⟨"levels", [], (List.range 33).map fun k => ⟨levelName k, [], [], .struct
    [match k with
      | 0 => ⟨"inner", "inner", .mk "Void" [] .start, some .null, [], .start⟩
      | k + 1 => ⟨"inner", "inner", .mk (levelName k) [] .start, some (.object []), [], .start⟩],
    .start⟩, []⟩

/-- The field of the struct with `k` structs inside. -/
def levelMember : Nat → Member
  | 0 => ⟨"inner", "inner", .mk (.primitive .void) [], some .null, []⟩
  | k + 1 => ⟨"inner", "inner", .mk (.decl k) [], some (.object []), []⟩

/-- What `levelModule` resolves to. -/
def levelSet : ModuleSet :=
  ⟨[⟨"levels", [], List.range 33, []⟩],
    (List.range 33).map fun k => ⟨k, "levels", levelName k, [], [], .struct [levelMember k]⟩,
    (List.range 33).map fun k => (⟨"levels", levelName k⟩, k)⟩

/-- What the field of the struct with `k` structs inside is filled in with. -/
def levelInner : Nat → Value
  | 0 => .void
  | k + 1 => .struct k [levelInner k]

theorem resolve_levelModule : ModuleSet.resolve [levelModule] = .ok levelSet := rfl

theorem checkAll_levelSet : levelSet.checkAll = .ok () := rfl

theorem distinctNames_levelSet : levelSet.DistinctNames :=
  (resolve_eq_ok_iff.mp resolve_levelModule).distinctNames

theorem decl_levelSet {k : Nat} (hk : k < 33) :
    levelSet.decl k = ⟨k, "levels", levelName k, [], [], .struct [levelMember k]⟩ := by
  refine ModuleSet.decl_of_getElem? ?_
  rw [levelSet, List.getElem?_map, List.getElem?_range hk, Option.map_some]

/-- Of the struct with `k` structs inside only its field is filled in. -/
theorem denotes_level_iff {k n : Nat} {v : Value} (hk : k < 33) :
    Denotes levelSet n (.object []) v (.mk (.decl k) []) ↔
      ∃ w, v = .struct k [w] ∧ FilledIn levelSet n [] (levelMember k) w := by
  have hbody : (levelSet.decl k).body = .struct [levelMember k] := by rw [decl_levelSet hk]
  have hparams : (levelSet.decl k).typeParams = [] := by rw [decl_levelSet hk]
  have hproper := ModuleSet.proper_of_checkAll (resolve_eq_ok_iff.mp resolve_levelModule)
    checkAll_levelSet k
  have hb : levelSet.BodyAt k [] _ := ⟨congrArg List.length hparams, hproper, rfl⟩
  rw [denotes_empty_iff distinctNames_levelSet hbody hb, hparams, List.zip_nil_left]
  simp only [List.forall₂_cons_left_iff, List.forall₂_nil_left_iff]
  constructor
  · rintro ⟨_, rfl, w, _, hw, rfl, rfl⟩
    exact ⟨w, rfl, hw⟩
  · rintro ⟨w, rfl, hw⟩
    exact ⟨[w], rfl, w, [], hw, rfl, rfl⟩

/-- The struct with `k` structs inside needs `k + 1` nested defaults. -/
theorem filledIn_level_iff {k n : Nat} {w : Value} (hk : k < 33) :
    FilledIn levelSet n [] (levelMember k) w ↔ k < n ∧ w = levelInner k := by
  induction k generalizing n w with
  | zero =>
    have hvoid : ∀ j, Denotes levelSet j .null .void (.mk (.primitive .void) []) :=
      fun _ => .scalar (.of_primitive _ _) .void
    constructor
    · rintro ⟨j, l, rfl, hl, hw⟩
      cases hl
      exact ⟨Nat.succ_pos j, hw.unique (hvoid j) distinctNames_levelSet⟩
    · rintro ⟨hn, rfl⟩
      exact ⟨n - 1, .null, by omega, rfl, hvoid _⟩
  | succ k ih =>
    have hinner : ∀ j, Denotes levelSet j (.object []) w (.mk (.decl k) []) ↔
        k < j ∧ w = levelInner (k + 1) := by
      intro j
      rw [denotes_level_iff (by omega)]
      simp only [ih (by omega : k < 33)]
      constructor
      · rintro ⟨_, rfl, hj, rfl⟩
        exact ⟨hj, rfl⟩
      · rintro ⟨hj, rfl⟩
        exact ⟨levelInner k, rfl, hj, rfl⟩
    constructor
    · rintro ⟨j, l, rfl, hl, hw⟩
      cases hl
      obtain ⟨hj, rfl⟩ := (hinner j).mp hw
      exact ⟨Nat.succ_lt_succ hj, rfl⟩
    · rintro ⟨hn, hw⟩
      exact ⟨n - 1, .object [], by omega, rfl, (hinner _).mpr ⟨by omega, hw⟩⟩

/-- The default of the struct with `k` structs inside is read with `k` nested defaults. -/
theorem yields_defaults_level {k : Nat} (hk : k < 33) :
    Yields ((Graph.plain levelSet).defaults k) ⟨[some (levelInner k)], none⟩ := by
  have hproper := ModuleSet.proper_of_checkAll (resolve_eq_ok_iff.mp resolve_levelModule)
    checkAll_levelSet k
  have hbody : (levelSet.decl k).body = .struct [levelMember k] := by rw [decl_levelSet hk]
  obtain ⟨hsaturated, hbound⟩ := hproper (levelMember k).type
    (by rw [Decl.types, Decl.members, hbody]; exact List.mem_cons_self)
  obtain ⟨j, l, hj, hl, hdenotes⟩ := (filledIn_level_iff (n := maxDefaultDepth + 1) hk).mpr
    ⟨hk, rfl⟩
  cases hj
  have hsubst : (levelMember k).type.subst [] = (levelMember k).type :=
    TypeExpr.subst_ownBindings hsaturated []
  rw [hsubst] at hdenotes
  rw [Graph.yields_defaults_iff distinctNames_levelSet, hbody]
  exact .struct (.cons (.some hl ⟨hsaturated, hbound, hdenotes⟩) .nil)

/-- All structs up to `S32` compile with their defaults, but the empty literal has no value at
`S32`. -/
theorem level_no_value :
    ∃ c, Compilation.ofModules [levelModule] = .ok c ∧
      (c.set.decl 32).body = .struct [levelMember 32] ∧ (levelMember 32).default.isSome ∧
      (c.set.decl 32).typeParams = [] ∧ c.defaultsOf 32 = ⟨[some (levelInner 32)], none⟩ ∧
      ¬ ∃ v, c.value (.mk (.decl 32) []) (.object []) = .ok v := by
  have hdefaults : ∀ d ∈ levelSet.decls, ∃ x, Yields ((Graph.plain levelSet).defaults d.id) x := by
    intro d hd
    obtain ⟨k, hk, rfl⟩ := List.mem_map.mp hd
    exact ⟨_, yields_defaults_level (List.mem_range.mp hk)⟩
  obtain ⟨c, hc, hset⟩ := exists_compilation resolve_levelModule checkAll_levelSet hdefaults
  have h := ofModules_eq_ok_iff.mp hc
  have hdecl : levelSet.decls[32]? = some (levelSet.decl 32) := rfl
  have hstored := h.defaultsOf (hset ▸ hdecl)
  rw [hset, ← Graph.yields_defaults_iff distinctNames_levelSet] at hstored
  refine ⟨c, hc, by rw [hset]; rfl, rfl, by rw [hset]; rfl,
    hstored.unique (yields_defaults_level (by decide)), ?_⟩
  rintro ⟨v, hv⟩
  rw [h.value_eq_ok_iff, hset, denotes_level_iff (by decide)] at hv
  obtain ⟨w, -, hw⟩ := hv
  exact absurd ((filledIn_level_iff (by decide)).mp hw).1 (Nat.lt_irrefl 32)

end Adl
