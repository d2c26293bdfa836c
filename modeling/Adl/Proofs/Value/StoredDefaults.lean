import Adl.Proofs.Value.Contained
import Adl.Proofs.Value.Fits

/-!
# StoredDefaults — whether stored defaults are values of their types

What is stored as the default of a field is a value of the type of the field: read again from its
canonical literal, it is itself.  The default of a newtype is read at the target and then wrapped,
so that the rule for sets and maps is never asked.  Therefore it is a value of the newtype exactly
if it happens to repeat nothing, and otherwise its canonical literal is rejected for this reason
alone (`storedDefaults_laws`).  Only a module `sys.types` that declares `Set` or `Map` with a
default has such defaults.
-/

namespace Adl

/-- The value `v` is read at the type `t` from its own canonical literal, wherever this stands. -/
def ModuleSet.ReadAgain (set : ModuleSet) (v : Value) (t : TypeExpr) : Prop :=
  ∀ location, ((Graph.plain set).normalize (v.toLiteral set) t location).run = .ok v

variable {set : ModuleSet} {id : DeclId} {t target : TypeExpr} {l : Literal} {v w : Value}
  {default : Option Literal} {args : List TypeExpr} {location : Location} {n chain : Nat} {d : Decl}

/-! ### Rules of newtypes -/

/-- There is nothing to repeat in most newtypes. -/
theorem nothingRepeated_of_uniqueness? {name : ScopedName}
    (h : Prelude.uniqueness? name = none) (inner : Value) : NothingRepeated set name inner := by
  unfold Prelude.uniqueness? at h
  split_ifs at h with hmap hset
  exact fun _ _ => ⟨fun heq => absurd heq hset, fun heq => absurd heq hmap⟩

/-- What is repeated in a value of a newtype is reported. -/
theorem exists_error_of_repeated (h : ¬ NothingRepeated set d.scopedName w) :
    ∃ rule key, Prelude.uniqueness? d.scopedName = some rule ∧
      Normalize.checkUnique set d w =
        .error (.repeated rule.noun (key : Literal).toJson d.scopedName.text) := by
  rw [← Normalize.checkUnique_eq_ok_iff] at h
  unfold Normalize.checkUnique at h ⊢
  split at h
  · next rule items hrule =>
    split at h
    · next key hkey => exact ⟨rule, key, hrule, rfl⟩
    · exact absurd rfl h
  · exact absurd rfl h

namespace Graph

/-- Where the target has a value and the rule of the newtype forbids it, the rule is what the
newtype fails with. -/
theorem run_value_newtype_of_error {type : TypeExpr} {f : DefaultFault}
    (ht : set.Expands t (.mk (.decl id) args))
    (hbody : (set.decl id).body = .newtype target default)
    (htarget : set.BodyAt id args (.target type))
    (hw : Yields ((plain set).value location (n + 1) l chain type) w)
    (hf : Normalize.checkUnique set (set.decl id) w = .error f) :
    ((plain set).value location (n + 1) l (chain + 1) t).run = .error (.here f) := by
  have hexpand : Yields (typed ((plain set).expand t location)) _ :=
    yields_typed.mpr (yields_expand_iff.mpr ht)
  have hmembers : Yields (typed ((plain set).members id args location)) (.target type) :=
    yields_typed.mpr (yields_members.mpr htarget)
  rw [value, hexpand.run_bind]
  dsimp only [TypeExpr.head, TypeExpr.args, plain_set]
  rw [hbody]
  dsimp only
  rw [hmembers.run_bind]
  dsimp only [Members.target?]
  rw [hw.run_bind, hf]
  rfl

/-- The same at the beginning of a literal. -/
theorem run_normalize_newtype_of_error (hd : set.DistinctNames) {type : TypeExpr}
    {f : DefaultFault} (ht : set.Expands t (.mk (.decl id) args))
    (hbody : (set.decl id).body = .newtype target default)
    (htarget : set.BodyAt id args (.target type)) (hw : Denotes set maxDefaultDepth l w type)
    (hf : Normalize.checkUnique set (set.decl id) w = .error f) :
    ((plain set).normalize l t location).run = .error (.default location [] f) := by
  -- the bound of the chain counts the newtype and the chain behind it
  have hread : Reads set location maxDefaultDepth l w type := reads_of_denotes hd hw
  obtain ⟨s, k, u, hchain, hu, hreads⟩ := hread
  obtain ⟨s', hhead⟩ := ht.chain l.isNull
  have hle : 1 + k ≤ set.chainBound t := by
    simpa using (hhead.trans (.link (.newtype hbody htarget) hchain)).le_bound hu
  obtain ⟨chain, hbound⟩ : ∃ chain, set.chainBound t = chain + 1 :=
    ⟨set.chainBound t - 1, by omega⟩
  have hrun := run_value_newtype_of_error ht hbody htarget (hreads chain (by omega)) hf
  rw [normalize, plain_set, hbound]
  show ((plain set).value location (maxDefaultDepth + 1) l (chain + 1) t).run.mapError _ = _
  rw [hrun]
  rfl

end Graph

/-! ### Defaults of declarations -/

theorem nothingRepeated_of_readAgain (hd : set.DistinctNames)
    (h : set.ReadAgain (.newtype id w) (set.selfType id)) :
    NothingRepeated set (set.scopedName id) w := by
  have hdenotes := (Graph.yields_normalize_iff hd).mp (h (set.decl id).location)
  generalize (Value.newtype id w).toLiteral set = l at hdenotes
  cases hdenotes with
  | scalar _ hs => cases hs
  | newtype _ _ _ _ hu => exact hu

section

variable {modules : List Source.Module} (hset : Resolved modules set)
  (hfit : ∀ m ∈ modules, ∀ d ∈ m.decls, ∀ l ∈ d.literals, l.Fits)

include hset hfit

/-- What a declaration declares is read again at the type that it is declared for. -/
theorem OwnDenotes.readAgain (hl : l.Fits) (h : OwnDenotes set d t l v) :
    Denotes set maxDefaultDepth (v.toLiteral set) v t ∧ set.ReadAgain v t := by
  have hdefaults : set.DefaultsFit := fun id => (hset.literalsFit hfit id).defaults
  have hdenotes := h.denotes.toLiteral hset.distinctNames hdefaults hl
  exact ⟨hdenotes, fun _ => (Graph.yields_normalize_iff hset.distinctNames).mpr hdenotes⟩

/-- A field keeps a value of its type. -/
theorem DefaultsOf.readAgain_member {x : Defaults} {i : Nat}
    (h : DefaultsOf set id (set.decl id) (set.decl id).body x) (hv : x.member? i = some v) :
    ∃ ms m, (set.decl id).body = .struct ms ∧ ms[i]? = some m ∧ set.ReadAgain v m.type := by
  obtain ⟨ms, m, l, hbody, hm, hl, hown⟩ := h.exists_member hv
  have hmember : m ∈ (set.decl id).members := by
    rw [Decl.members, hbody]
    exact List.mem_of_getElem? hm
  have hfits := (hset.literalsFit hfit id).defaults m hmember l hl
  exact ⟨ms, m, hbody, hm, (hown.readAgain hset hfit hfits).2⟩

/-- A newtype keeps a value of its target, in the newtype.  This is a value of the newtype if it
repeats nothing, and else it is rejected for that. -/
theorem DefaultsOf.readAgain_newtype {x : Defaults}
    (h : DefaultsOf set id (set.decl id) (set.decl id).body x) (hv : x.newtype = some v) :
    ∃ t l w, (set.decl id).body = .newtype t (some l) ∧ v = .newtype id w ∧ set.ReadAgain w t ∧
      (set.ReadAgain v (set.selfType id) ↔ NothingRepeated set (set.scopedName id) w) ∧
      (¬ NothingRepeated set (set.scopedName id) w → ∃ rule key,
        Prelude.uniqueness? (set.scopedName id) = some rule ∧ ∀ location,
          ((Graph.plain set).normalize (v.toLiteral set) (set.selfType id) location).run =
            .error (.default location []
              (.repeated rule.noun (key : Literal).toJson (set.scopedName id).text))) := by
  have hd := hset.distinctNames
  obtain ⟨t, l, w, hbody, rfl, hown⟩ := h.exists_newtype hv
  obtain ⟨hdenotes, hagain⟩ :=
    hown.readAgain hset hfit ((hset.literalsFit hfit id).newtypes t l hbody)
  have hproper : set.Proper (set.decl id) := by
    rw [ModuleSet.Proper, Decl.types, hbody]
    exact List.forall_mem_singleton.mpr ⟨hown.saturated, hown.bound⟩
  have htarget := bodyAt_selfType hproper hbody
  have ht : set.Expands (set.selfType id) _ :=
    .of_decl (Bool.not_eq_true _ ▸ ModuleSet.not_isAlias_of_newtype hbody) _
  refine ⟨t, l, w, hbody, rfl, hagain, ⟨nothingRepeated_of_readAgain hd, fun hu location => ?_⟩, ?_⟩
  · exact (Graph.yields_normalize_iff hd).mpr (.newtype ht hbody htarget hdenotes hu)
  · intro hrepeated
    obtain ⟨rule, key, hrule, hf⟩ := exists_error_of_repeated (d := set.decl id) hrepeated
    exact ⟨rule, key, hrule, fun location =>
      Graph.run_normalize_newtype_of_error hd ht hbody htarget hdenotes hf⟩

end

/-- **What a declaration stores is read again.**  The default of a field is read again at the type
of the field.  The default of a newtype is read again at the target, and at the newtype itself if
this is neither a set nor a map.  In a set or a map it is read again exactly if it repeats nothing,
and otherwise the repetition is reported that went unnoticed when the default was read. -/
theorem storedDefaults_laws {modules : List Source.Module} {x : Defaults}
    (hset : ModuleSet.resolve modules = .ok set)
    (hfit : ∀ m ∈ modules, ∀ d ∈ m.decls, ∀ l ∈ d.literals, l.Fits)
    (h : ((Graph.plain set).defaults id).run = .ok x) :
    (∀ i v, x.member? i = some v → ∃ ms m, (set.decl id).body = .struct ms ∧ ms[i]? = some m ∧
      set.ReadAgain v m.type) ∧
    ∀ v, x.newtype = some v → ∃ t l w, (set.decl id).body = .newtype t (some l) ∧
      v = .newtype id w ∧ set.ReadAgain w t ∧
      (Prelude.uniqueness? (set.scopedName id) = none → set.ReadAgain v (set.selfType id)) ∧
      (set.ReadAgain v (set.selfType id) ↔ NothingRepeated set (set.scopedName id) w) ∧
      (¬ NothingRepeated set (set.scopedName id) w → ∃ rule key,
        Prelude.uniqueness? (set.scopedName id) = some rule ∧ ∀ location,
          ((Graph.plain set).normalize (v.toLiteral set) (set.selfType id) location).run =
            .error (.default location []
              (.repeated rule.noun (key : Literal).toJson (set.scopedName id).text))) := by
  have hresolved := resolve_eq_ok_iff.mp hset
  have hdefaults := (Graph.yields_defaults_iff hresolved.distinctNames).mp h
  refine ⟨fun i v hv => hdefaults.readAgain_member hresolved hfit hv, fun v hv => ?_⟩
  obtain ⟨t, l, w, hbody, hw, hagain, hiff, herror⟩ :=
    hdefaults.readAgain_newtype hresolved hfit hv
  exact ⟨t, l, w, hbody, hw, hagain,
    fun hrule => hiff.mpr (nothingRepeated_of_uniqueness? hrule w), hiff, herror⟩

/-- The module `sys.types` of `newtype Set<T> = Vector<Int8> = [1, 1];` and
`newtype Map<K, V> = Vector<Int8> = [1, 2];`, as it is parsed. -/
def tallyModule : Source.Module :=
  let numbers : Source.TypeExpr := .mk "Vector" [.mk "Int8" [] .start] .start
  ⟨"sys.types", [],
    [⟨"Set", ["T"], [], .newtype numbers (some (.array [.integer 1, .integer 1])), .start⟩,
      ⟨"Map", ["K", "V"], [], .newtype numbers (some (.array [.integer 1, .integer 2])), .start⟩],
    []⟩

/-- What `tallyModule` resolves to. -/
def tallySet : ModuleSet :=
  let numbers : TypeExpr := .mk (.primitive .vector) [.mk (.primitive .int8) []]
  ⟨[⟨"sys.types", [], [0, 1], []⟩],
    [⟨0, "sys.types", "Set", ["T"], [],
        .newtype numbers (some (.array [.integer 1, .integer 1]))⟩,
      ⟨1, "sys.types", "Map", ["K", "V"], [],
        .newtype numbers (some (.array [.integer 1, .integer 2]))⟩],
    [(⟨"sys.types", "Set"⟩, 0), (⟨"sys.types", "Map"⟩, 1)]⟩

/-- The default of the map is read again as a map, while that of the set is stored but no set. -/
theorem tally_storedDefaults :
    ModuleSet.resolve [tallyModule] = .ok tallySet ∧
      (∀ m ∈ [tallyModule], ∀ d ∈ m.decls, ∀ l ∈ d.literals, l.Fits) ∧
      ((Graph.plain tallySet).defaults 1).run =
        .ok ⟨[], some (.newtype 1 (.vector [.int 1, .int 2]))⟩ ∧
      tallySet.ReadAgain (.newtype 1 (.vector [.int 1, .int 2])) (tallySet.selfType 1) ∧
      ((Graph.plain tallySet).defaults 0).run =
        .ok ⟨[], some (.newtype 0 (.vector [.int 1, .int 1]))⟩ ∧
      ¬ tallySet.ReadAgain (.newtype 0 (.vector [.int 1, .int 1])) (tallySet.selfType 0) := by
  have hset : ModuleSet.resolve [tallyModule] = .ok tallySet := rfl
  have hfit : ∀ m ∈ [tallyModule], ∀ d ∈ m.decls, ∀ l ∈ d.literals, l.Fits := by
    have hpair : ∀ i j : Int, 0 ≤ i → i < 3 → 0 ≤ j → j < 3 →
        (Literal.array [.integer i, .integer j]).Fits := by
      intro i j hi hi' hj hj'
      refine .array fun l hl => ?_
      simp only [List.mem_cons, List.not_mem_nil, or_false] at hl
      rcases hl with rfl | rfl <;> exact .integer (by omega) (by omega)
    intro m hm d hd l hl
    cases List.mem_singleton.mp hm
    simp only [tallyModule, List.mem_cons, List.not_mem_nil, or_false] at hd
    rcases hd with rfl | rfl <;> obtain rfl := List.mem_singleton.mp hl <;>
      exact hpair _ _ (by decide) (by decide) (by decide) (by decide)
  have hmap : ((Graph.plain tallySet).defaults 1).run =
      .ok ⟨[], some (.newtype 1 (.vector [.int 1, .int 2]))⟩ := by cbv
  have hrepeated : ((Graph.plain tallySet).defaults 0).run =
      .ok ⟨[], some (.newtype 0 (.vector [.int 1, .int 1]))⟩ := by cbv
  refine ⟨hset, hfit, hmap, ?_, hrepeated, ?_⟩
  · obtain ⟨t, l, w, -, hw, -, -, hiff, -⟩ := (storedDefaults_laws hset hfit hmap).2 _ rfl
    cases hw
    refine hiff.mpr fun items hitems => ⟨fun hname => absurd hname (by decide), fun _ => ?_⟩
    cases hitems
    decide
  · obtain ⟨t, l, w, -, hw, -, -, hiff, -⟩ := (storedDefaults_laws hset hfit hrepeated).2 _ rfl
    cases hw
    rw [hiff]
    intro hnothing
    have hpairwise := (hnothing _ rfl).1 rfl
    revert hpairwise
    decide

end Adl
