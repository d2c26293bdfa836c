import Adl.Proofs.Value.Nesting

/-!
# Completion — a struct literal as a finite map that defaults complete

What a struct literal denotes depends on the literals that its fields are read from, and on nothing
else about its entries (`Denotes.of_sources`).  So their order does not matter, and neither does
writing out the declared default of a field that is left out: the field is then read with one
nested default less, which leaves more of them for its parts.  A field that is given is read from
what is given, whether or not it has a default.
-/

namespace Adl

variable {set : ModuleSet} {n : Nat} {l : Literal} {v : Value} {m : Member}
  {entries entries' : List (String × Literal)} {s : Nat × Literal}

/-! ### Sources -/

theorem FieldSource.perm (h : FieldSource entries n m s) (hp : entries'.Perm entries) :
    FieldSource entries' n m s := by
  cases h with
  | given h => exact .given (hp.mem_iff.mpr h)
  | declared h hd => exact .declared (fun hmem => h ((hp.map Prod.fst).mem_iff.mp hmem)) hd

/-- An entry for another field is no source of this one. -/
theorem FieldSource.cons (h : FieldSource entries n m s) {key : String}
    (hkey : m.serializedName ≠ key) (l : Literal) : FieldSource ((key, l) :: entries) n m s := by
  cases h with
  | given h => exact .given (List.mem_cons_of_mem _ h)
  | declared h hd => exact .declared (List.not_mem_cons_of_ne_of_not_mem hkey h) hd

/-- A field that is given is read from its entry. -/
theorem FieldSource.eq_of_mem (h : FieldSource entries n m s)
    (hkeys : (entries.map Prod.fst).Nodup) (hl : (m.serializedName, l) ∈ entries) : s = (n, l) := by
  cases h with
  | given h => rw [Option.some.inj ((lookup_of_mem hkeys h).symm.trans (lookup_of_mem hkeys hl))]
  | declared h _ => exact absurd (List.mem_map_of_mem hl) h

/-- Where every field has a source with the same literal and no fewer defaults left, there is a
list of such sources. -/
theorem exists_sources {ms : List Member} {sources : List (Nat × Literal)}
    (hsources : List.Forall₂ (FieldSource entries n) ms sources)
    (h : ∀ m ∈ ms, ∀ s, FieldSource entries n m s → ∃ k, FieldSource entries' n m (s.1 + k, s.2)) :
    ∃ sources', List.Forall₂ (FieldSource entries' n) ms sources' ∧
      List.Forall₂ (fun s s' => ∃ k, s' = (s.1 + k, s.2)) sources sources' := by
  induction hsources with
  | nil => exact ⟨[], .nil, .nil⟩
  | @cons m s ms sources hs _ ih =>
    obtain ⟨hm, hms⟩ := List.forall_mem_cons.mp h
    obtain ⟨k, hk⟩ := hm s hs
    obtain ⟨sources', hfrom, hsame⟩ := ih hms
    exact ⟨_ :: sources', .cons hk hfrom, .cons ⟨k, rfl⟩ hsame⟩

/-! ### Structs -/

section

variable {id : DeclId} {args : List TypeExpr} {ms : List Member}

/-- A literal that denotes a value at a struct names fields, each at most once, and gives every
field the value that its source denotes. -/
theorem Denotes.struct_inv (h : Denotes set n (.object entries) v (.mk (.decl id) args))
    (hd : set.DistinctNames) (hbody : (set.decl id).body = .struct ms) :
    ∃ types sources vs, v = .struct id vs ∧ set.BodyAt id args (.fields types) ∧
      (entries.map Prod.fst).Nodup ∧
      (∀ key ∈ entries.map Prod.fst, key ∈ ms.map Member.serializedName) ∧
      List.Forall₂ (FieldSource entries n) ms sources ∧ vs.length = ms.length ∧
      ∀ s type w, (s, type, w) ∈ sources.zip (types.zip vs) → Denotes set s.1 s.2 w type := by
  obtain ⟨entries, b, vs, hl, hb, hc, rfl, hfields⟩ :=
    (Graph.yields_value_struct (.of_struct hbody) hbody).mp (h.yields hd (.ofModule ""))
  cases hl
  obtain ⟨hkeys, -, hknown⟩ := Normalize.checkFields_eq_ok_iff.mp hc
  rw [Decl.members, hbody] at hknown
  obtain rfl := hb.struct_eq hbody
  obtain ⟨sources, hsources, hlen, hvs⟩ :=
    (Graph.yields_fieldValues_iff hkeys (List.length_map _).symm).mp hfields
  exact ⟨_, sources, vs, rfl, hb, hkeys, hknown, hsources, hlen,
    fun s type w hmem => Graph.denotes_of_yields_value (hvs s type w hmem)⟩

/-- A struct literal denotes what another one does, if it names fields, each at most once, and its
fields are read from the same literals with no fewer defaults left. -/
theorem Denotes.of_sources (h : Denotes set n (.object entries) v (.mk (.decl id) args))
    (hd : set.DistinctNames) (hbody : (set.decl id).body = .struct ms)
    (hkeys : (entries'.map Prod.fst).Nodup)
    (hknown : ∀ key ∈ entries'.map Prod.fst, key ∈ ms.map Member.serializedName)
    (hsame : ∀ m ∈ ms, ∀ s, FieldSource entries n m s →
      ∃ k, FieldSource entries' n m (s.1 + k, s.2)) :
    Denotes set n (.object entries') v (.mk (.decl id) args) := by
  obtain ⟨types, sources, vs, rfl, htypes, -, -, hsources, hlen, hvs⟩ := h.struct_inv hd hbody
  obtain ⟨sources', hsources', hmore⟩ := exists_sources hsources hsame
  refine .struct (.of_struct hbody) hbody htypes hkeys hknown hsources' hlen ?_
  intro s' type w hmem
  obtain ⟨i, hs', htw⟩ := mem_zip_iff.mp hmem
  obtain ⟨s, hs, k, rfl⟩ := forall₂_getElem? hmore hs'
  exact (hvs s type w (mem_zip_iff.mpr ⟨i, hs, htw⟩)).weaken k

/-- The order of the entries does not matter. -/
theorem Denotes.perm (h : Denotes set n (.object entries) v (.mk (.decl id) args))
    (hd : set.DistinctNames) (hbody : (set.decl id).body = .struct ms)
    (hp : entries'.Perm entries) : Denotes set n (.object entries') v (.mk (.decl id) args) := by
  obtain ⟨-, -, -, -, -, hkeys, hknown, -⟩ := h.struct_inv hd hbody
  have hpkeys : (entries'.map Prod.fst).Perm (entries.map Prod.fst) := hp.map Prod.fst
  exact h.of_sources hd hbody (hpkeys.nodup_iff.mpr hkeys)
    (fun key hkey => hknown key (hpkeys.mem_iff.mp hkey)) fun _ _ _ hs => ⟨0, hs.perm hp⟩

/-- The declared default of a field that is left out may be written out. -/
theorem Denotes.cons_default (h : Denotes set n (.object entries) v (.mk (.decl id) args))
    (hd : set.DistinctNames) (hbody : (set.decl id).body = .struct ms) (hm : m ∈ ms)
    (hdefault : m.default = some l) (hnot : m.serializedName ∉ entries.map Prod.fst) :
    Denotes set n (.object ((m.serializedName, l) :: entries)) v (.mk (.decl id) args) := by
  obtain ⟨-, -, -, -, -, hkeys, hknown, -⟩ := h.struct_inv hd hbody
  have hnames := hd id
  rw [Decl.members, hbody] at hnames
  refine h.of_sources hd hbody (List.nodup_cons.mpr ⟨hnot, hkeys⟩)
    (List.forall_mem_cons.mpr ⟨List.mem_map_of_mem hm, hknown⟩) fun m' hm' s hs => ?_
  by_cases heq : m'.serializedName = m.serializedName
  · obtain rfl := List.inj_on_of_nodup_map hnames hm' hm heq
    cases hs with
    | given hmem => exact absurd (List.mem_map_of_mem hmem) hnot
    | declared _ hd' =>
      cases hdefault.symm.trans hd'
      exact ⟨1, .given List.mem_cons_self⟩
  · exact ⟨0, hs.cons heq l⟩

end

/-! ### Main statement -/

namespace Graph

/-- How the value of a struct literal depends on its entries and on the declared defaults. -/
structure CompletionLaws (set : ModuleSet) (id : DeclId) (args : List TypeExpr)
    (ms : List Member) (location : Location) (entries : List (String × Literal)) : Prop where
  /-- The entries may be given in any order. -/
  order : ∀ entries', entries'.Perm entries → ∀ v,
    ((plain set).normalize (.object entries') (.mk (.decl id) args) location).run = .ok v ↔
      ((plain set).normalize (.object entries) (.mk (.decl id) args) location).run = .ok v
  /-- The declared default of a field that is left out may be given anywhere. -/
  completed : ∀ m ∈ ms, ∀ l, m.default = some l → m.serializedName ∉ entries.map Prod.fst →
    ∀ entries', entries'.Perm ((m.serializedName, l) :: entries) → ∀ v,
      ((plain set).normalize (.object entries) (.mk (.decl id) args) location).run = .ok v →
        ((plain set).normalize (.object entries') (.mk (.decl id) args) location).run = .ok v
  /-- The value of a field that is given is what is given for it at the type of the field. -/
  given : ∀ v,
    ((plain set).normalize (.object entries) (.mk (.decl id) args) location).run = .ok v →
      ∃ types vs, set.members id args location = .ok (.fields types) ∧ v = .struct id vs ∧
        types.length = ms.length ∧ vs.length = ms.length ∧
        ∀ (i : Nat) m l, ms[i]? = some m → (m.serializedName, l) ∈ entries →
          ∃ type w, types[i]? = some type ∧ vs[i]? = some w ∧
            ((plain set).normalize l type location).run = .ok w

/-- A struct literal is a finite map that is completed by the declared defaults. -/
theorem normalize_completes {modules : List Source.Module}
    (hset : ModuleSet.resolve modules = .ok set) {id : DeclId} {ms : List Member}
    (hbody : (set.decl id).body = .struct ms) (args : List TypeExpr) (location : Location)
    (entries : List (String × Literal)) : CompletionLaws set id args ms location entries := by
  have hd : set.DistinctNames := (resolve_eq_ok_iff.mp hset).distinctNames
  have hiff (l t v) : ((plain set).normalize l t location).run = .ok v ↔
      Denotes set maxDefaultDepth l v t := yields_normalize_iff hd
  constructor
  · intro entries' hp v
    rw [hiff, hiff]
    exact ⟨fun h => h.perm hd hbody hp.symm, fun h => h.perm hd hbody hp⟩
  · intro m hm l hl hnot entries' hp v h
    rw [hiff] at h ⊢
    exact (h.cons_default hd hbody hm hl hnot).perm hd hbody hp
  · intro v h
    rw [hiff] at h
    obtain ⟨types, sources, vs, rfl, htypes, hkeys, -, hsources, hlen, hvs⟩ :=
      h.struct_inv hd hbody
    have hms : types.length = ms.length := by
      cases htypes.struct_eq hbody
      rw [List.length_map]
    refine ⟨types, vs, ModuleSet.members_eq_ok_iff.mpr htypes, rfl, hms, hlen, ?_⟩
    intro i m l hm hl
    obtain ⟨s, hs⟩ := exists_getElem?_of_length_eq hsources.length_eq.symm hm
    obtain ⟨type, htype⟩ := exists_getElem?_of_length_eq hms hm
    obtain ⟨w, hw⟩ := exists_getElem?_of_length_eq hlen hm
    obtain rfl := ((forall₂_iff_getElem?.mp hsources).2 i m s hm hs).eq_of_mem hkeys hl
    refine ⟨type, w, htype, hw, (hiff l type w).mpr (hvs (maxDefaultDepth, l) type w ?_)⟩
    exact mem_zip_iff.mpr ⟨i, hs, List.getElem?_zip_eq_some.mpr ⟨htype, hw⟩⟩

/-- The module of `struct Style { Int8 size = 1; Int8 weight = 2; };` and
`struct Caption<T> { T text; Style style = {"size": 5}; Vector<T> more = []; };`, as it is
parsed. -/
def captionModule : Source.Module :=
  let type (name : String) (args : List Source.TypeExpr) : Source.TypeExpr := .mk name args .start
  ⟨"captions", [],
    [⟨"Style", [], [], .struct
        [⟨"size", "size", type "Int8" [], some (.integer 1), [], .start⟩,
          ⟨"weight", "weight", type "Int8" [], some (.integer 2), [], .start⟩], .start⟩,
      ⟨"Caption", ["T"], [], .struct
        [⟨"text", "text", type "T" [], none, [], .start⟩,
          ⟨"style", "style", type "Style" [], some (.object [("size", .integer 5)]), [], .start⟩,
          ⟨"more", "more", type "Vector" [type "T" []], some (.array []), [], .start⟩],
        .start⟩], []⟩

/-- The fields of `Caption`. -/
def captionFields : List Member :=
  [⟨"text", "text", .param "T", none, []⟩,
    ⟨"style", "style", .mk (.decl 0) [], some (.object [("size", .integer 5)]), []⟩,
    ⟨"more", "more", .mk (.primitive .vector) [.param "T"], some (.array []), []⟩]

/-- What `captionModule` resolves to. -/
def captionSet : ModuleSet :=
  let int8 : TypeExpr := .mk (.primitive .int8) []
  ⟨[⟨"captions", [], [0, 1], []⟩],
    [⟨0, "captions", "Style", [], [], .struct
        [⟨"size", "size", int8, some (.integer 1), []⟩,
          ⟨"weight", "weight", int8, some (.integer 2), []⟩]⟩,
      ⟨1, "captions", "Caption", ["T"], [], .struct captionFields⟩],
    [(⟨"captions", "Style"⟩, 0), (⟨"captions", "Caption"⟩, 1)]⟩

/-- A caption without style has the same value with the default style, in any order of entries, and
holds the texts that are given for it. -/
theorem caption_completes :
    let string : TypeExpr := .mk (.primitive .string) []
    let location : Location := .ofModule "captions"
    let more : Literal := .array [.string "b"]
    let value : Value := .struct 1 [.string "a", .struct 0 [.int 5, .int 2], .vector [.string "b"]]
    ModuleSet.resolve [captionModule] = .ok captionSet ∧ captionSet.checkAll = .ok () ∧
      (captionSet.decl 1).body = .struct captionFields ∧
      ((plain captionSet).normalize (.object [("text", .string "a"), ("more", more)])
        (.mk (.decl 1) [string]) location).run = .ok value ∧
      ((plain captionSet).normalize (.object
          [("more", more), ("style", .object [("size", .integer 5)]), ("text", .string "a")])
        (.mk (.decl 1) [string]) location).run = .ok value ∧
      ((plain captionSet).normalize more (.mk (.primitive .vector) [string]) location).run =
        .ok (.vector [.string "b"]) := by
  intro string location more value
  have hset : ModuleSet.resolve [captionModule] = .ok captionSet := rfl
  have hbody : (captionSet.decl 1).body = .struct captionFields := rfl
  have hvalue : ((plain captionSet).normalize (.object [("text", .string "a"), ("more", more)])
      (.mk (.decl 1) [string]) location).run = .ok value := by cbv
  have laws := normalize_completes hset hbody [string] location
    [("text", .string "a"), ("more", more)]
  refine ⟨hset, rfl, hbody, hvalue, ?_, ?_⟩
  · refine laws.completed _ (List.mem_cons_of_mem _ List.mem_cons_self) _ rfl (by decide) _ ?_
      value hvalue
    exact (List.Perm.swap _ _ _).trans ((List.Perm.swap _ _ _).cons _)
  · obtain ⟨types, vs, hmembers, hv, -, -, hgiven⟩ := laws.given value hvalue
    obtain ⟨type, w, htype, hw, hread⟩ := hgiven 2 _ more rfl (by simp)
    cases hmembers
    obtain rfl := (Value.struct.inj hv).2
    cases htype
    cases hw
    exact hread

end Graph

end Adl
