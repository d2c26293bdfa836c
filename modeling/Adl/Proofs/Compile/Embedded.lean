import Adl.Proofs.Compile.Compiled
import Adl.Proofs.Json.Same
import Adl.Proofs.Model.Indexed
import Adl.Proofs.Schema.Catalog
import Adl.Proofs.Schema.RoundTrip
import Adl.Proofs.Value.Fits
import Adl.Target.Unit

/-!
# Embedded — what is read back from generated code

Generated code carries the records of its declarations as JSON texts, and reading their table gives
the records back (`ofModules_catalog`).  The one thing that is lost on the way is a number that is
not finite: its JSON is `null`, and a default without its number cannot be read.  In annotations,
which are JSON from the start, the `null` is what is read.
-/

namespace Adl

/-! ### Records are sound -/

/-- The JSON of a literal is data. -/
theorem Literal.Fits.canonical {l : Literal} (h : l.Fits) : l.toJson.Canonical := by
  induction h with
  | null => exact .null
  | @integer i hle hlt =>
    rw [toJson]
    split
    · next hrange => exact .integer hrange.1 hrange.2
    · exact .double (Double.ofInt_isFinite hle hlt)
  | double d =>
    rw [toJson]
    split
    · next hd => exact .double hd
    · exact .null
  | string s => exact .string s
  | boolean b => exact .bool b
  | @array items _ ih =>
    rw [toJson, itemsToJson_eq_map]
    refine .array fun j hj => ?_
    obtain ⟨item, hitem, rfl⟩ := List.mem_map.mp hj
    exact ih item hitem
  | @object entries _ ih =>
    rw [toJson, entriesToJson_eq_map]
    refine .object (Json.pairwise_sortMembers _) fun m hm => ?_
    obtain ⟨e, he, rfl⟩ := List.mem_map.mp (Json.mem_sortMembers hm)
    exact ih e he

namespace ModuleSet

variable {set : ModuleSet}

theorem canonical_of_mem_exportAnnotations {annotations : Annotations}
    (h : ∀ a ∈ annotations, a.2.Fits) : ∀ a ∈ exportAnnotations annotations, a.2.Canonical := by
  intro a ha
  obtain ⟨b, hb, rfl⟩ := List.mem_map.mp ha
  exact (h b hb).canonical

/-- A record of a member is made of the member and of its default, if it has one. -/
theorem mem_exportMembers {ms : List Member} {ds : List (Option Value)} {f : Schema.Field}
    (h : f ∈ set.exportMembers ms ds) :
    ∃ m ∈ ms, ∃ d, (d = none ∨ d ∈ ds) ∧ f = set.exportMember m d := by
  induction ms generalizing ds with
  | nil => cases h
  | cons m ms ih =>
    cases ds with
    | nil =>
      rcases List.mem_cons.mp h with rfl | h
      · exact ⟨m, List.mem_cons_self, none, .inl rfl, rfl⟩
      · obtain ⟨m', hm', d, hd, rfl⟩ := ih h
        exact ⟨m', List.mem_cons_of_mem _ hm', d, hd, rfl⟩
    | cons d ds =>
      rcases List.mem_cons.mp h with rfl | h
      · exact ⟨m, List.mem_cons_self, d, .inr List.mem_cons_self, rfl⟩
      · obtain ⟨m', hm', d', hd', rfl⟩ := ih h
        exact ⟨m', List.mem_cons_of_mem _ hm', d', hd'.imp_right (List.mem_cons_of_mem _), rfl⟩

/-- The fields of a record are sound if the literals of the declaration have small integers. -/
theorem sound_exportMembers {d : Decl} (hd : d.LiteralsFit) {defaults : Defaults}
    (hdefaults : ∀ v ∈ defaults.values, (v.toLiteral set).Fits) :
    ∀ f ∈ set.exportMembers d.members defaults.fields, f.Sound := by
  intro f hf
  obtain ⟨m, hm, o, ho, rfl⟩ := mem_exportMembers hf
  refine ⟨canonical_of_mem_exportAnnotations (hd.member_annotations m hm), fun l hl => ?_⟩
  obtain ⟨v, rfl, rfl⟩ := Option.map_eq_some_iff.mp hl
  refine hdefaults v (List.mem_append_left _ (List.mem_filterMap.mpr ⟨some v, ?_, rfl⟩))
  exact ho.resolve_left (Option.some_ne_none v)

theorem sound_exportDecl {id : DeclId} (hd : (set.decl id).LiteralsFit) {defaults : Defaults}
    (hdefaults : ∀ v ∈ defaults.values, (v.toLiteral set).Fits) :
    (set.exportDecl id defaults).Sound := by
  refine ⟨canonical_of_mem_exportAnnotations hd.annotations, ?_⟩
  have hfields := sound_exportMembers hd hdefaults
  show (set.exportBody (set.decl id) defaults).Sound
  unfold exportBody
  rw [Decl.members] at hfields
  cases hbody : (set.decl id).body with
  | struct ms =>
    rw [hbody] at hfields
    exact hfields
  | union ms =>
    rw [hbody] at hfields
    exact hfields
  | enum ms =>
    rw [hbody] at hfields
    exact hfields
  | «alias» t => trivial
  | newtype t default =>
    intro l hl
    obtain ⟨v, hv, rfl⟩ := Option.map_eq_some_iff.mp hl
    exact hdefaults v (List.mem_append_right _ (Option.mem_toList.mpr hv))

end ModuleSet

/-! ### The table -/

/-- What is found at the places of a list, in order, is the list. -/
theorem filterMap_getElem?_range {α : Type} (as : List α) :
    (List.range as.length).filterMap (as[·]?) = as := by
  have hmap : (List.range as.length).map (as[·]?) = as.map some := by
    refine List.ext_getElem (by simp) fun i _ hi => ?_
    rw [List.length_map] at hi
    simp [hi]
  calc (List.range as.length).filterMap (as[·]?)
      = ((List.range as.length).map (as[·]?)).filterMap id := by rw [List.filterMap_map]; rfl
    _ = (as.map some).filterMap id := by rw [hmap]
    _ = as := by rw [List.filterMap_map, Function.id_comp, List.filterMap_some]

variable {modules : List Source.Module} {c : Compilation}

/-- The records of all declarations, as they are put into the code of their modules. -/
def Compilation.table (c : Compilation) : List Target.Embedded :=
  c.set.modules.flatMap (Target.embedded c)

namespace Compiled

variable (h : Compiled modules c)

include h

theorem sound (hfit : ∀ m ∈ modules, ∀ d ∈ m.decls, ∀ l ∈ d.literals, l.Fits)
    {x : Schema.Decl} (hx : x ∈ c.records) : x.Sound := by
  rw [h.records_eq] at hx
  obtain ⟨d, hd, rfl⟩ := List.mem_map.mp hx
  obtain ⟨i, hi⟩ := List.mem_iff_getElem?.mp hd
  have hliterals := h.resolved.literalsFit hfit
  rw [h.resolved.id_eq hi]
  exact ModuleSet.sound_exportDecl (hliterals i)
    fun v hv => (h.defaultsOf hi).fits hliterals (hliterals i) hv

theorem scopedName_of_getElem? {i : DeclId} {x : Schema.Decl} (hx : c.records[i]? = some x) :
    x.scopedName = c.set.scopedName i := by
  rw [h.records_eq, List.getElem?_map] at hx
  obtain ⟨d, hd, rfl⟩ := Option.map_eq_some_iff.mp hx
  rw [h.resolved.id_eq hd]
  rfl

/-- The table has a row for each record, in order. -/
theorem table_eq : c.table = c.records.map fun x => ⟨x.scopedName, x.toText⟩ := by
  have hrows (m : Module) : Target.embedded c m =
      (m.decls.filterMap (c.records[·]?)).map fun x => ⟨x.scopedName, x.toText⟩ := by
    rw [Target.embedded, List.map_filterMap]
    refine List.filterMap_congr fun id _ => ?_
    refine Option.map_congr fun x hx => ?_
    rw [h.scopedName_of_getElem? hx]
    rfl
  rw [Compilation.table, funext hrows, ← List.map_flatMap, ← List.filterMap_flatMap,
    h.resolved.indexed.places_eq, ← h.length_records, filterMap_getElem?_range]

/-- No two records have the same name. -/
theorem nodup_scopedNames : (c.records.map Schema.Decl.scopedName).Nodup := by
  have heq : c.records.map Schema.Decl.scopedName =
      (List.range c.set.decls.length).map c.set.scopedName := by
    refine List.ext_getElem (by simp [h.length_records]) fun i _ _ => ?_
    rw [List.getElem_map, List.getElem_map, List.getElem_range]
    exact h.scopedName_of_getElem? (List.getElem?_eq_getElem _)
  rw [heq]
  refine List.nodup_range.map_on fun i hi j hj hij => ?_
  have hlookup := h.resolved.lookup_iff.mpr ⟨List.mem_range.mp hi, hij⟩
  exact Option.some.inj (hlookup.symm.trans
    (h.resolved.lookup_iff.mpr ⟨List.mem_range.mp hj, rfl⟩))

end Compiled

/-! ### Main statement -/

/-- The table of a compilation can be read if and only if all numbers in its defaults are finite.
The catalog that is read from it then has one entry for each declaration, which is its record.
Integers are of 128 bits, finite numbers read back from their JSON, and no record is nested more
deeply than a reader follows. -/
theorem ofModules_catalog (hc : Compilation.ofModules modules = .ok c)
    (hfit : ∀ m ∈ modules, ∀ d ∈ m.decls, ∀ l ∈ d.literals, l.Fits)
    (hread : ∀ x ∈ c.records, x.encode.ReadableIn Json.maxDepth) :
    ((Schema.Catalog.ofTable? (c.table.map (·.json))).isSome ↔ ∀ x ∈ c.records, x.finite) ∧
      ∀ catalog, Schema.Catalog.ofTable? (c.table.map (·.json)) = some catalog →
        catalog.size = c.set.decls.length ∧
          ∀ id < c.set.decls.length, ∃ x, c.records[id]? = some x ∧
            catalog.get? (c.set.scopedName id) = some x := by
  have h := ofModules_eq_ok_iff.mp hc
  have hrow : ∀ x ∈ c.records, Schema.Decl.ofText? x.toText = if x.finite then some x else none :=
    fun x hx => Schema.ofText?_toText (h.sound hfit hx) (hread x hx)
  have hrows : c.table.map (·.json) = c.records.map Schema.Decl.toText := by
    rw [h.table_eq, List.map_map]
    rfl
  have hiff : (Schema.Catalog.ofTable? (c.table.map (·.json))).isSome ↔
      ∀ x ∈ c.records, x.finite := by
    rw [hrows, Schema.Catalog.ofTable?_isSome_iff, List.forall_mem_map]
    refine forall₂_congr fun x hx => ?_
    rw [hrow x hx]
    cases x.finite <;> simp
  refine ⟨hiff, fun catalog hcatalog => ?_⟩
  have hfinite := hiff.mp (Option.isSome_of_eq_some hcatalog)
  have hall : List.Forall₂ (fun row x => Schema.Decl.ofText? row = some x)
      (c.table.map (·.json)) c.records := by
    rw [hrows, List.forall₂_map_left_iff, List.forall₂_same]
    exact fun x hx => by rw [hrow x hx, if_pos (hfinite x hx)]
  obtain ⟨_, heq, hsize, hget⟩ := Schema.Catalog.ofTable?_eq_some hall h.nodup_scopedNames
  obtain rfl := Option.some.inj (hcatalog.symm.trans heq)
  refine ⟨hsize.trans h.length_records, fun id hid => ?_⟩
  obtain ⟨x, hx⟩ : ∃ x, c.records[id]? = some x :=
    ⟨_, List.getElem?_eq_getElem (h.length_records.symm ▸ hid)⟩
  exact ⟨x, hx, h.scopedName_of_getElem? hx ▸ hget x (List.mem_of_getElem? hx)⟩

/-- The module of `@Unit "Hz" struct Wave { Double gain = …; Int8 channel = 7; };`, as it is
parsed. -/
def waveModule (gain : Double) : Source.Module :=
  ⟨"signals", [], [⟨"Wave", [], [⟨"Unit", .string "Hz"⟩], .struct
    [⟨"gain", "gain", .mk "Double" [] .start, some (.double gain), [], .start⟩,
      ⟨"channel", "channel", .mk "Int8" [] .start, some (.integer 7), [], .start⟩], .start⟩], []⟩

/-- The record of the declaration in `waveModule`. -/
def waveRecord (gain : Double) : Schema.Decl :=
  ⟨"signals", [(⟨"sys.annotations", "Unit"⟩, .string "Hz")], .struct []
    [⟨[], "gain", some (.double gain), "gain", .mk (.primitive "Double") []⟩,
      ⟨[], "channel", some (.integer 7), "channel", .mk (.primitive "Int8") []⟩], "Wave", none⟩

/-- What `waveModule` compiles to. -/
def waveCompilation (gain : Double) : Compilation :=
  ⟨⟨[⟨"signals", [], [0], []⟩],
      [⟨0, "signals", "Wave", [], [(⟨"sys.annotations", "Unit"⟩, .string "Hz")], .struct
        [⟨"gain", "gain", .mk (.primitive .double) [], some (.double gain), []⟩,
          ⟨"channel", "channel", .mk (.primitive .int8) [], some (.integer 7), []⟩]⟩],
      [(⟨"signals", "Wave"⟩, 0)]⟩,
    [⟨[some (.float gain), some (.int 7)], none⟩], [waveRecord gain]⟩

/-- Any number is a default of type `Double`. -/
theorem ofModules_waveModule (gain : Double) :
    Compilation.ofModules [waveModule gain] = .ok (waveCompilation gain) := by
  cbv

theorem fits_waveModule (gain : Double) :
    ∀ m ∈ [waveModule gain], ∀ d ∈ m.decls, ∀ l ∈ d.literals, l.Fits := by
  simp only [waveModule, List.forall_mem_singleton]
  intro l hl
  have hliterals : l ∈ [.string "Hz", .double gain, .integer 7] := hl
  simp only [List.mem_cons, List.not_mem_nil, or_false] at hliterals
  rcases hliterals with rfl | rfl | rfl
  · exact .string "Hz"
  · exact .double gain
  · exact .integer (by decide) (by decide)

theorem readable_waveRecord {gain : Double} (h : gain.isFinite → gain.ReadsBack) :
    ∀ x ∈ (waveCompilation gain).records, x.encode.ReadableIn Json.maxDepth := by
  intro x hx
  obtain rfl := List.mem_singleton.mp hx
  have hdoubles : (waveRecord gain).encode.doubles = [gain] := rfl
  have hdepth : (waveRecord gain).encode.depth = 8 := rfl
  refine ⟨?_, ?_⟩
  · rw [Json.Readable, hdoubles]
    exact fun d hd => List.mem_singleton.mp hd ▸ h
  · rw [hdepth]
    decide

/-- The default `1.5`. -/
def waveGain : Double := .ofDecimal false 15 (-1)

theorem doubleText_waveGain : Json.doubleText waveGain = "1.5" := by
  have hfinite : waveGain.isFinite := by decide +kernel
  have hzero : waveGain.isZero = false := by decide +kernel
  have hfrom : Double.shortestFrom waveGain.interval .toEven
      (Decimal.floorLog10 waveGain.interval.point waveGain.interval.den) 17 1 = ⟨15, -1⟩ := by
    decide +kernel
  have hshortest : waveGain.shortest Layout.data.tie = ⟨15, -1⟩ := by
    rw [Double.shortest, hzero]
    show (Double.shortestFrom waveGain.interval .toEven _ 17 1).trim = _
    rw [hfrom, Decimal.trim]
    rfl
  rw [Json.doubleText, if_pos hfinite, Layout.text, if_pos hfinite, Layout.magnitudeText, hshortest]
  decide +kernel

theorem readsBack_waveGain : waveGain.ReadsBack := by
  have hparse : Json.Node.parse? "1.5" = some (.number ⟨false, ['1'], ['5'], [], []⟩) := by cbv
  have hscale : Numeral.scalePower (Double.ofInt 15) (-1) = some waveGain := by
    rw [Numeral.scalePower]
    decide +kernel
  rw [Double.ReadsBack, doubleText_waveGain, hparse]
  show ((Numeral.scalePower (Double.ofInt 15) (-1)).map id).map Json.double = _
  rw [hscale]
  rfl

/-- The record of a wave with the default `1.5` is read from the table of its compilation.  A wave
with an infinite default compiles as well, but its table cannot be read. -/
theorem wave_catalog :
    (Compilation.ofModules [waveModule waveGain] = .ok (waveCompilation waveGain) ∧
      ∃ catalog, Schema.Catalog.ofTable? ((waveCompilation waveGain).table.map (·.json)) =
          some catalog ∧
        catalog.size = 1 ∧ catalog.get? ⟨"signals", "Wave"⟩ = some (waveRecord waveGain)) ∧
    Compilation.ofModules [waveModule (.infinite false)] = .ok (waveCompilation (.infinite false)) ∧
      Schema.Catalog.ofTable? ((waveCompilation (.infinite false)).table.map (·.json)) = none := by
  obtain ⟨hread, hget⟩ := ofModules_catalog (ofModules_waveModule waveGain)
    (fits_waveModule _) (readable_waveRecord fun _ => readsBack_waveGain)
  obtain ⟨hinfinite, -⟩ := ofModules_catalog (ofModules_waveModule (.infinite false))
    (fits_waveModule _) (readable_waveRecord fun h => absurd h (by decide))
  refine ⟨⟨ofModules_waveModule _, ?_⟩, ofModules_waveModule _, ?_⟩
  · have hfinite : ∀ x ∈ (waveCompilation waveGain).records, x.finite := by
      simp only [waveCompilation, List.forall_mem_singleton]
      decide +kernel
    obtain ⟨catalog, hcatalog⟩ := Option.isSome_iff_exists.mp (hread.mpr hfinite)
    obtain ⟨hsize, hentries⟩ := hget catalog hcatalog
    obtain ⟨_, hx, hwave⟩ := hentries 0 Nat.one_pos
    cases hx
    exact ⟨catalog, hcatalog, hsize, hwave⟩
  · rw [← Option.not_isSome_iff_eq_none, hinfinite]
    intro hfinite
    exact absurd (hfinite _ List.mem_cons_self) (by decide)

end Adl
