import Adl.Proofs.Compile.Sources
import Adl.Proofs.Target.Built
import Adl.Proofs.Target.RustIdentifiers

/-!
# RustNames — the names that a Rust unit defines

The names in a unit are made from those of the declarations and members of its module.
`NamesConvert` says when these survive the conversions, and exactly then the names in the unit are
identifiers that can stand side by side and hide nothing that is used (`namesFit_iff_namesConvert`).
-/

namespace Adl

open Source (isName)
open Text (IsNameText snakeCase pascalCase)

/-! ### Names in a set -/

theorem Source.Decl.WellFormed.isName_members {P : Literal → Prop} {d : Source.Decl}
    (h : d.WellFormed P) : ∀ m ∈ d.members, isName m.name := by
  have hbody := h.body
  unfold Source.Decl.members
  cases hb : d.body <;> rw [hb] at hbody
  case struct ms => exact fun m hm => (hbody m hm).name
  case union ms => exact fun m hm => (hbody m hm).1.name
  case enum ms => exact fun m hm => (hbody m hm).1.name
  case «alias» => exact List.forall_mem_nil _
  case newtype => exact List.forall_mem_nil _

/-- The names in a set that is resolved from parsed modules are names. -/
theorem Resolved.isName_decl {modules : List Source.Module} {set : ModuleSet}
    (h : Resolved modules set) {P : Literal → Prop} (hwf : ∀ sm ∈ modules, sm.WellFormed P)
    {id : DeclId} {x : Decl} (hx : set.decls[id]? = some x) :
    isName x.name ∧ ∀ m ∈ x.members, isName m.name := by
  obtain ⟨sm, sd, hplace, hr⟩ := h.place_of_decls hx
  obtain ⟨hsm, hsd⟩ := Resolve.mem_places_iff.mp (List.mem_of_getElem? hplace)
  have hdecl := (hwf sm hsm).decls sd hsd
  have hmembers := Resolve.map_name_of_resolveDecl hr
  refine ⟨?_, fun m hm => ?_⟩
  · obtain ⟨-, body, -, rfl⟩ := Resolve.resolveDecl_eq_ok_iff.mp hr
    exact hdecl.name
  · have hname := List.mem_map_of_mem (f := Member.name) hm
    rw [hmembers] at hname
    obtain ⟨m', hm', heq⟩ := List.mem_map.mp hname
    rw [← heq]
    exact hdecl.isName_members m' hm'

namespace Rust

open Target (Options)

/-! ### Names in a unit -/

/-- The name of the type that an item defines. -/
def Item.typeName : Item → String
  | .record r => r.name
  | .sum s => s.name
  | .alias a => a.name
  | .newtype n => n.name

/-- The names of the fields or of the variants of an item, with that of a marker. -/
def Item.memberNames : Item → List String
  | .record r => r.fields.map Field.name ++ if !r.marker.isEmpty then [Expr.markerField] else []
  | .sum s => s.variants.map Variant.name ++ if !s.marker.isEmpty then ["_Phantom"] else []
  | .alias _ => []
  | .newtype _ => []

/-- The names of the functions of an item: the constructor of a record and the defaults of its
fields. -/
def Item.functionNames : Item → List String
  | .record r => "new" :: r.fields.filterMap fun f => f.default.map DefaultFn.name
  | .sum _ => []
  | .alias _ => []
  | .newtype _ => []

/-- The names of the types of a unit. -/
def typeNames (c : Compilation) (m : Module) (options : Options) : List String :=
  m.decls.map fun id => (itemOf c options id).typeName

/-- The names of the functions and the constants of a unit. -/
def valueNames (c : Compilation) (m : Module) (options : Options) : List String :=
  handleNames (m.decls.map fun id => (c.set.decl id).name) ++
    if options.includeAst then constNames ((Target.embedded c m).map fun r => r.name.name) else []

/-- What a unit names without a path although it does not define it. -/
def borrowed : List String := ["Vec", "Option", "Box", "String", "Serialize", "Deserialize"]

/-- The names in a unit are fit for it: wherever several stand side by side, they are identifiers
and differ, and the types do not hide any other type or derivation that is named. -/
structure NamesFit (c : Compilation) (m : Module) (options : Options) : Prop where
  types : Separate (typeNames c m options)
  visible : ∀ name ∈ borrowed, name ∉ typeNames c m options
  members : ∀ id ∈ m.decls, Separate (itemOf c options id).memberNames
  functions : ∀ id ∈ m.decls, Separate (itemOf c options id).functionNames
  values : Separate (valueNames c m options)

/-- The members of a declaration have names of which those of fields or variants can be made. -/
def MembersConvert (d : Decl) : Prop :=
  match d.body with
  | .struct ms => FieldsConvert (ms.map Member.name) (Context.marked d)
  | .union ms => TypesConvert (ms.map Member.name)
  | .enum ms => TypesConvert (ms.map Member.name)
  | .alias _ => True
  | .newtype _ _ => True

/-- The declarations of a module and their members have names of which those of its unit can be
made.  The table of the records has a name as if it were the record of something called `map`. -/
structure NamesConvert (c : Compilation) (m : Module) (options : Options) : Prop where
  types : TypesConvert (m.decls.map fun id => (c.set.decl id).name)
  visible : ∀ id ∈ m.decls, pascalCase (c.set.decl id).name ∉ borrowed
  members : ∀ id ∈ m.decls, MembersConvert (c.set.decl id)
  values : (m.decls.map fun id => snakeCase (c.set.decl id).name).Nodup
  table : options.includeAst → ∀ id ∈ m.decls, snakeCase (c.set.decl id).name ≠ "map"

variable {c : Compilation} {m : Module} {options : Options} {id : DeclId}

theorem typeName_itemOf (c : Compilation) (options : Options) (id : DeclId) :
    (itemOf c options id).typeName = typeIdent (c.set.decl id).name := by
  unfold itemOf Context.item
  cases (c.set.decl id).body <;> rfl

theorem separate_memberNames_iff {modules : List Source.Module} (hset : Resolved modules c.set)
    (h : ∀ m ∈ (c.set.decl id).members, isName m.name) :
    Separate (itemOf c options id).memberNames ↔ MembersConvert (c.set.decl id) := by
  have hsum (ms : List Member) (hms : ∀ m ∈ ms, isName m.name) :
      Separate ((ms.map ((homeContext c options id).variant (c.set.decl id).id)).map Variant.name ++
        if !(Context.unused (c.set.decl id)).isEmpty then ["_Phantom"] else []) ↔
        TypesConvert (ms.map Member.name) := by
    have hmap : (ms.map ((homeContext c options id).variant (c.set.decl id).id)).map Variant.name =
        (ms.map Member.name).map typeIdent := by
      rw [List.map_map, List.map_map]
      rfl
    rw [hmap]
    split
    · refine separate_typeIdents_iff (List.forall_mem_map.mpr hms) ⟨?_, ?_⟩ ?_ ?_
      · exact List.forall_mem_singleton.mpr (.plain (by decide) (by decide) (by decide))
      · decide
      · exact List.forall_mem_singleton.mpr (Source.isNameText_of_isName (by decide))
      · exact List.forall_mem_singleton.mpr (by decide)
    · exact separate_typeIdents_iff (List.forall_mem_map.mpr hms) separate_nil
        (List.forall_mem_nil _) (List.forall_mem_nil _)
  rw [Decl.members] at h
  rw [MembersConvert]
  cases hbody : (c.set.decl id).body with
  | struct ms =>
    rw [hbody] at h
    obtain ⟨r, hitem, hmarker, hnames, -⟩ := itemOf_struct hset options hbody
    have hfields : ms.map (fun m => fieldIdent m.name) = (ms.map Member.name).map fieldIdent := by
      rw [List.map_map]
      rfl
    rw [hitem, Item.memberNames, hnames, hfields, hmarker]
    exact separate_fieldIdents_iff (List.forall_mem_map.mpr h) _
  | union ms =>
    rw [hbody] at h
    rw [itemOf, Context.item, hbody]
    exact hsum ms h
  | enum ms =>
    rw [hbody] at h
    rw [itemOf, Context.item, hbody]
    exact hsum ms h
  | «alias» t =>
    rw [itemOf, Context.item, hbody]
    exact iff_of_true separate_nil trivial
  | newtype t default =>
    rw [itemOf, Context.item, hbody]
    exact iff_of_true separate_nil trivial

/-- The functions for the defaults of fields are among those that all fields would have. -/
theorem defaultNames_sublist (ctx : Context) (owner : DeclId) (defaults : Defaults)
    (ms : List Member) (k : Nat) :
    (((ms.zipIdx k).map fun p => ctx.field owner p.1 (defaults.member? p.2)).filterMap
      fun f => f.default.map DefaultFn.name).Sublist (ms.map Context.defaultName) := by
  induction ms generalizing k with
  | nil => exact .slnil
  | cons m ms ih =>
    rw [List.zipIdx_cons, List.map_cons, List.map_cons, List.filterMap_cons]
    split
    · exact (ih (k + 1)).cons _
    · next name hname =>
      obtain ⟨f, hf, rfl⟩ := Option.map_eq_some_iff.mp hname
      obtain ⟨v, -, rfl⟩ := Option.map_eq_some_iff.mp hf
      exact (ih (k + 1)).cons_cons _

/-- The functions of a record can stand side by side if its fields can. -/
theorem separate_functionNames (h : ∀ m ∈ (c.set.decl id).members, isName m.name)
    (hmembers : MembersConvert (c.set.decl id)) : Separate (itemOf c options id).functionNames := by
  rw [Decl.members] at h
  unfold MembersConvert at hmembers
  unfold itemOf Context.item
  cases hbody : (c.set.decl id).body with
  | union ms => exact separate_nil
  | enum ms => exact separate_nil
  | «alias» t => exact separate_nil
  | newtype t default => exact separate_nil
  | struct ms =>
    rw [hbody] at h hmembers
    have hsublist := defaultNames_sublist (homeContext c options id) (c.set.decl id).id
      (c.defaultsOf id) ms 0
    have hdefaults : ∀ x ∈ ms.map Context.defaultName,
        x ≠ "new" ∧ IsIdentifier x ∧ IsNameText x := by
      refine List.forall_mem_map.mpr fun m hm => ⟨?_, ?_⟩
      · simp [Context.defaultName, ← String.toList_inj]
      · have htext := Source.isNameText_of_isName (h m hm)
        exact isIdentifier_prefixed (by decide) (Text.isSnakeText_snakeCase htext).isNameText
    have hapart : (ms.map Context.defaultName).Nodup := by
      have hnames : ((ms.map Member.name).map fun name => "def_" ++ snakeCase name).Nodup :=
        (nodup_map_iff_nodup_map fun _ _ _ _ => String.append_right_inj _).mpr hmembers.apart
      rwa [List.map_map] at hnames
    have hall : Separate ("new" :: ms.map Context.defaultName) := by
      have hnew : isName "new" := by decide
      refine (separate_iff_nodup (List.forall_mem_cons.mpr ⟨⟨?_, ?_⟩, ?_⟩)).mpr
        (List.nodup_cons.mpr ⟨fun hmem => (hdefaults _ hmem).1 rfl, hapart⟩)
      · exact .plain hnew (by decide) (by decide)
      · exact Source.isNameText_of_isName hnew
      · exact fun x hx => (hdefaults x hx).2
    exact hall.sublist (hsublist.cons_cons "new")

/-! ### Lines that define names -/

/-- The line starts the definition of something of this name. -/
def Defines (line name : String) : Prop :=
  ∃ head ∈ ["pub struct ", "pub enum ", "pub type ", "pub fn ", "pub const "], ∃ rest,
    line = head ++ (name ++ rest)

theorem Item.exists_defines (i : Item) : ∃ line ∈ i.lines, Defines line i.typeName := by
  cases i with
  | record r =>
    refine ⟨"pub struct " ++ (r.name ++ (Text.angled r.params ++ " \x7b")), ?_,
      "pub struct ", by decide, _, rfl⟩
    simp [Item.lines, Record.lines, String.append_assoc]
  | sum s =>
    refine ⟨"pub enum " ++ (s.name ++ (Text.angled s.params ++ " \x7b")), ?_,
      "pub enum ", by decide, _, rfl⟩
    simp [Item.lines, Sum.lines, String.append_assoc]
  | «alias» a =>
    refine ⟨"pub type " ++ (a.name ++ (Text.angled a.params ++ (" = " ++ (a.target.text ++ ";")))),
      ?_, "pub type ", by decide, _, rfl⟩
    simp [Item.lines, Alias.lines, String.append_assoc]
  | newtype n =>
    obtain ⟨line, hline, hdefines⟩ : ∃ line ∈ n.structLines, Defines line n.name := by
      unfold Newtype.structLines
      simp only [String.append_assoc]
      split
      · exact ⟨_, List.mem_cons_of_mem _ List.mem_cons_self, "pub struct ", by decide, _, rfl⟩
      · exact ⟨_, List.mem_cons_self, "pub struct ", by decide, _, rfl⟩
    exact ⟨line, List.mem_append_left _ (List.mem_append_right _ hline), hdefines⟩

theorem exists_defines_handle (runtime : String) (n : ScopedName) (params : List String) :
    ∀ name ∈ [refName n.name, typeExprName n.name],
      ∃ line ∈ handleLines runtime n params, Defines line name := by
  intro name hname
  unfold handleLines
  simp only [String.append_assoc]
  rcases List.mem_pair.mp hname with rfl | rfl
  · exact ⟨_, List.mem_cons_self, "pub fn ", by decide, _, rfl⟩
  · exact ⟨_, List.mem_cons_of_mem _ (List.mem_cons_of_mem _ (List.mem_cons_of_mem _
      (List.mem_cons_of_mem _ List.mem_cons_self))), "pub fn ", by decide, _, rfl⟩

theorem exists_defines_embedded (records : List Target.Embedded) :
    ∀ name ∈ constNames (records.map fun r => r.name.name),
      ∃ line ∈ embeddedLines records, Defines line name := by
  unfold constNames embeddedLines
  simp only [String.append_assoc]
  refine List.forall_mem_append.mpr ⟨?_, List.forall_mem_singleton.mpr ?_⟩
  · intro name hname
    obtain ⟨_, hn, rfl⟩ := List.mem_map.mp hname
    obtain ⟨r, hr, rfl⟩ := List.mem_map.mp hn
    refine ⟨"pub const " ++ (constName r.name.name ++ (": &str = " ++ (rawString r.json ++ ";"))),
      ?_, "pub const ", by decide, _, rfl⟩
    refine List.mem_append_left _ (List.mem_append_left _ (List.mem_append_left _ ?_))
    exact List.mem_flatMap.mpr ⟨r, hr, List.mem_cons_self⟩
  · exact ⟨"pub const AST_MAP: &[(&str, &str)] = &[", by simp, "pub const ", by decide,
      ": &[(&str, &str)] = &[", by decide⟩

/-- The types, functions and constants of a unit are defined in it. -/
theorem exists_defines_unit {modules : List Source.Module} (h : Resolved modules c.set)
    (hm : m ∈ c.set.modules) : ∀ name ∈ typeNames c m options ++ valueNames c m options,
      ∃ line ∈ unitLines c m options, Defines line name := by
  rw [unitLines_eq h hm]
  simp only [List.mem_append, List.mem_flatMap]
  rintro name (hname | hname)
  · obtain ⟨id, hid, rfl⟩ := List.mem_map.mp hname
    obtain ⟨line, hline, hdefines⟩ := (itemOf c options id).exists_defines
    exact ⟨line, .inl (.inl (.inr ⟨id, hid, .inl (.inl (.inr hline))⟩)), hdefines⟩
  · rcases List.mem_append.mp hname with hname | hname
    · obtain ⟨_, hn, hname⟩ := List.mem_flatMap.mp hname
      obtain ⟨id, hid, rfl⟩ := List.mem_map.mp hn
      obtain ⟨line, hline, hdefines⟩ := exists_defines_handle (homeContext c options id).runtime
        (c.set.scopedName id) (c.set.decl id).typeParams name hname
      exact ⟨line, .inl (.inl (.inr ⟨id, hid, .inr hline⟩)), hdefines⟩
    · split at hname
      · next hembedded =>
        obtain ⟨line, hline, hdefines⟩ := exists_defines_embedded (Target.embedded c m) name hname
        rw [if_pos hembedded]
        exact ⟨line, .inl (.inr (List.mem_cons_of_mem _ hline)), hdefines⟩
      · cases hname

/-! ### Main statement -/

section

variable {modules : List Source.Module} (h : Compiled modules c) (hm : m ∈ c.set.modules)

include h hm

/-- There is a record for each declaration. -/
theorem map_name_embedded :
    (Target.embedded c m).map (fun r => r.name.name) =
      m.decls.map fun id => (c.set.decl id).name := by
  rw [Target.embedded, List.map_filterMap, ← List.filterMap_eq_map]
  refine List.filterMap_congr fun id hid => ?_
  obtain ⟨x, hx⟩ := h.resolved.indexed.exists_decl hm hid
  rw [h.record_eq hx]
  rfl

theorem namesFit_iff {P : Literal → Prop} (hwf : ∀ sm ∈ modules, sm.WellFormed P) :
    NamesFit c m options ↔ NamesConvert c m options := by
  have hdecl : ∀ id ∈ m.decls,
      isName (c.set.decl id).name ∧ ∀ y ∈ (c.set.decl id).members, isName y.name := by
    intro id hid
    obtain ⟨x, hx⟩ := h.resolved.indexed.exists_decl hm hid
    rw [ModuleSet.decl_of_getElem? hx]
    exact h.resolved.isName_decl hwf hx
  have hnames : ∀ name ∈ m.decls.map fun id => (c.set.decl id).name, isName name :=
    List.forall_mem_map.mpr fun id hid => (hdecl id hid).1
  have htypeNames : typeNames c m options =
      (m.decls.map fun id => (c.set.decl id).name).map typeIdent := by
    rw [typeNames, List.map_map]
    exact List.map_congr_left fun id _ => typeName_itemOf c options id
  have htypes : Separate (typeNames c m options) ↔
      TypesConvert (m.decls.map fun id => (c.set.decl id).name) := by
    have hiff := separate_typeIdents_iff hnames separate_nil (List.forall_mem_nil _)
      (List.forall_mem_nil _)
    rwa [List.append_nil, ← htypeNames] at hiff
  have hvisible : (∀ name ∈ borrowed, name ∉ typeNames c m options) ↔
      ∀ id ∈ m.decls, pascalCase (c.set.decl id).name ∉ borrowed := by
    rw [htypeNames, List.map_map]
    constructor
    · exact fun hnone id hid hmem => hnone _ hmem (List.mem_map_of_mem hid)
    · intro hnone name hmem hname
      obtain ⟨id, hid, rfl⟩ := List.mem_map.mp hname
      exact hnone id hid hmem
  have hvalues : Separate (valueNames c m options) ↔
      (m.decls.map fun id => snakeCase (c.set.decl id).name).Nodup ∧
        (options.includeAst → ∀ id ∈ m.decls, snakeCase (c.set.decl id).name ≠ "map") := by
    rw [valueNames, map_name_embedded h hm, separate_handleNames_iff
      (fun name hname => Source.isNameText_of_isName (hnames name hname)), List.map_map,
      ← List.forall_mem_ne', List.forall_mem_map]
    rfl
  constructor
  · rintro ⟨hleft, hfree, hmembers, -, hright⟩
    obtain ⟨hapart, htable⟩ := hvalues.mp hright
    exact ⟨htypes.mp hleft, hvisible.mp hfree,
      fun id hid => (separate_memberNames_iff h.resolved (hdecl id hid).2).mp (hmembers id hid),
      hapart, htable⟩
  · rintro ⟨hleft, hfree, hmembers, hapart, htable⟩
    exact ⟨htypes.mpr hleft, hvisible.mpr hfree,
      fun id hid => (separate_memberNames_iff h.resolved (hdecl id hid).2).mpr (hmembers id hid),
      fun id hid => separate_functionNames (hdecl id hid).2 (hmembers id hid),
      hvalues.mpr ⟨hapart, htable⟩⟩

end

/-- In a compiled set the names that the unit of a module defines are fit for it exactly if those of
its declarations and members survive the conversions.  Modules that are parsed are well-formed
(`Compilation.exists_modules`). -/
theorem namesFit_iff_namesConvert {modules : List Source.Module} {P : Literal → Prop}
    (hc : Compilation.ofModules modules = .ok c) (hwf : ∀ sm ∈ modules, sm.WellFormed P)
    (hm : m ∈ c.set.modules) (options : Options) :
    (∀ name ∈ typeNames c m options ++ valueNames c m options,
      ∃ line ∈ unitLines c m options, Defines line name) ∧
      (NamesFit c m options ↔ NamesConvert c m options) := by
  have h := ofModules_eq_ok_iff.mp hc
  exact ⟨exists_defines_unit h.resolved hm, namesFit_iff h hm hwf⟩

/-- The modules of `module words { union Pronoun { Void self; Void other; }; };` and of
`module moves { struct Move { Int32 self; String type; }; };`, as they are parsed. -/
def pronounModules : List Source.Module :=
  let member (name type : String) : Source.Member :=
    ⟨name, name, .mk type [] .start, none, [], .start⟩
  [⟨"words", [],
      [⟨"Pronoun", [], [], .union [member "self" "Void", member "other" "Void"], .start⟩], []⟩,
    ⟨"moves", [],
      [⟨"Move", [], [], .struct [member "self" "Int32", member "type" "String"], .start⟩], []⟩]

/-- What `pronounModules` compile to. -/
def pronounCompilation : Compilation :=
  let member (name : String) (p : Primitive) : Member :=
    ⟨name, name, .mk (.primitive p) [], none, []⟩
  let set : ModuleSet :=
    ⟨[⟨"words", [], [0], []⟩, ⟨"moves", [], [1], []⟩],
      [⟨0, "words", "Pronoun", [], [], .union [member "self" .void, member "other" .void]⟩,
        ⟨1, "moves", "Move", [], [], .struct [member "self" .int32, member "type" .string]⟩],
      [(⟨"words", "Pronoun"⟩, 0), (⟨"moves", "Move"⟩, 1)]⟩
  let defaults : List Defaults := [⟨[none, none], none⟩, ⟨[none, none], none⟩]
  ⟨set, defaults, set.decls.map fun d => set.exportDecl d.id (defaults[d.id]?.getD .empty)⟩

set_option maxRecDepth 10000 in
/-- A field may have a reserved word as its name but a variant may not. -/
theorem pronoun_namesFit :
    Compilation.ofModules pronounModules = .ok pronounCompilation ∧
      (∀ sm ∈ pronounModules, sm.WellFormed fun _ => True) ∧
      (itemOf pronounCompilation .standard 0).memberNames = ["Self", "Other"] ∧
      ¬ NamesFit pronounCompilation ⟨"words", [], [0], []⟩ .standard ∧
      (itemOf pronounCompilation .standard 1).memberNames = ["self_", "r#type"] ∧
      NamesFit pronounCompilation ⟨"moves", [], [1], []⟩ .standard := by
  have hcompiles : Compilation.ofModules pronounModules = .ok pronounCompilation := by cbv
  have hwf : ∀ sm ∈ pronounModules, sm.WellFormed fun _ => True := by
    have hmember {name type : String} (hname : isName name) (htype : isName type) :
        (⟨name, name, .mk type [] .start, none, [], .start⟩ : Source.Member).WellFormed
          fun _ => True :=
      ⟨hname, .mk (Source.isDotted_of_isName htype) (List.forall_mem_nil _),
        fun _ _ => trivial, List.forall_mem_nil _⟩
    have hmodule {name decl : String} {body : Source.Body} (hname : isName name)
        (hdecl : isName decl) (henum : ∀ ms, body ≠ .enum ms)
        (hbody : body.WellFormed fun _ => True) :
        (⟨name, [], [⟨decl, [], [], body, .start⟩], []⟩ : Source.Module).WellFormed
          fun _ => True :=
      ⟨Source.isDotted_of_isName hname, List.forall_mem_nil _, List.forall_mem_singleton.mpr
        ⟨hdecl, List.forall_mem_nil _, fun ms hms => absurd hms (henum ms), List.forall_mem_nil _,
          hbody⟩, List.forall_mem_nil _⟩
    refine List.forall_mem_cons.mpr ⟨hmodule (by decide) (by decide) (by simp) ?_,
      List.forall_mem_singleton.mpr (hmodule (by decide) (by decide) (by simp) ?_)⟩
    · exact List.forall_mem_cons.mpr ⟨⟨hmember (by decide) (by decide), rfl⟩,
        List.forall_mem_singleton.mpr ⟨hmember (by decide) (by decide), rfl⟩⟩
    · exact List.forall_mem_cons.mpr ⟨hmember (by decide) (by decide),
        List.forall_mem_singleton.mpr (hmember (by decide) (by decide))⟩
  obtain ⟨-, hwords⟩ := namesFit_iff_namesConvert hcompiles hwf (m := ⟨"words", [], [0], []⟩)
    List.mem_cons_self .standard
  obtain ⟨-, hmoves⟩ := namesFit_iff_namesConvert hcompiles hwf (m := ⟨"moves", [], [1], []⟩)
    (List.mem_cons_of_mem _ List.mem_cons_self) .standard
  refine ⟨hcompiles, hwf, by decide +kernel, fun hfit => ?_, by decide +kernel, hmoves.mpr ?_⟩
  · have hmembers : TypesConvert ["self", "other"] :=
      (hwords.mp hfit).members 0 List.mem_cons_self
    exact hmembers.unreserved "self" List.mem_cons_self (by decide +kernel)
  · have htypes : TypesConvert ["Move"] := ⟨by decide, by decide +kernel, by decide +kernel⟩
    have hfields : FieldsConvert ["self", "type"] false :=
      ⟨by decide, by decide +kernel, by decide +kernel, by simp⟩
    exact ⟨htypes, by decide +kernel, List.forall_mem_singleton.mpr hfields, by decide +kernel,
      fun _ => by decide +kernel⟩

end Rust

end Adl
