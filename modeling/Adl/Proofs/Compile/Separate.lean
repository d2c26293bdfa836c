import Adl.Proofs.Compile.Compiled
import Adl.Proofs.Model.Closed
import Adl.Proofs.Model.Shared
import Adl.Proofs.Target.RustRenaming
import Adl.Proofs.Target.TypeScriptRenaming
import Adl.Target.Basic

/-!
# Separate compilation — what is made of a module depends on its dependencies only

Modules that depend on each other only may be compiled together with any others, in any order: their
declarations get other places, but they are the same up to these, and so are their defaults.
Records and generated code name declarations, so they do not change at all
(`separate_compilation`).
-/

namespace Adl

/-! ### Records -/

namespace ModuleSet.Renaming

variable {set set' : ModuleSet} (r : set.Renaming set') {id : DeclId} {t : TypeExpr} {m : Member}
  {x : Defaults}

theorem exportType_eq (ht : t.Within r.Kept) :
    set'.exportType (t.rename r.place) = set.exportType t := by
  induction ht with
  | @mk head args hhead _ ih =>
    have hargs : set'.exportTypes (args.map (TypeExpr.rename r.place)) = set.exportTypes args := by
      rw [exportTypes_eq_map, exportTypes_eq_map, List.map_map]
      exact List.map_congr_left ih
    rw [TypeExpr.rename_mk]
    cases head with
    | primitive p => rw [TypeRef.rename, exportType, exportType, hargs]
    | typeParam name => rfl
    | decl id => rw [TypeRef.rename, exportType, exportType, hargs, r.scopedName_eq (hhead id rfl)]

theorem map_toLiteral_eq {v? : Option Value} (hv : ∀ v, v? = some v → v.Within r.Kept) :
    (v?.map (Value.rename r.place)).map (Value.toLiteral set') = v?.map (Value.toLiteral set) := by
  cases v? with
  | none => rfl
  | some v => exact congrArg some (r.toLiteral_eq (hv v rfl))

theorem exportMember_eq (v? : Option Value) (ht : m.type.Within r.Kept)
    (hv : ∀ v, v? = some v → v.Within r.Kept) :
    set'.exportMember (m.rename r.place) (v?.map (Value.rename r.place)) =
      set.exportMember m v? := by
  rw [exportMember, exportMember, r.map_toLiteral_eq hv]
  exact congrArg (fun t => Schema.Field.mk _ _ _ _ t) (r.exportType_eq ht)

theorem exportMembers_eq {ms : List Member} (vs : List (Option Value))
    (hms : ∀ m ∈ ms, m.type.Within r.Kept) (hvs : ∀ v, some v ∈ vs → v.Within r.Kept) :
    set'.exportMembers (ms.map (Member.rename r.place))
        (vs.map (Option.map (Value.rename r.place))) =
      set.exportMembers ms vs := by
  induction ms generalizing vs with
  | nil => rw [List.map_nil, exportMembers, exportMembers]
  | cons m ms ih =>
    obtain ⟨hm, hms⟩ := List.forall_mem_cons.mp hms
    cases vs with
    | nil =>
      have hmember := r.exportMember_eq none hm fun _ h => nomatch h
      have hrest := ih [] hms fun _ h => nomatch h
      rw [Option.map_none] at hmember
      rw [List.map_nil] at hrest
      rw [List.map_cons, List.map_nil, exportMembers, exportMembers, hmember, hrest]
    | cons v? vs =>
      have hmember := r.exportMember_eq v? hm fun v hv => hvs v (List.mem_cons.mpr (.inl hv.symm))
      have hrest := ih vs hms fun v hv => hvs v (List.mem_cons_of_mem _ hv)
      rw [List.map_cons, List.map_cons, exportMembers, exportMembers, hmember, hrest]

/-- The record of a declaration at a new place is the same. -/
theorem exportDecl_eq (hid : r.Kept id) (hx : x.Within r.Kept) :
    set'.exportDecl (r.place id) (x.rename r.place) = set.exportDecl id x := by
  have hmem : ∀ m ∈ (set.decl id).members, m.type.Within r.Kept :=
    fun m hm => r.within_of_mem_members hid hm
  have htypes : ∀ t ∈ (set.decl id).types, t.Within r.Kept := r.closed id hid
  have hbody : set'.exportBody ((set.decl id).rename r.place) (x.rename r.place) =
      set.exportBody (set.decl id) x := by
    rw [Decl.members] at hmem
    rw [Decl.types] at htypes
    rw [exportBody, exportBody]
    simp only [Decl.rename]
    cases hb : (set.decl id).body with
    | struct ms =>
      rw [hb] at hmem
      exact congrArg (Schema.Body.struct _) (r.exportMembers_eq _ hmem hx.fields)
    | union ms =>
      rw [hb] at hmem
      exact congrArg (Schema.Body.union _) (r.exportMembers_eq _ hmem hx.fields)
    | enum ms =>
      rw [hb] at hmem
      exact congrArg (Schema.Body.union _) (r.exportMembers_eq _ hmem hx.fields)
    | «alias» t =>
      rw [hb] at htypes
      exact congrArg (Schema.Body.alias _) (r.exportType_eq (htypes t List.mem_cons_self))
    | newtype t default =>
      rw [hb] at htypes
      exact congrArg₂ (Schema.Body.newtype _) (r.exportType_eq (htypes t List.mem_cons_self))
        (r.map_toLiteral_eq hx.newtype)
  rw [exportDecl, exportDecl, r.decl_eq id hid]
  exact congrArg (fun b => Schema.Decl.mk _ _ b _ none) hbody

end ModuleSet.Renaming

/-! ### Two compilations -/

/-- What is made of a module is the same in two compilations: the records of its declarations, and
for each target and all options the path and the contents of its unit. -/
def Compilation.SameOutput (c c' : Compilation) (module : String) : Prop :=
  (∃ records, c.moduleRecords module = .ok records ∧ c'.moduleRecords module = .ok records) ∧
    ∀ (target : Target) (options : Target.Options), ∃ unit,
      c.emit target.name module options = .ok unit ∧
        c'.emit target.name module options = .ok unit

namespace SharedModules

variable {D modules modules' : List Source.Module} {c c' : Compilation} {m : Source.Module}
  {i : DeclId} (s : SharedModules D modules modules') (h : Compiled modules c)
  (h' : Compiled modules' c')

include s h h'

/-- A declaration of `D` has the same defaults in both compilations. -/
theorem defaultsOf_eq (hi : Kept D modules i) :
    c'.defaultsOf (place c.set c'.set i) =
        (c.defaultsOf i).rename (place c.set c'.set) ∧
      (c.defaultsOf i).Within (Kept D modules) := by
  obtain ⟨x, hx, hx', -⟩ := s.exists_decl h.resolved h'.resolved hi
  obtain ⟨hdefaults, hw⟩ :=
    (s.toRenaming h.resolved h'.resolved).defaultsOf hi (h.defaultsOf hx)
  have hd := h'.resolved.distinctNames
  exact ⟨((Graph.yields_defaults_iff hd).mpr (h'.defaultsOf hx')).unique
    ((Graph.yields_defaults_iff hd).mpr hdefaults), hw⟩

/-- A declaration of `D` has the same record in both compilations. -/
theorem record_eq (hi : Kept D modules i) :
    c'.records[place c.set c'.set i]? = c.records[i]? := by
  obtain ⟨x, hx, hx', -⟩ := s.exists_decl h.resolved h'.resolved hi
  obtain ⟨hdefaults, hw⟩ := s.defaultsOf_eq h h' hi
  rw [h.record_eq hx, h'.record_eq hx', hdefaults]
  exact congrArg some ((s.toRenaming h.resolved h'.resolved).exportDecl_eq hi hw)

/-! ### Units -/

section Units

variable {x x' : Module} (hname : x'.name = x.name)
  (hdecls : x'.decls = x.decls.map (place c.set c'.set)) (hkept : ∀ i ∈ x.decls, Kept D modules i)

include hdecls hkept

theorem embedded_eq : Target.embedded c' x' = Target.embedded c x := by
  rw [Target.embedded, Target.embedded, hdecls, List.filterMap_map]
  refine List.filterMap_congr fun i hi => ?_
  have hscoped := (s.toRenaming h.resolved h'.resolved).scopedName_eq (hkept i hi)
  show (c'.records[place c.set c'.set i]?).map _ = _
  rw [s.record_eq h h' (hkept i hi)]
  exact congrArg (fun n => (c.records[i]?).map fun r => Target.Embedded.mk n r.toText) hscoped

include hname

theorem rust_unitLines_eq (options : Target.Options) :
    Rust.unitLines c' x' options = Rust.unitLines c x options := by
  have hlines : ∀ i ∈ x.decls,
      Rust.declLines (.ofOptions c'.set x.name options) (c'.set.decl (place c.set c'.set i))
          (c'.defaultsOf (place c.set c'.set i)) =
        Rust.declLines (.ofOptions c.set x.name options) (c.set.decl i) (c.defaultsOf i) := by
    intro i hi
    obtain ⟨hdefaults, hw⟩ := s.defaultsOf_eq h h' (hkept i hi)
    rw [hdefaults]
    exact Rust.Context.declLines_eq (s.toRenaming h.resolved h'.resolved) (hkept i hi) hw
  rw [Rust.unitLines, Rust.unitLines, hname, s.embedded_eq h h' hdecls hkept, hdecls,
    List.flatMap_map, List.flatMap_congr hlines]

theorem importedModules_eq :
    TypeScript.importedModules c' x' = TypeScript.importedModules c x := by
  have hmodules : ∀ i ∈ x.decls,
      TypeScript.declModules c'.set (c'.set.decl (place c.set c'.set i))
          (c'.defaultsOf (place c.set c'.set i)) =
        TypeScript.declModules c.set (c.set.decl i) (c.defaultsOf i) := by
    intro i hi
    obtain ⟨hdefaults, hw⟩ := s.defaultsOf_eq h h' (hkept i hi)
    rw [hdefaults]
    exact TypeScript.declModules_eq (s.toRenaming h.resolved h'.resolved) (hkept i hi) hw
  rw [TypeScript.importedModules, TypeScript.importedModules, hname, hdecls, List.flatMap_map,
    List.flatMap_congr hmodules]

theorem typescript_unitLines_eq (options : Target.Options) :
    TypeScript.unitLines c' x' options = TypeScript.unitLines c x options := by
  have hlines : ∀ i ∈ x.decls,
      TypeScript.declLines ⟨c'.set, x.name⟩ (c'.set.decl (place c.set c'.set i))
          (c'.defaultsOf (place c.set c'.set i)) =
        TypeScript.declLines ⟨c.set, x.name⟩ (c.set.decl i) (c.defaultsOf i) := by
    intro i hi
    obtain ⟨hdefaults, hw⟩ := s.defaultsOf_eq h h' (hkept i hi)
    rw [hdefaults]
    exact TypeScript.Context.declLines_eq (s.toRenaming h.resolved h'.resolved) (hkept i hi) hw
  rw [TypeScript.unitLines, TypeScript.unitLines, s.importedModules_eq h h' hname hdecls hkept,
    s.embedded_eq h h' hdecls hkept, hname, hdecls, List.flatMap_map, List.flatMap_congr hlines]

theorem unit_eq (target : Target) (options : Target.Options) :
    target.unit c' x' options = target.unit c x options := by
  have hlines : target.unitLines c' x' options = target.unitLines c x options := by
    cases target with
    | rust => exact s.rust_unitLines_eq h h' hname hdecls hkept options
    | typescript => exact s.typescript_unitLines_eq h h' hname hdecls hkept options
  rw [Target.unit, Target.unit, hname, hlines]

end Units

/-- A module of `D` has the same records and the same units in both compilations. -/
theorem sameOutput (hm : m ∈ D) : c.SameOutput c' m.name := by
  obtain ⟨x, x', hx, hx', hname, hname', hdecls, hkept⟩ :=
    s.module?_eq h.resolved h'.resolved hm
  have hmodule : c.module m.name = .ok x := by rw [Compilation.module, hx]
  have hmodule' : c'.module m.name = .ok x' := by rw [Compilation.module, hx']
  have hrecords : x'.decls.filterMap (c'.records[·]?) = x.decls.filterMap (c.records[·]?) := by
    rw [hdecls, List.filterMap_map]
    exact List.filterMap_congr fun i hi => s.record_eq h h' (hkept i hi)
  constructor
  · refine ⟨x.decls.filterMap (c.records[·]?), ?_, ?_⟩
    · rw [Compilation.moduleRecords, hmodule]
      rfl
    · rw [Compilation.moduleRecords, hmodule', ← hrecords]
      rfl
  · intro target options
    have htarget : Target.ofName target.name = .ok target := by cases target <;> rfl
    have hunit := s.unit_eq h h' (hname'.trans hname.symm) hdecls hkept target options
    refine ⟨target.unit c x options, ?_, ?_⟩
    · rw [Compilation.emit, htarget, hmodule]
      rfl
    · rw [Compilation.emit, htarget, hmodule', ← hunit]
      rfl

end SharedModules

/-- A list of modules that compiles is closed, so it is shared with every list that contains it. -/
theorem Compiled.shared {modules modules' : List Source.Module} {c : Compilation}
    (h : Compiled modules c) (hsub : ∀ m ∈ modules, m ∈ modules') :
    SharedModules modules modules modules' :=
  ⟨fun _ hm => hm, hsub, fun _ hm _ hn => h.resolved.dependencies_closed hm hn⟩

/-- What is made of a module depends on the modules that it depends on only.  In two compilations
it is the same for all modules of a collection that both share and that is closed; in particular
neither the order of modules nor other modules matter. -/
theorem separate_compilation {modules modules' : List Source.Module} {c c' : Compilation}
    (h : Compilation.ofModules modules = .ok c) (h' : Compilation.ofModules modules' = .ok c') :
    (∀ D, SharedModules D modules modules' → ∀ m ∈ D, c.SameOutput c' m.name) ∧
      ((∀ m ∈ modules, m ∈ modules') → ∀ m ∈ modules, c.SameOutput c' m.name) := by
  rw [ofModules_eq_ok_iff] at h h'
  exact ⟨fun D s m hm => s.sameOutput h h' hm,
    fun hsub m hm => (h.shared hsub).sameOutput h h' hm⟩

/-- The module of `import geometry.Point; struct Line { Point from = {"x": 0}; };`, as it is
parsed. -/
def lineModule : Source.Module :=
  ⟨"drawing", [⟨"geometry", .name "Point", .start⟩], [⟨"Line", [], [], .struct
    [⟨"from", "from", .mk "Point" [] .start, some (.object [("x", .integer 0)]), [], .start⟩],
    .start⟩], []⟩

/-- The module of `struct Note { String text; };`, as it is parsed. -/
def noteModule : Source.Module :=
  ⟨"notes", [], [⟨"Note", [], [], .struct
    [⟨"text", "text", .mk "String" [] .start, none, [], .start⟩], .start⟩], []⟩

/-- What the declaration of `pointModule` becomes. -/
def pointDecl (id : DeclId) : Decl :=
  let int8 : TypeExpr := .mk (.primitive .int8) []
  ⟨id, "geometry", "Point", [], [], .struct
    [⟨"x", "x", int8, none, []⟩, ⟨"y", "y", int8, some (.integer 7), []⟩]⟩

/-- What the declaration of `lineModule` becomes. -/
def lineDecl (id point : DeclId) : Decl :=
  ⟨id, "drawing", "Line", [], [], .struct
    [⟨"from", "from", .mk (.decl point) [], some (.object [("x", .integer 0)]), []⟩]⟩

/-- A compilation with the records of its declarations. -/
def Compilation.ofParts (set : ModuleSet) (defaults : List Defaults) : Compilation :=
  ⟨set, defaults, set.decls.map fun d => set.exportDecl d.id (defaults[d.id]?.getD .empty)⟩

/-- The line module after the point module. -/
def lineCompilation : Compilation :=
  .ofParts ⟨[⟨"geometry", [], [0], []⟩, ⟨"drawing", ["geometry"], [1], []⟩],
      [pointDecl 0, lineDecl 1 0], [(⟨"geometry", "Point"⟩, 0), (⟨"drawing", "Line"⟩, 1)]⟩
    [⟨[none, some (.int 7)], none⟩, ⟨[some (.struct 0 [.int 0, .int 7])], none⟩]

/-- The line module between another one and the point module. -/
def notedCompilation : Compilation :=
  .ofParts ⟨[⟨"notes", [], [0], []⟩, ⟨"drawing", ["geometry"], [1], []⟩,
        ⟨"geometry", [], [2], []⟩],
      [⟨0, "notes", "Note", [], [], .struct
        [⟨"text", "text", .mk (.primitive .string) [], none, []⟩]⟩, lineDecl 1 2, pointDecl 2],
      [(⟨"notes", "Note"⟩, 0), (⟨"drawing", "Line"⟩, 1), (⟨"geometry", "Point"⟩, 2)]⟩
    [⟨[none], none⟩, ⟨[some (.struct 2 [.int 0, .int 7])], none⟩, ⟨[none, some (.int 7)], none⟩]

/-- The line module has the same output in both, though its `Point` has another place. -/
theorem line_sameOutput :
    Compilation.ofModules [Graph.pointModule, lineModule] = .ok lineCompilation ∧
      Compilation.ofModules [noteModule, lineModule, Graph.pointModule] = .ok notedCompilation ∧
      SharedModules [lineModule, Graph.pointModule] [Graph.pointModule, lineModule]
        [noteModule, lineModule, Graph.pointModule] ∧
      lineCompilation.SameOutput notedCompilation "drawing" := by
  have h : Compilation.ofModules [Graph.pointModule, lineModule] = .ok lineCompilation := by cbv
  have h' : Compilation.ofModules [noteModule, lineModule, Graph.pointModule] =
      .ok notedCompilation := by cbv
  have s : SharedModules [lineModule, Graph.pointModule] [Graph.pointModule, lineModule]
      [noteModule, lineModule, Graph.pointModule] := by
    refine ⟨by simp, by simp, ?_⟩
    intro m hm name hn
    rcases List.mem_cons.mp hm with rfl | hm
    · have hdependencies : lineModule.dependencies = ["geometry"] := rfl
      rw [hdependencies, List.mem_singleton] at hn
      exact ⟨Graph.pointModule, List.mem_cons_of_mem _ List.mem_cons_self, hn.symm⟩
    · have hdependencies : Graph.pointModule.dependencies = [] := rfl
      rw [List.mem_singleton.mp hm, hdependencies] at hn
      cases hn
  exact ⟨h, h', s, (separate_compilation h h').1 _ s lineModule List.mem_cons_self⟩

end Adl
