import Adl.Proofs.Compile.Compiled
import Adl.Proofs.Files.Writing
import Adl.Proofs.Model.Indexed
import Adl.Proofs.Source.Notes
import Adl.Proofs.Target.RelativePaths

/-!
# Outputs — the files of several targets

Every target makes one unit of every module (`emitAll_eq_ok`).  The first segment of its path is the
name of the target, the others are those of the file of the module, so no path leads to or through
another one (`apart_of_makes`).  The units can be written into an empty directory if no name and no
path, that of the directory included, is too long, and then they are all there (`outputs_laws`).
-/

namespace Adl

open Adl.Path Adl.Command Adl.Tree

namespace Target

/-! ### Units -/

/-- The target of a name has this name. -/
theorem name_of_ofName {name : String} {target : Target} (h : ofName name = .ok target) :
    target.name = name := by
  unfold ofName at h
  split at h
  · next hfind =>
    cases h
    simpa using List.find?_some hfind
  · cases h

theorem isEntry_name (target : Target) : IsEntry target.name := by
  cases target <;> exact ⟨by decide, by decide, by decide, by decide, by decide⟩

/-- A unit of all targets and modules: the target and its options, and the module. -/
def Makes (c : Compilation) (p : (String × Options) × Module) (u : SourceUnit) : Prop :=
  ∃ target, ofName p.1.1 = .ok target ∧ u = (target.unit c p.2 p.1.2).below p.1.1

variable {c : Compilation} {p p' : (String × Options) × Module} {u u' : SourceUnit}

theorem path_below (target : Target) (c : Compilation) (m : Module) (options : Options)
    (directory : String) : ((target.unit c m options).below directory).path =
      join directory (ofModule m.name target.extension) := by
  rw [SourceUnit.below, unit]

theorem Makes.path_eq (h : Makes c p u) {target : Target} (htarget : ofName p.1.1 = .ok target) :
    u.path = join p.1.1 (ofModule p.2.name target.extension) := by
  obtain ⟨target', htarget', rfl⟩ := h
  cases htarget.symm.trans htarget'
  exact path_below target c p.2 p.1.2 p.1.1

theorem Makes.split_path (h : Makes c p u) (hdotted : Source.IsDotted p.2.name) :
    ∃ target, ofName p.1.1 = .ok target ∧
      Text.split '/' u.path = p.1.1 :: entriesOf p.2.name target.extension := by
  obtain ⟨target, htarget, rfl⟩ := h
  refine ⟨target, htarget, ?_⟩
  have hext := TypeScript.isExtension_extension target
  have hentries := isEntry_of_mem_entriesOf hdotted hext
  have hne : entriesOf p.2.name target.extension ≠ [] := List.concat_ne_nil _ _
  have hname : IsEntry p.1.1 := name_of_ofName htarget ▸ isEntry_name target
  have hlast : p.1.1.toList.getLast? ≠ some '/' := fun h =>
    hname.slash_notMem (List.mem_of_getLast? h)
  rw [path_below, ofModule_eq hdotted hext.ne_empty,
    split_join hname.ne_empty hlast (not_isAbsolute_intercalate hentries),
    split_intercalate hne hentries, Text.split_of_notMem hname.slash_notMem,
    List.singleton_append]

/-- A unit that leads to or through another one is of the same target and module. -/
theorem Makes.eq_of_isPrefix (h : Makes c p u) (h' : Makes c p' u')
    (hdotted : Source.IsDotted p.2.name) (hdotted' : Source.IsDotted p'.2.name)
    (hpre : Text.split '/' u.path <+: Text.split '/' u'.path) :
    p.1.1 = p'.1.1 ∧ p.2.name = p'.2.name := by
  obtain ⟨target, -, hsplit⟩ := h.split_path hdotted
  obtain ⟨target', -, hsplit'⟩ := h'.split_path hdotted'
  rw [hsplit, hsplit'] at hpre
  obtain ⟨hname, hpre⟩ := List.cons_prefix_cons.mp hpre
  exact ⟨hname, (eq_of_entriesOf_isPrefix hdotted hdotted' hpre).1⟩

theorem Makes.inDirectory (h : Makes c p u) (hdotted : Source.IsDotted p.2.name) :
    InDirectory u.path := by
  obtain ⟨target, htarget, hsplit⟩ := h.split_path hdotted
  have hext := TypeScript.isExtension_extension target
  refine ⟨?_, ?_⟩ <;> rw [hsplit]
  · exact List.forall_mem_cons.mpr ⟨name_of_ofName htarget ▸ isEntry_name target,
      isEntry_of_mem_entriesOf hdotted hext⟩
  · simp [entriesOf]

end Target

open Target

/-! ### All units -/

section

variable {modules : List Source.Module} {c : Compilation} {choice : Choice}

theorem Resolved.map_name_modules {set : ModuleSet} (h : Resolved modules set) :
    set.modules.map (·.name) = modules.map (·.name) := by
  have hnames := congrArg (List.map Prod.fst) h.indexed.names_eq
  rwa [List.map_map, List.map_map] at hnames

theorem Resolved.module?_name {set : ModuleSet} (h : Resolved modules set) {m : Module}
    (hm : m ∈ set.modules) : set.module? m.name = some m := by
  have hnd : (set.modules.map (·.name)).Nodup := h.map_name_modules ▸ h.nodup_moduleNames
  rw [ModuleSet.module?]
  cases hfind : set.modules.find? (·.name = m.name) with
  | none => exact absurd (List.find?_eq_none.mp hfind m hm) (by simp)
  | some m' =>
    have hname : m'.name = m.name := by simpa using List.find?_some hfind
    rw [List.inj_on_of_nodup_map hnd (List.mem_of_find?_eq_some hfind) hm hname]

/-- Every known target makes a unit of every module. -/
theorem emitTarget_eq_ok (h : Resolved modules c.set) {name : String} {target : Target}
    (htarget : ofName name = .ok target) (options : Options) :
    c.emitTarget name options =
      .ok (c.set.modules.map fun m => (target.unit c m options).below name) := by
  rw [Compilation.emitTarget, mapM_eq_ok_iff, List.forall₂_map_right_iff, List.forall₂_same]
  intro m hm
  rw [Compilation.emit, htarget, Compilation.module, h.module?_name hm]
  rfl

/-- The units of all targets, in the order of the targets and then of the modules. -/
theorem emitAll_eq_ok (h : Resolved modules c.set)
    (hknown : ∀ e ∈ choice, ∃ target, ofName e.1 = .ok target) :
    ∃ units, c.emitAll choice = .ok units ∧
      List.Forall₂ (Makes c) (choice ×ˢ c.set.modules) units := by
  suffices hunits : ∃ unitss : List (List SourceUnit),
      (choice.mapM fun e => c.emitTarget e.1 e.2) = .ok unitss ∧
        List.Forall₂ (Makes c) (choice ×ˢ c.set.modules) unitss.flatten by
    obtain ⟨unitss, hunitss, hmakes⟩ := hunits
    exact ⟨unitss.flatten, bind_pure_eq_ok_iff.mpr ⟨unitss, hunitss, rfl⟩, hmakes⟩
  induction choice with
  | nil => exact ⟨[], rfl, .nil⟩
  | cons e choice ih =>
    obtain ⟨⟨target, htarget⟩, hknown⟩ := List.forall_mem_cons.mp hknown
    obtain ⟨unitss, hunitss, hmakes⟩ := ih hknown
    have hfirst := emitTarget_eq_ok h htarget e.2
    refine ⟨(c.set.modules.map fun m => (target.unit c m e.2).below e.1) :: unitss, ?_, ?_⟩
    · rw [List.mapM_cons, hfirst, hunitss]
      rfl
    · rw [List.product_cons, List.flatten_cons]
      refine List.rel_append ?_ hmakes
      rw [List.forall₂_map_left_iff, List.forall₂_map_right_iff, List.forall₂_same]
      exact fun m _ => ⟨target, htarget, rfl⟩

/-- What holds of any two elements of a list holds of those that they are related to. -/
theorem pairwise_of_forall₂ {α β : Type} {R : α → β → Prop} {D : α → α → Prop} {E : β → β → Prop}
    {as : List α} {bs : List β} (h : List.Forall₂ R as bs) (hd : as.Pairwise D)
    (himp : ∀ a a' b b', R a b → R a' b' → D a a' → E b b') : bs.Pairwise E := by
  induction h with
  | nil => exact .nil
  | @cons a b as bs hab has ih =>
    obtain ⟨ha, hd⟩ := List.pairwise_cons.mp hd
    refine List.pairwise_cons.mpr ⟨fun b' hb' => ?_, ih hd⟩
    obtain ⟨a', ha', hab'⟩ := exists_of_forall₂ has hb'
    exact himp a a' b b' hab hab' (ha a' ha')

/-- No unit leads to or through another one. -/
theorem apart_of_makes (h : Resolved modules c.set)
    (hdotted : ∀ m ∈ c.set.modules, Source.IsDotted m.name) (hkeys : (choice.map Prod.fst).Nodup)
    {units : List SourceUnit} (hmakes : List.Forall₂ (Makes c) (choice ×ˢ c.set.modules) units) :
    units.Pairwise fun u v => Apart u.path v.path := by
  have hnames : (c.set.modules.map (·.name)).Nodup := h.map_name_modules ▸ h.nodup_moduleNames
  have hnodup : (choice ×ˢ c.set.modules).Nodup := hkeys.of_map.product hnames.of_map
  -- different pairs differ in the name of the target or in that of the module
  have hdiffer : (choice ×ˢ c.set.modules).Pairwise fun p q =>
      (Source.IsDotted p.2.name ∧ Source.IsDotted q.2.name) ∧
        ¬ (p.1.1 = q.1.1 ∧ p.2.name = q.2.name) := by
    refine List.Pairwise.imp_of_mem (fun {p q} hp hq hne => ?_) hnodup
    obtain ⟨hp₁, hp₂⟩ := List.mem_product.mp hp
    obtain ⟨hq₁, hq₂⟩ := List.mem_product.mp hq
    refine ⟨⟨hdotted _ hp₂, hdotted _ hq₂⟩, fun ⟨hkey, hname⟩ => hne ?_⟩
    exact Prod.ext (List.inj_on_of_nodup_map hkeys hp₁ hq₁ hkey)
      (List.inj_on_of_nodup_map hnames hp₂ hq₂ hname)
  refine pairwise_of_forall₂ hmakes hdiffer fun p q u v hu hv ⟨⟨hp, hq⟩, hne⟩ => ⟨?_, ?_⟩
  · exact fun hpre => hne (hu.eq_of_isPrefix hv hp hq hpre)
  · intro hpre
    obtain ⟨hkey, hname⟩ := hv.eq_of_isPrefix hu hq hp hpre
    exact hne ⟨hkey.symm, hname.symm⟩

end

/-! ### Main statement -/

/-- Below a directory, the files of the units are there with their contents, and no other files have
been added, changed or removed. -/
structure Stored (base : String) (place : Place) (units : List SourceUnit) (t t' : Tree) :
    Prop where
  read_eq : ∀ u ∈ units, t'.read (join base u.path) = .ok u.contents
  hasFile_iff : ∀ place' contents, t'.HasFile place' contents ↔
    t.HasFile place' contents ∨ (place', contents) ∈ units.map (fileAt place)

/-- Units that are apart can be written into an empty directory if their paths are not too long, and
then they are all there. -/
theorem stored_of_apart {units : List SourceUnit} (hpaths : ∀ u ∈ units, InDirectory u.path)
    (happart : units.Pairwise fun u v => Apart u.path v.path) {t : Tree} {base : String}
    {place : Place} (hlead : t.LeadsTo base place) (hempty : t.find? place = some empty) :
    ((∃ t', Turns (writeUnits stateWriter base units) t t') ↔ ∀ u ∈ units, Short base u.path) ∧
      ∀ t', Turns (writeUnits stateWriter base units) t t' → Stored base place units t t' := by
  obtain ⟨p, hp, -⟩ := id hlead
  obtain ⟨stem, hstem⟩ := exists_isStem (locate_eq_ok_iff.mp hp).2.1
  have hopens : t.Opens base stem place := ⟨hstem, hlead, [], hempty⟩
  have hwritten (hshort : ∀ u ∈ units, Short base u.path) :=
    turns_writeUnits hopens hpaths hshort
      (fun u hu => freeAt_of_empty hempty (Text.split_ne_nil _ _) (hpaths u hu).isEntry) happart
  refine ⟨⟨fun ⟨t', h⟩ => short_of_turns_writeUnits hstem hpaths h, fun hshort => ?_⟩,
    fun t' h => ?_⟩
  · obtain ⟨t', h, -⟩ := hwritten hshort
    exact ⟨t', h⟩
  · have hshort := short_of_turns_writeUnits hstem hpaths h
    obtain ⟨t'', h', hadds⟩ := hwritten hshort
    obtain rfl : t' = t'' := congrArg Prod.snd (h.symm.trans h')
    refine ⟨fun u hu => ?_, hadds.hasFile_iff⟩
    refine read_of_hasFile (hopens.mono hadds.hasDirectory) (hpaths u hu) (hshort u hu) ?_
    exact (hadds.hasFile_iff _ _).mpr (.inr (List.mem_map_of_mem hu))

/-- The units of known targets are one for each target and module, in this order.  Their paths are
distinct, and none leads through another one.  They can be written into an empty directory if and
only if no name has more than 255 bytes and no path joined to that of the directory, the directory
included, has more than 4095, and then each of them is there under its path, and nothing else.
Modules that were parsed have dotted names (`Source.wellFormed_of_parse`). -/
theorem outputs_laws {modules : List Source.Module} {c : Compilation}
    (h : Compilation.ofModules modules = .ok c) (hdotted : ∀ m ∈ modules, Source.IsDotted m.name)
    {choice : Choice} (hknown : ∀ e ∈ choice, ∃ target, ofName e.1 = .ok target)
    (hkeys : (choice.map Prod.fst).Nodup) :
    ∃ units, c.emitAll choice = .ok units ∧
      List.Forall₂ (Makes c) (choice ×ˢ c.set.modules) units ∧
      (units.map (·.path)).Nodup ∧
      (∀ u ∈ units, ∀ v ∈ units,
        Text.split '/' u.path <+: Text.split '/' v.path → u.path = v.path) ∧
      ∀ t base place, t.LeadsTo base place → t.find? place = some empty →
        ((∃ t', Turns (writeUnits stateWriter base units) t t') ↔
          ∀ u ∈ units, Short base u.path) ∧
        ∀ t', Turns (writeUnits stateWriter base units) t t' → Stored base place units t t' := by
  have hr : Resolved modules c.set := (ofModules_eq_ok_iff.mp h).resolved
  have hdotted' : ∀ m ∈ c.set.modules, Source.IsDotted m.name := by
    intro m hm
    have hname : m.name ∈ modules.map (·.name) := hr.map_name_modules ▸ List.mem_map_of_mem hm
    obtain ⟨sm, hsm, heq⟩ := List.mem_map.mp hname
    exact heq ▸ hdotted sm hsm
  obtain ⟨units, hunits, hmakes⟩ := emitAll_eq_ok hr hknown
  have happart := apart_of_makes hr hdotted' hkeys hmakes
  have hpaths : ∀ u ∈ units, InDirectory u.path := by
    intro u hu
    obtain ⟨p, hp, hmake⟩ := exists_of_forall₂ hmakes hu
    exact hmake.inDirectory (hdotted' _ (List.mem_product.mp hp).2)
  refine ⟨units, hunits, hmakes, ?_, ?_, fun t base place hlead hempty =>
    stored_of_apart hpaths happart hlead hempty⟩
  · refine List.pairwise_map.mpr (happart.imp fun hapart heq => hapart.1 ?_)
    rw [heq]
  · intro u hu v hv
    exact List.Pairwise.forall_of_forall_of_flip
      (R := fun u v : SourceUnit =>
        Text.split '/' u.path <+: Text.split '/' v.path → u.path = v.path)
      (fun _ _ _ => rfl) (happart.imp fun hapart hpre => absurd hpre hapart.1)
      (happart.imp fun hapart hpre => absurd hpre hapart.2) hu hv

/-! ### A module next to one inside it, and a name that is too long -/

/-- A module without declarations. -/
def bareModule (name : String) : Source.Module := ⟨name, [], [], []⟩

/-- The tokens of a module without declarations. -/
def bareTokens (name : String) : List Token :=
  ["module", name, "\x7b", "\x7d"].map fun text => ⟨text, .start⟩

/-- What modules without declarations compile to. -/
def bareCompilation (names : List String) : Compilation :=
  ⟨⟨names.map fun name => ⟨name, [], [], []⟩, [], []⟩, [], []⟩

/-- A tree that has only an empty directory `out`. -/
def outTree : Tree := directory [("out", empty)]

theorem leadsTo_outTree : outTree.LeadsTo "out" ["out"] := ⟨_, rfl, rfl⟩

/-- The files of the modules `a` and `a.b` for both targets are written next to each other. -/
theorem nested_outputs :
    (Compilation.ofModules [bareModule "a", bareModule "a.b"] =
        .ok (bareCompilation ["a", "a.b"]) ∧
      ∀ m ∈ [bareModule "a", bareModule "a.b"], Source.IsDotted m.name) ∧
    ∃ units t', (bareCompilation ["a", "a.b"]).emitAll
        [("rust", .standard), ("typescript", .standard)] = .ok units ∧
      units.map (·.path) = ["rust/a.rs", "rust/a/b.rs", "typescript/a.ts", "typescript/a/b.ts"] ∧
      Turns (writeUnits stateWriter "out" units) outTree t' ∧
      Stored "out" ["out"] units outTree t' := by
  have hcompiled : Compilation.ofModules [bareModule "a", bareModule "a.b"] =
      .ok (bareCompilation ["a", "a.b"]) := by cbv
  have hdotted : ∀ m ∈ [bareModule "a", bareModule "a.b"], Source.IsDotted m.name := by
    refine List.forall_mem_cons.mpr ⟨⟨["a"], by decide, by decide, by decide⟩, ?_⟩
    exact List.forall_mem_singleton.mpr ⟨["a", "b"], by decide, by decide, by decide⟩
  have hknown : ∀ e ∈ [("rust", Options.standard), ("typescript", Options.standard)],
      ∃ target, ofName e.1 = .ok target :=
    List.forall_mem_cons.mpr ⟨⟨.rust, rfl⟩, List.forall_mem_singleton.mpr ⟨.typescript, rfl⟩⟩
  obtain ⟨units, hunits, hmakes, -, -, hstored⟩ :=
    outputs_laws hcompiled hdotted hknown (by decide)
  have hpaths : units.map (·.path) =
      ["rust/a.rs", "rust/a/b.rs", "typescript/a.ts", "typescript/a/b.ts"] := by
    have hall : List.Forall₂ (Makes (bareCompilation ["a", "a.b"]))
        [(("rust", .standard), ⟨"a", [], [], []⟩), (("rust", .standard), ⟨"a.b", [], [], []⟩),
          (("typescript", .standard), ⟨"a", [], [], []⟩),
          (("typescript", .standard), ⟨"a.b", [], [], []⟩)] units := hmakes
    clear hmakes hunits hstored
    obtain _ | ⟨h₁, _ | ⟨h₂, _ | ⟨h₃, _ | ⟨h₄, _ | _⟩⟩⟩⟩ := hall
    have hrust : ofName "rust" = .ok .rust := rfl
    have htypescript : ofName "typescript" = .ok .typescript := rfl
    simp only [List.map_cons, List.map_nil, h₁.path_eq hrust, h₂.path_eq hrust,
      h₃.path_eq htypescript, h₄.path_eq htypescript]
    decide
  obtain ⟨hwrite, hresult⟩ := hstored outTree "out" ["out"] leadsTo_outTree rfl
  have hshort : ∀ path ∈ ["rust/a.rs", "rust/a/b.rs", "typescript/a.ts", "typescript/a/b.ts"],
      Short "out" path := by
    simp only [List.forall_mem_cons]
    exact ⟨⟨by decide, by decide⟩, ⟨by decide, by decide⟩, ⟨by decide, by decide⟩,
      ⟨by decide, by decide⟩, List.forall_mem_nil _⟩
  obtain ⟨t', ht'⟩ := hwrite.mpr fun u hu => hshort _ (hpaths ▸ List.mem_map_of_mem hu)
  exact ⟨⟨hcompiled, hdotted⟩, units, t', hunits, hpaths, ht', hresult t' ht'⟩

theorem parse_bareTokens {name : String} (h : Source.isName name) :
    Source.parse (bareTokens name) = .ok (bareModule name) := by
  have hname : Source.Parser.dottedName 5 ((bareTokens name).drop 1) =
      .ok ((name, .start), (bareTokens name).drop 2) :=
    Source.Parser.bind_eq_ok_iff.mpr ⟨⟨name, .start⟩, _, if_pos h, rfl⟩
  have hmodule : Source.Parser.module 5 (bareTokens name) = .ok (bareModule name, []) := by
    rw [Source.Parser.module]
    refine Source.Parser.bind_eq_ok_iff.mpr ⟨[], bareTokens name, rfl, ?_⟩
    refine Source.Parser.bind_eq_ok_iff.mpr ⟨(), (bareTokens name).drop 1, rfl, ?_⟩
    exact Source.Parser.bind_eq_ok_iff.mpr ⟨(name, .start), _, hname, rfl⟩
  show (Source.Parser.module 5 (bareTokens name)).map _ = _
  rw [hmodule]
  rfl

theorem ofModules_bareModule (name : String) :
    Compilation.ofModules [bareModule name] = .ok (bareCompilation [name]) := by
  cbv

/-- A name of 256 characters. -/
def longName : String := String.ofList (List.replicate 256 'a')

theorem isName_longName : Source.isName longName :=
  Source.isName_iff.mpr ⟨'a', List.replicate 255 'a', String.toList_ofList, by decide,
    fun c hc => (List.eq_of_mem_replicate hc).symm ▸ by decide⟩

theorem size_longName : longName.utf8ByteSize = 256 := by decide +kernel

/-- The unit of a module with this name is not written. -/
theorem longName_unwritten :
    Source.parse (bareTokens longName) = .ok (bareModule longName) ∧
    Compilation.ofModules [bareModule longName] = .ok (bareCompilation [longName]) ∧
    ∃ units, (bareCompilation [longName]).emitAll [("rust", .standard)] = .ok units ∧
      outTree.LeadsTo "out" ["out"] ∧ outTree.find? ["out"] = some empty ∧
      ∀ t', ¬ Turns (writeUnits stateWriter "out" units) outTree t' := by
  have hcompiled := ofModules_bareModule longName
  have hdotted := Source.isDotted_of_isName isName_longName
  obtain ⟨units, hunits, hmakes⟩ := emitAll_eq_ok (ofModules_eq_ok_iff.mp hcompiled).resolved
    (List.forall_mem_singleton.mpr ⟨.rust, rfl⟩ :
      ∀ e ∈ [("rust", Options.standard)], ∃ target, ofName e.1 = .ok target)
  refine ⟨parse_bareTokens isName_longName, hcompiled, units, hunits, leadsTo_outTree, rfl,
    fun t' h => ?_⟩
  have hsingle : List.Forall₂ (Makes (bareCompilation [longName]))
      [(("rust", .standard), ⟨longName, [], [], []⟩)] units := hmakes
  obtain ⟨u, us, hmake, hrest, rfl⟩ := List.forall₂_cons_left_iff.mp hsingle
  obtain rfl := List.forall₂_nil_left_iff.mp hrest
  have hout : "out" ≠ "" := by decide
  obtain ⟨stem, hstem⟩ := exists_isStem hout
  have hshort := short_of_turns_writeUnits hstem
    (List.forall_mem_singleton.mpr (hmake.inDirectory hdotted)) h u (List.mem_singleton_self u)
  obtain ⟨target, -, hsplit⟩ := hmake.split_path hdotted
  have hlast : longName ++ "." ++ target.extension ∈ Text.split '/' u.path := by
    rw [hsplit, entriesOf,
      Text.split_of_notMem (notMem_of_isName isName_longName (by decide))]
    simp
  have hsize := hshort.names _ hlast
  rw [String.utf8ByteSize_append, String.utf8ByteSize_append, size_longName,
    Position.longestName] at hsize
  omega

end Adl
