import Adl.Proofs.Files.Provided
import Adl.Proofs.Model.UnknownNames

/-!
# Loading — the closure of a list of modules under their dependencies

Loading from a tree gives the modules that are reached from the roots (`Reached`), in the order in
which their names are first mentioned when the modules are read one after the other.  What has been
loaded after some levels satisfies `Progress`; one level preserves it (`Progress.level`), and where
no name is new, every dependency is there (`Progress.isClosure`).  A level that finds a name takes a
file that no earlier one took, so the bound on the number of levels is never reached
(`Progress.length_le`).
-/

namespace Adl

/-! ### The order of discovery -/

theorem Loader.newNames_eq (seen names : List String) :
    Loader.newNames seen names = (names.removeAll seen).eraseDups := by
  induction names generalizing seen with
  | nil => simp [Loader.newNames, List.removeAll]
  | cons name names ih =>
    rw [Loader.newNames, List.cons_removeAll]
    by_cases h : name ∈ seen
    · rw [if_pos h, ih, if_neg]
      simpa using h
    · rw [if_neg h, ih, if_pos (by simpa using h), List.eraseDups_cons, List.removeAll,
        List.removeAll, List.filter_filter]
      congr 2
      refine List.filter_congr fun n _ => ?_
      by_cases hn : n = name <;> simp [hn]

theorem eraseDups_of_nodup {names : List String} (h : names.Nodup) : names.eraseDups = names := by
  induction names with
  | nil => rfl
  | cons name names ih =>
    obtain ⟨hname, hnames⟩ := List.nodup_cons.mp h
    rw [List.eraseDups_cons, List.filter_eq_self.mpr, ih hnames]
    intro n hn
    have hne : n ≠ name := fun heq => hname (heq ▸ hn)
    simpa using hne

theorem nodup_eraseDups : (names : List String) → names.eraseDups.Nodup
  | [] => .nil
  | name :: names => by
    rw [List.eraseDups_cons]
    exact List.nodup_cons.mpr ⟨by simp [List.mem_eraseDups], nodup_eraseDups _⟩
termination_by names => names.length
decreasing_by exact Nat.lt_succ_of_le (List.length_filter_le _ _)

theorem removeAll_eraseDups (names seen : List String) :
    names.removeAll seen.eraseDups = names.removeAll seen := by
  rw [List.removeAll, List.removeAll]
  refine List.filter_congr fun n _ => ?_
  rw [List.elem_eq_mem, List.elem_eq_mem, decide_eq_decide.mpr List.mem_eraseDups]

/-! ### What is loaded -/

section

variable (t : Tree) (searchPath : List String) (roots : List Source.Module)

/-- A module is reached from the roots along dependencies: what a module that is reached depends on
is a root, or what is provided under its name. -/
inductive Reached : Source.Module → Prop
  | root {m : Source.Module} (hm : m ∈ roots) : Reached m
  | step {m m' : Source.Module} {name : String} (h : Reached m) (hdep : m.DependsOn name)
      (hroot : ∀ r ∈ roots, r.name ≠ name) (hm' : Provides t searchPath name m') : Reached m'

/-- What has been loaded when the dependencies of all modules before the last level have been
followed. -/
structure Progress (earlier last : List Source.Module) : Prop where
  roots_prefix : roots <+: earlier ++ last
  names_eq : (earlier ++ last).map (·.name) =
    (roots.map (·.name) ++ earlier.flatMap (·.dependencies)).eraseDups
  reached : ∀ m ∈ earlier ++ last, Reached t searchPath roots m
  found : ∀ (i : Nat) m, roots.length ≤ i → (earlier ++ last)[i]? = some m →
    Provides t searchPath m.name m ∧
      ∃ (j : Nat) (m' : Source.Module), j < i ∧ (earlier ++ last)[j]? = some m' ∧
        m'.DependsOn m.name

end

theorem map_name_of_provides {t : Tree} {searchPath names : List String} {ms : List Source.Module}
    (h : List.Forall₂ (Provides t searchPath) names ms) : ms.map (·.name) = names := by
  induction h with
  | nil => rfl
  | cons hm _ ih => rw [List.map_cons, hm.1, ih]

namespace Progress

variable {t : Tree} {searchPath : List String} {roots earlier last next : List Source.Module}

theorem start (hnd : (roots.map (·.name)).Nodup) : Progress t searchPath roots [] roots where
  roots_prefix := List.prefix_rfl
  names_eq := by simpa using (eraseDups_of_nodup hnd).symm
  reached _ hm := .root hm
  found i m hi hm := by
    have hlt : i < roots.length := (List.getElem?_eq_some_iff.mp hm).1
    omega

section

variable (h : Progress t searchPath roots earlier last)

include h

theorem nodup : ((earlier ++ last).map (·.name)).Nodup := h.names_eq ▸ nodup_eraseDups _

/-- The names of the next level: those that the last one depends on and that are new. -/
theorem names_append :
    (earlier ++ last).map (·.name) ++
        Loader.newNames ((earlier ++ last).map (·.name)) (last.flatMap (·.dependencies)) =
      (roots.map (·.name) ++ (earlier ++ last).flatMap (·.dependencies)).eraseDups := by
  rw [Loader.newNames_eq, List.flatMap_append, ← List.append_assoc, List.eraseDups_append,
    h.names_eq, removeAll_eraseDups]

/-- A name that is new is no root, and the last level depends on it. -/
theorem of_mem_newNames {name : String} (hname : name ∈
      Loader.newNames ((earlier ++ last).map (·.name)) (last.flatMap (·.dependencies))) :
    (∃ m ∈ last, m.DependsOn name) ∧ ∀ r ∈ roots, r.name ≠ name := by
  rw [Loader.newNames_eq, List.mem_eraseDups, List.removeAll, List.mem_filter] at hname
  obtain ⟨hdep, hnew⟩ := hname
  obtain ⟨m, hm, hdep⟩ := List.mem_flatMap.mp hdep
  refine ⟨⟨m, hm, Source.Module.mem_dependencies_iff_dependsOn.mp hdep⟩, ?_⟩
  rintro r hr rfl
  have hmem : r.name ∈ (earlier ++ last).map (·.name) :=
    List.mem_map_of_mem (h.roots_prefix.subset hr)
  rw [List.elem_eq_mem, decide_eq_true hmem] at hnew
  cases hnew

/-- One level more. -/
theorem level (hlevel : List.Forall₂ (Provides t searchPath)
      (Loader.newNames ((earlier ++ last).map (·.name)) (last.flatMap (·.dependencies))) next) :
    Progress t searchPath roots (earlier ++ last) next := by
  have hnew : ∀ m ∈ next, Provides t searchPath m.name m ∧ (∃ m' ∈ last, m'.DependsOn m.name) ∧
      ∀ r ∈ roots, r.name ≠ m.name := by
    intro m hm
    obtain ⟨name, hname, hprovides⟩ := exists_of_forall₂ hlevel hm
    obtain rfl := hprovides.1
    exact ⟨hprovides, h.of_mem_newNames hname⟩
  constructor
  · exact h.roots_prefix.trans (List.prefix_append _ _)
  · rw [List.map_append, map_name_of_provides hlevel]
    exact h.names_append
  · intro m hm
    rcases List.mem_append.mp hm with hm | hm
    · exact h.reached m hm
    · obtain ⟨hprovides, ⟨m', hm', hdep⟩, hroot⟩ := hnew m hm
      exact .step (h.reached m' (List.mem_append_right _ hm')) hdep hroot hprovides
  · intro i m hi hm
    rcases Nat.lt_or_ge i (earlier ++ last).length with hlt | hge
    · rw [List.getElem?_append_left hlt] at hm
      obtain ⟨hprovides, j, m', hj, hm', hdep⟩ := h.found i m hi hm
      refine ⟨hprovides, j, m', hj, ?_, hdep⟩
      rwa [List.getElem?_append_left (hj.trans hlt)]
    · rw [List.getElem?_append_right hge] at hm
      obtain ⟨hprovides, ⟨m', hm', hdep⟩, -⟩ := hnew m (List.mem_of_getElem? hm)
      obtain ⟨j, hj⟩ := List.mem_iff_getElem?.mp (List.mem_append_right earlier hm')
      have hlt := (List.getElem?_eq_some_iff.mp hj).1
      refine ⟨hprovides, j, m', by omega, ?_, hdep⟩
      rwa [List.getElem?_append_left hlt]

/-- Behind the roots there are no more modules than files, and texts of the prelude. -/
theorem length_le :
    (earlier ++ last).length ≤ roots.length + t.files.length + Prelude.names.length := by
  have hdrop : (((earlier ++ last).drop roots.length).map (·.name)).Nodup :=
    h.nodup.sublist ((List.drop_sublist _ _).map _)
  have hprovided : ∀ name ∈ ((earlier ++ last).drop roots.length).map (·.name),
      ∃ m, Provides t searchPath name m := by
    intro name hname
    obtain ⟨m, hm, rfl⟩ := List.mem_map.mp hname
    obtain ⟨i, hi⟩ := List.mem_iff_getElem?.mp hm
    rw [List.getElem?_drop] at hi
    exact ⟨m, (h.found _ m (Nat.le_add_right _ _) hi).1⟩
  have hle := length_le_of_provided hdrop hprovided
  rw [List.length_map, List.length_drop] at hle
  omega

end

end Progress

/-! ### Runs of the loader -/

namespace Loader

variable {t : Tree} {searchPath : List String} {roots earlier last ms loaded : List Source.Module}
  {fuel : Nat}

theorem checkName_eq_ok_iff {name : String} {m : Source.Module} :
    checkName name m = .ok () ↔ m.name = name := by
  unfold checkName
  split <;> simp_all

/-- A level is loaded if each of its names is provided. -/
theorem yields_level_iff {names : List String} {next : List Source.Module} :
    (Yields (names.mapM (t.loader searchPath).loadModule) next ∧
      Yields ((names.zip next).forM fun (name, m) =>
        (ExceptT.mk (pure (checkName name m)) : ExceptT Error Id Unit)) ()) ↔
      List.Forall₂ (Provides t searchPath) names next := by
  rw [yields_mapM, yields_forM, List.forall₂_iff_zip, List.forall₂_iff_zip, and_assoc]
  refine and_congr_right fun _ => ?_
  constructor
  · rintro ⟨hload, hname⟩ name m hm
    exact ⟨checkName_eq_ok_iff.mp (hname (name, m) hm), yields_loadModule_iff.mp (hload hm)⟩
  · intro h
    refine ⟨fun hm => yields_loadModule_iff.mpr (h hm).2, ?_⟩
    rintro ⟨name, m⟩ hm
    exact checkName_eq_ok_iff.mpr (h hm).1

/-- Loading goes on as long as there are new names. -/
theorem yields_follow_succ_iff :
    Yields ((t.loader searchPath).follow (fuel + 1) loaded last) ms ↔
      if newNames (loaded.map (·.name)) (last.flatMap (·.dependencies)) = [] then loaded = ms
      else ∃ next, List.Forall₂ (Provides t searchPath)
          (newNames (loaded.map (·.name)) (last.flatMap (·.dependencies))) next ∧
        Yields ((t.loader searchPath).follow fuel (loaded ++ next) next) ms := by
  rw [follow]
  generalize newNames (loaded.map (·.name)) (last.flatMap (·.dependencies)) = wanted
  cases wanted with
  | nil => exact yields_pure
  | cons name names =>
    dsimp only
    rw [if_neg (List.cons_ne_nil _ _), yields_bind]
    refine exists_congr fun next => ?_
    rw [yields_bind, ← yields_level_iff, and_assoc]
    refine and_congr_right fun _ => ?_
    exact ⟨fun ⟨_, hcheck, h⟩ => ⟨hcheck, h⟩, fun ⟨hcheck, h⟩ => ⟨(), hcheck, h⟩⟩

/-- What a run of the loader ends with. -/
theorem progress_of_follow (h : Progress t searchPath roots earlier last)
    (hfuel : roots.length + t.files.length + Prelude.names.length < (earlier ++ last).length + fuel)
    (hms : Yields ((t.loader searchPath).follow fuel (earlier ++ last) last) ms) :
    Progress t searchPath roots ms [] := by
  induction fuel generalizing earlier last with
  | zero => exact absurd h.length_le (by omega)
  | succ fuel ih =>
    rw [yields_follow_succ_iff] at hms
    split at hms
    · next hnone =>
      subst hms
      exact h.level (hnone ▸ .nil)
    · next hnew =>
      obtain ⟨next, hnext, hms⟩ := hms
      refine ih (h.level hnext) ?_ hms
      have hpos : 0 < next.length := hnext.length_eq ▸ List.length_pos_iff.mpr hnew
      have hlength : (earlier ++ last ++ next).length = (earlier ++ last).length + next.length :=
        List.length_append
      omega

/-- The loader ends with a list if everything it looks for is provided. -/
theorem exists_yields_follow (h : Progress t searchPath roots earlier last)
    (hprovided : ∀ m, Reached t searchPath roots m → ∀ name, m.DependsOn name →
      (∀ r ∈ roots, r.name ≠ name) → ∃ m', Provides t searchPath name m') :
    ∃ ms, Yields ((t.loader searchPath).follow fuel (earlier ++ last) last) ms := by
  induction fuel generalizing earlier last with
  | zero => exact ⟨_, yields_pure.mpr rfl⟩
  | succ fuel ih =>
    simp only [yields_follow_succ_iff]
    split
    · exact ⟨_, rfl⟩
    · have hnames : ∀ name ∈
          newNames ((earlier ++ last).map (·.name)) (last.flatMap (·.dependencies)),
          ∃ m, Provides t searchPath name m := by
        intro name hname
        obtain ⟨⟨m, hm, hdep⟩, hroot⟩ := h.of_mem_newNames hname
        exact hprovided m (h.reached m (List.mem_append_right _ hm)) name hdep hroot
      obtain ⟨next, hnext⟩ := exists_forall₂ hnames
      obtain ⟨ms, hms⟩ := ih (h.level hnext)
      exact ⟨ms, next, hnext, hms⟩

theorem failsWith_follow (fuel : Nat) (loaded last : List Source.Module) :
    FailsWith (fun e => ∀ n, e ≠ .duplicateModule n)
      ((t.loader searchPath).follow fuel loaded last).run := by
  induction fuel generalizing loaded last with
  | zero => exact .pure _
  | succ fuel ih =>
    rw [follow]
    split
    · exact .pure _
    · rw [run_bind, run_mapM]
      refine (FailsWith.mapM failsWith_loadModule _).bind fun next => ?_
      rw [run_bind, run_forM]
      refine (FailsWith.forM fun p _ => ?_).bind fun _ => ih _ _
      obtain ⟨name, m⟩ := p
      show FailsWith _ (checkName name m)
      unfold checkName
      split
      · exact .pure _
      · exact .error (by simp)

theorem run_loadDependencies :
    ((t.loader searchPath).loadDependencies roots).run =
      (Library.checkDistinct roots >>= fun _ =>
        ((t.loader searchPath).follow (t.files.length + Prelude.names.length + 1) roots roots).run :
        Except Error (List Source.Module)) := by
  rw [loadDependencies, run_bind]
  refine bind_congr fun _ => ?_
  rw [run_bind]
  rfl

end Loader

/-! ### The closure -/

section

variable (t : Tree) (searchPath : List String) (roots ms : List Source.Module)

/-- Modules stand in the order of their discovery, breadth first: their names come in the order in
which they are mentioned first when the roots are named and the dependencies of all modules are read
one after the other.  Behind the roots every module is mentioned by one before it. -/
structure DiscoveryOrder : Prop where
  names_eq : ms.map (·.name) = (roots.map (·.name) ++ ms.flatMap (·.dependencies)).eraseDups
  mentioned : ∀ (i : Nat) m, roots.length ≤ i → ms[i]? = some m →
    ∃ (j : Nat) (m' : Source.Module), j < i ∧ ms[j]? = some m' ∧ m'.DependsOn m.name

/-- Modules are the closure of the roots under what is provided for their dependencies. -/
structure IsClosure : Prop where
  roots_prefix : roots <+: ms
  distinct : (ms.map (·.name)).Nodup
  closed : DependencyClosed ms
  mem_iff : ∀ m, m ∈ ms ↔ Reached t searchPath roots m
  provided : ∀ m ∈ ms, m ∈ roots ∨ Provides t searchPath m.name m
  order : DiscoveryOrder roots ms

end

section

variable {t : Tree} {searchPath : List String} {roots ms : List Source.Module}

/-- Where no level is left, the closure is loaded. -/
theorem Progress.isClosure (h : Progress t searchPath roots ms []) :
    IsClosure t searchPath roots ms := by
  have hroots := h.roots_prefix
  have hnames := h.names_eq
  have hreached := h.reached
  have hfound := h.found
  rw [List.append_nil] at hroots hnames hreached hfound
  have hdistinct : (ms.map (·.name)).Nodup := hnames ▸ nodup_eraseDups _
  have hclosed : DependencyClosed ms := by
    intro m hm name hdep
    have hmem : name ∈ ms.map (·.name) := by
      rw [hnames, List.mem_eraseDups]
      refine List.mem_append_right _ (List.mem_flatMap.mpr ⟨m, hm, ?_⟩)
      exact Source.Module.mem_dependencies_iff_dependsOn.mpr hdep
    exact List.mem_map.mp hmem
  have hprovided : ∀ m ∈ ms, m ∈ roots ∨ Provides t searchPath m.name m := by
    intro m hm
    obtain ⟨i, hi⟩ := List.mem_iff_getElem?.mp hm
    rcases Nat.lt_or_ge i roots.length with hlt | hge
    · obtain ⟨rest, rfl⟩ := hroots
      rw [List.getElem?_append_left hlt] at hi
      exact .inl (List.mem_of_getElem? hi)
    · exact .inr (hfound i m hge hi).1
  refine ⟨hroots, hdistinct, hclosed, fun m => ⟨hreached m, fun hm => ?_⟩, hprovided, hnames, ?_⟩
  · induction hm with
    | root hm => exact hroots.subset hm
    | step _ hdep hroot hm' ih =>
      obtain ⟨m, hm, hname⟩ := hclosed _ ih _ hdep
      rcases hprovided m hm with hmr | hmp
      · exact absurd hname (hroot m hmr)
      · exact (hname ▸ hmp).unique hm' ▸ hm
  · exact fun i m hi hm => (hfound i m hi hm).2

/-- Two modules of one name are the only error of the check of the roots. -/
theorem checkDistinct_eq_ok_iff : Library.checkDistinct roots = .ok () ↔
    (roots.map (·.name)).Nodup := by
  rw [Library.checkDistinct]
  cases hf : firstRepeated [] (roots.map (·.name)) with
  | none => exact iff_of_true rfl (firstRepeated_eq_none_iff.mp hf).1
  | some n =>
    refine iff_of_false (fun h => nomatch h) fun hnd => ?_
    rw [firstRepeated_eq_none_iff.mpr ⟨hnd, fun _ _ => List.not_mem_nil⟩] at hf
    cases hf

theorem yields_loadDependencies_iff :
    Yields ((t.loader searchPath).loadDependencies roots) ms ↔ (roots.map (·.name)).Nodup ∧
      Yields ((t.loader searchPath).follow (t.files.length + Prelude.names.length + 1) roots roots)
        ms := by
  rw [Yields, Loader.run_loadDependencies, check_bind_eq_ok_iff, checkDistinct_eq_ok_iff, Yields]

end

/-- Loading what a list of modules depends on computes its closure.  It fails with two modules of
one name just if two roots have one name.  If not, it succeeds just if every module on which a
reached module depends is a root or provided.  What it gives is the closure, and resolving that
reports no module as missing or repeated. -/
theorem loadDependencies_closure (t : Tree) (searchPath : List String)
    (roots : List Source.Module) :
    ((∃ n, ((t.loader searchPath).loadDependencies roots).run =
        Except.error (.duplicateModule n)) ↔ ¬ (roots.map (·.name)).Nodup) ∧
    ((roots.map (·.name)).Nodup →
      ((∃ ms, Yields ((t.loader searchPath).loadDependencies roots) ms) ↔
        ∀ m, Reached t searchPath roots m → ∀ name, m.DependsOn name →
          (∀ r ∈ roots, r.name ≠ name) → ∃ m', Provides t searchPath name m')) ∧
    ∀ ms, Yields ((t.loader searchPath).loadDependencies roots) ms →
      IsClosure t searchPath roots ms ∧ ∀ e, Reports ms e → Resolve.ModulesPresent ms e := by
  have hclosure : ∀ ms, Yields ((t.loader searchPath).loadDependencies roots) ms →
      IsClosure t searchPath roots ms := by
    intro ms hms
    obtain ⟨hnd, hms⟩ := yields_loadDependencies_iff.mp hms
    exact (Loader.progress_of_follow (.start hnd) (by simp; omega) hms).isClosure
  refine ⟨?_, ?_, fun ms hms => ⟨hclosure ms hms, ?_⟩⟩
  · rw [Loader.run_loadDependencies]
    constructor
    · rintro ⟨n, hn⟩ hnd
      rw [checkDistinct_eq_ok_iff.mpr hnd] at hn
      exact Loader.failsWith_follow _ _ _ _ hn n rfl
    · intro hnd
      cases hcheck : Library.checkDistinct roots with
      | ok => exact absurd (checkDistinct_eq_ok_iff.mp hcheck) hnd
      | error e =>
        rw [Library.checkDistinct] at hcheck
        split at hcheck
        · next n _ =>
          cases hcheck
          exact ⟨n, rfl⟩
        · cases hcheck
  · intro hnd
    constructor
    · rintro ⟨ms, hms⟩ m hm name hdep hroot
      have h := hclosure ms hms
      obtain ⟨m', hm', rfl⟩ := h.closed m ((h.mem_iff m).mpr hm) name hdep
      rcases h.provided m' hm' with hr | hp
      · exact absurd rfl (hroot m' hr)
      · exact ⟨m', hp⟩
    · intro hprovided
      obtain ⟨ms, hms⟩ := Loader.exists_yields_follow (.start hnd) hprovided
      exact ⟨ms, yields_loadDependencies_iff.mpr ⟨hnd, hms⟩⟩
  · have h := hclosure ms hms
    exact fun e he => present_of_reports h.distinct h.closed he

/-- A directory with two modules that import each other. -/
def drawingTree : Tree :=
  .directory [("lib", .directory [
    ("shapes.adl", .file "module shapes \x7b import lines.*; \x7d;".toUTF8),
    ("lines.adl", .file "module lines \x7b import shapes.*; \x7d;".toUTF8)])]

/-- The module `module drawing { import shapes.*; };` as it is parsed. -/
def drawingModule : Source.Module := ⟨"drawing", [⟨"shapes", .all, ⟨1, 25⟩⟩], [], []⟩

theorem drawing_closure :
    ([drawingModule].map (·.name)).Nodup ∧
    ∃ ms, Yields ((drawingTree.loader ["src", "lib"]).loadDependencies [drawingModule]) ms ∧
      ms.map (·.name) = ["drawing", "shapes", "lines"] ∧
      IsClosure drawingTree ["src", "lib"] [drawingModule] ms ∧
      (∀ m, Reached drawingTree ["src", "lib"] [drawingModule] m → ∀ name, m.DependsOn name →
        (∀ r ∈ [drawingModule], r.name ≠ name) →
        ∃ m', Provides drawingTree ["src", "lib"] name m') := by
  have hnd : ([drawingModule].map (·.name)).Nodup := by decide
  have hnames : (((drawingTree.loader ["src", "lib"]).loadDependencies [drawingModule]).run
      : Except Error (List Source.Module)).toOption.map (·.map (·.name)) =
      some ["drawing", "shapes", "lines"] := by decide +kernel
  obtain ⟨ms, hms, hms'⟩ := Option.map_eq_some_iff.mp hnames
  have hyields : Yields ((drawingTree.loader ["src", "lib"]).loadDependencies [drawingModule]) ms :=
    toOption_eq_some_iff.mp hms
  obtain ⟨-, hok, hclosure⟩ := loadDependencies_closure drawingTree ["src", "lib"] [drawingModule]
  exact ⟨hnd, ms, hyields, hms', (hclosure ms hyields).1, (hok hnd).mp ⟨ms, hyields⟩⟩

end Adl
