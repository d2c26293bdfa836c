import Adl.Proofs.Model.Closed
import Adl.Proofs.Model.References

/-!
# ImportOrder — the lines of imports in another order

What the imports of a module supply for a name depends on which lines there are, not on their order
or number (`Scope.SameLines.imported_perm`).  So modules that differ in this only are resolved in
the same way: names stand for the same declarations, and an error is the same but for the order in
which it tells candidates (`Error.Alike`).  With the rules by which names are looked up in the
modules this says what resolving does (`resolutionLaws`).
-/

namespace Adl

/-! ### Import lines in another order -/

/-- Two modules have the same lines of imports, maybe in another order or more than once, and do not
differ in anything else. -/
structure Source.Module.SameLines (m m' : Source.Module) : Prop where
  name_eq : m.name = m'.name
  decls_eq : m.decls = m'.decls
  annotations_eq : m.annotations = m'.annotations
  lines_iff : ∀ module kind, (∃ line ∈ m.imports, line.module = module ∧ line.kind = kind) ↔
    ∃ line ∈ m'.imports, line.module = module ∧ line.kind = kind

/-- Two errors are the same, but for the order of candidates, and for the cycle if they report
one. -/
inductive Error.Alike : Error → Error → Prop
  | refl (e : Error) : Alike e e
  | candidates {location : Location} {name : String} {cs cs' : List String} (h : cs.Perm cs') :
      Alike (.ambiguousReference location name cs) (.ambiguousReference location name cs')
  | cycle (c c' : List String) : Alike (.cyclicImport c) (.cyclicImport c')

/-- Two sets have the same declarations, and the same modules but for the imports. -/
structure ModuleSet.SameDecls (set set' : ModuleSet) : Prop where
  decls_eq : set.decls = set'.decls
  names_eq : set.names = set'.names
  modules_eq : set.modules.map (fun m => (m.name, m.decls, m.annotations)) =
    set'.modules.map fun m => (m.name, m.decls, m.annotations)

/-- Two lists of modules are resolved to the same declarations, or fail with errors that are
alike. -/
inductive SameOutcome : Except (List Error) ModuleSet → Except (List Error) ModuleSet → Prop
  | ok {set set' : ModuleSet} (h : set.SameDecls set') : SameOutcome (.ok set) (.ok set')
  | error {errors errors' : List Error} (left : ∀ e ∈ errors, ∃ e' ∈ errors', e.Alike e')
      (right : ∀ e' ∈ errors', ∃ e ∈ errors, e.Alike e') :
      SameOutcome (.error errors) (.error errors')

/-- What resolving makes of names and imports. -/
structure ResolutionLaws (modules : List Source.Module) : Prop where
  scopes : PassesChecks modules → ∀ m ∈ modules, ∀ d ∈ m.decls, ∀ location,
    ScopeRules modules ⟨(Resolve.declNames modules).zipIdx, m, d.typeParams, location⟩
  /-- The types in a resolved set are those that the written ones stand for. -/
  types : ∀ set, ModuleSet.resolve modules = .ok set → PassesChecks modules ∧
    ∀ i m d, (Resolve.places modules)[i]? = some (m, d) →
      List.Forall₂ (StandsFor modules m d.typeParams) d.types (set.decl i).types
  import_order : ∀ modules', List.Forall₂ Source.Module.SameLines modules modules' →
    SameOutcome (ModuleSet.resolve modules) (ModuleSet.resolve modules')
  /-- Behind the checks each module has one error at most, and each error stays in its place. -/
  module_errors : PassesChecks modules → ∀ modules',
    List.Forall₂ Source.Module.SameLines modules modules' → PassesChecks modules' ∧
      ∀ errors, ModuleSet.resolve modules = .error errors →
        ∃ errors', ModuleSet.resolve modules' = .error errors' ∧
          List.Forall₂ Error.Alike errors errors'

theorem Source.Module.SameLines.symm {m m' : Source.Module} (h : m.SameLines m') :
    m'.SameLines m where
  name_eq := h.name_eq.symm
  decls_eq := h.decls_eq.symm
  annotations_eq := h.annotations_eq.symm
  lines_iff module kind := (h.lines_iff module kind).symm

/-! ### Results that are alike -/

/-- Two results are the same value, or errors that are alike. -/
inductive ResultAlike {α : Type} : Except Error α → Except Error α → Prop
  | ok (a : α) : ResultAlike (.ok a) (.ok a)
  | error {e e' : Error} (h : e.Alike e') : ResultAlike (.error e) (.error e')

namespace ResultAlike

variable {α β : Type}

theorem pure (a : α) : ResultAlike (pure a : Except Error α) (pure a) := .ok a

theorem refl (x : Except Error α) : ResultAlike x x := by
  cases x with
  | ok a => exact .ok a
  | error e => exact .error (.refl e)

theorem bind {x x' : Except Error α} {f f' : α → Except Error β} (hx : ResultAlike x x')
    (hf : ∀ a, ResultAlike (f a) (f' a)) : ResultAlike (x >>= f) (x' >>= f') := by
  cases hx with
  | ok a => exact hf a
  | error h => exact .error h

theorem mapM {f f' : α → Except Error β} (hf : ∀ a, ResultAlike (f a) (f' a)) (as : List α) :
    ResultAlike (as.mapM f) (as.mapM f') := by
  induction as with
  | nil => exact .pure []
  | cons a as ih =>
    rw [List.mapM_cons, List.mapM_cons]
    exact (hf a).bind fun _ => ih.bind fun _ => .pure _

end ResultAlike

/-! ### Scopes -/

namespace Resolve

/-- Two scopes have the same names and parameters, in modules with the same lines of imports. -/
structure Scope.SameLines (scope scope' : Scope) : Prop where
  table_eq : scope.table = scope'.table
  module_same : scope.module.SameLines scope'.module
  typeParams_eq : scope.typeParams = scope'.typeParams
  location_eq : scope.location = scope'.location

variable {scope scope' : Scope} {name : String} {c : DeclId × ScopedName}

theorem Scope.SameLines.mem_imported (h : scope.SameLines scope') (hinj : scope.table.Injective)
    (hc : c ∈ scope.imported name) : c ∈ scope'.imported name := by
  obtain ⟨line, hline, hbrings⟩ := (Scope.mem_imported_iff hinj).mp hc
  obtain ⟨line', hline', hmodule, hkind⟩ :=
    (h.module_same.lines_iff line.module line.kind).mp ⟨line, hline, rfl, rfl⟩
  refine (Scope.mem_imported_iff (h.table_eq ▸ hinj)).mpr ⟨line', hline', ?_, ?_, ?_⟩
  · rw [Scope.supplies_iff, hkind, ← Scope.supplies_iff]
    exact hbrings.supplies
  · rw [Scope.declOf, ← h.table_eq, hmodule]
    exact hbrings.found
  · rw [hmodule]
    exact hbrings.key_eq

theorem Scope.SameLines.symm (h : scope.SameLines scope') : scope'.SameLines scope where
  table_eq := h.table_eq.symm
  module_same := h.module_same.symm
  typeParams_eq := h.typeParams_eq.symm
  location_eq := h.location_eq.symm

theorem nodup_imported (scope : Scope) (name : String) : (scope.imported name).Nodup :=
  .of_map Prod.fst (scope.candidates_imported name).nodup

/-- The same lines supply the same candidates. -/
theorem Scope.SameLines.imported_perm (h : scope.SameLines scope') (hinj : scope.table.Injective)
    (name : String) : (scope.imported name).Perm (scope'.imported name) := by
  rw [List.perm_ext_iff_of_nodup (nodup_imported scope name) (nodup_imported scope' name)]
  exact fun c => ⟨h.mem_imported hinj, h.symm.mem_imported (h.table_eq ▸ hinj)⟩

/-- Of candidates only their number matters, and the candidate if it is the only one. -/
theorem cases_of_perm {α : Type} {cs cs' : List α} (h : cs.Perm cs') :
    cs = [] ∧ cs' = [] ∨ (∃ c, cs = [c] ∧ cs' = [c]) ∨
      ∃ a b l a' b' l', cs = a :: b :: l ∧ cs' = a' :: b' :: l' := by
  match cs, cs' with
  | [], cs' => exact .inl ⟨rfl, List.nil_perm.mp h⟩
  | [c], cs' => exact .inr (.inl ⟨c, rfl, (List.singleton_perm.mp h).symm⟩)
  | _ :: _ :: _, [] => exact absurd h.length_eq (by simp)
  | _ :: _ :: _, [_] => exact absurd h.length_eq (by simp)
  | a :: b :: l, a' :: b' :: l' => exact .inr (.inr ⟨a, b, l, a', b', l', rfl, rfl⟩)

/-- The arguments of a type are resolved alike, if each of them is. -/
theorem resolveTypes_alike {ts : List Source.TypeExpr}
    (hts : ∀ t ∈ ts, ResultAlike (scope.resolveType t) (scope'.resolveType t)) :
    ResultAlike (scope.resolveTypes ts) (scope'.resolveTypes ts) := by
  induction ts with
  | nil => exact .pure []
  | cons t ts ih =>
    obtain ⟨ht, hts⟩ := List.forall_mem_cons.mp hts
    rw [Scope.resolveTypes, Scope.resolveTypes]
    exact ht.bind fun _ => (ih hts).bind fun _ => .pure _

namespace Scope.SameLines

variable (h : scope.SameLines scope') (hinj : scope.table.Injective)

include h

theorem declOf_eq (module name : String) :
    scope.declOf module name = scope'.declOf module name := by
  rw [Scope.declOf, Scope.declOf, h.table_eq]

include hinj

/-- A name is looked up as the same, or with an error that is alike. -/
theorem resolveName_alike (written : String) :
    ResultAlike (scope.resolveName written) (scope'.resolveName written) := by
  unfold Scope.resolveName
  cases splitName written with
  | mk qualifier name =>
  dsimp only
  rw [← h.location_eq, ← h.typeParams_eq, ← h.module_same.name_eq]
  cases qualifier with
  | some q =>
    dsimp only
    rw [h.declOf_eq]
    exact .refl _
  | none =>
    dsimp only
    by_cases hparam : name ∈ scope.typeParams
    · rw [if_pos hparam, if_pos hparam]
      exact .ok _
    rw [if_neg hparam, if_neg hparam, h.declOf_eq]
    cases Primitive.ofName? name with
    | some p => exact .refl _
    | none =>
    cases scope'.declOf scope.module.name name with
    | some id => exact .ok _
    | none =>
    have hperm := h.imported_perm hinj name
    rcases cases_of_perm hperm with
      ⟨hcs, hcs'⟩ | ⟨c, hcs, hcs'⟩ | ⟨a, b, l, a', b', l', hcs, hcs'⟩
    · rw [hcs, hcs']
      exact .refl _
    · rw [hcs, hcs']
      exact .refl _
    · rw [hcs, hcs'] at hperm ⊢
      exact .error (.candidates (hperm.map _))

theorem resolveType_alike (t : Source.TypeExpr) :
    ResultAlike (scope.resolveType t) (scope'.resolveType t) := by
  induction t with
  | mk name args position ih =>
    rw [Scope.resolveType, Scope.resolveType]
    exact (h.resolveName_alike hinj name).bind fun _ =>
      (resolveTypes_alike ih).bind fun _ => .pure _

theorem annotationKey_eq (written : String) :
    scope.annotationKey written = scope'.annotationKey written := by
  unfold Scope.annotationKey
  cases splitName written with
  | mk qualifier name =>
  cases qualifier with
  | some q => rfl
  | none =>
    dsimp only
    rw [← h.module_same.name_eq, h.declOf_eq]
    cases scope'.declOf scope.module.name name with
    | some id => rfl
    | none =>
    rcases cases_of_perm (h.imported_perm hinj name) with
      ⟨hcs, hcs'⟩ | ⟨c, hcs, hcs'⟩ | ⟨a, b, l, a', b', l', hcs, hcs'⟩ <;>
    rw [hcs, hcs']

theorem resolveAnnotations_eq (written : List Source.AnnotationEntry) :
    scope.resolveAnnotations written = scope'.resolveAnnotations written := by
  unfold Scope.resolveAnnotations
  simp only [h.annotationKey_eq hinj]

end Scope.SameLines

/-! ### Declarations -/

theorem resolveMember_alike (h : scope.SameLines scope') (hinj : scope.table.Injective)
    (sm : Source.Member) : ResultAlike (resolveMember scope sm) (resolveMember scope' sm) := by
  have hmember : (memberScope scope sm).SameLines (memberScope scope' sm) :=
    ⟨h.table_eq, h.module_same, h.typeParams_eq, congrArg (·.within sm.name) h.location_eq⟩
  refine (hmember.resolveType_alike hinj sm.type).bind fun type => ?_
  have hannotations := hmember.resolveAnnotations_eq hinj sm.annotations
  rw [memberScope, memberScope] at hannotations
  rw [hannotations]
  exact .pure _

theorem resolveBody_alike (h : scope.SameLines scope') (hinj : scope.table.Injective) (b : Source.Body) :
    ResultAlike (resolveBody scope b) (resolveBody scope' b) := by
  have hmembers (ms : List Source.Member) :
      ResultAlike (ms.mapM (resolveMember scope)) (ms.mapM (resolveMember scope')) :=
    .mapM (resolveMember_alike h hinj) ms
  cases b with
  | struct ms => exact (hmembers ms).bind fun _ => .pure _
  | union ms => exact (hmembers ms).bind fun _ => .pure _
  | enum ms => exact (hmembers ms).bind fun _ => .pure _
  | «alias» target => exact (h.resolveType_alike hinj target).bind fun _ => .pure _
  | newtype target default => exact (h.resolveType_alike hinj target).bind fun _ => .pure _

section

variable {table : NameTable} {m m' : Source.Module}
  (hinj : table.Injective)

include hinj

theorem resolveDecl_alike (h : m.SameLines m') (id : DeclId) (d : Source.Decl) :
    ResultAlike (resolveDecl table m id d) (resolveDecl table m' id d) := by
  have hscope : (declScope table m d).SameLines (declScope table m' d) :=
    ⟨rfl, h, rfl, congrArg (Location.ofDecl · d.name) h.name_eq⟩
  have hannotations := hscope.resolveAnnotations_eq hinj d.annotations
  have hbody := resolveBody_alike hscope hinj d.body
  rw [declScope, declScope, h.name_eq] at hannotations hbody
  rw [resolveDecl, resolveDecl, h.name_eq, hannotations]
  exact (ResultAlike.refl _).bind fun _ => hbody.bind fun _ => .pure _

theorem resolveDecls_alike (h : m.SameLines m') (id : DeclId) (ds : List Source.Decl) :
    ResultAlike (resolveDecls table m id ds) (resolveDecls table m' id ds) := by
  induction ds generalizing id with
  | nil => exact .pure []
  | cons d ds ih =>
    rw [resolveDecls, resolveDecls]
    exact (resolveDecl_alike hinj h id d).bind fun _ => (ih (id + 1)).bind fun _ => .pure _

theorem resolveModule_eq (h : m.SameLines m') (id : DeclId) :
    (resolveModule table id m).decls = (resolveModule table id m').decls ∧
      (resolveModule table id m).annotations = (resolveModule table id m').annotations := by
  have hscope : Scope.SameLines ⟨table, m, [], .ofModule m.name⟩
      ⟨table, m', [], .ofModule m'.name⟩ :=
    ⟨rfl, h, rfl, congrArg Location.ofModule h.name_eq⟩
  refine ⟨congrArg (fun ds : List Source.Decl => List.range' id ds.length) h.decls_eq, ?_⟩
  rw [resolveModule, resolveModule, hscope.resolveAnnotations_eq hinj, h.annotations_eq]

end

/-! ### Sets -/

theorem errorsOf_alike {α : Type} {rs rs' : List (Except Error α)}
    (h : List.Forall₂ ResultAlike rs rs') :
    List.Forall₂ Error.Alike (errorsOf rs) (errorsOf rs') ∧ valuesOf rs = valuesOf rs' := by
  induction h with
  | nil => exact ⟨.nil, rfl⟩
  | cons hr _ ih =>
    obtain ⟨herrors, hvalues⟩ := ih
    cases hr with
    | ok a => exact ⟨herrors, congrArg (List.cons a) hvalues⟩
    | error he => exact ⟨.cons he herrors, hvalues⟩

/-- Behind the checks both lists have a set, or both have errors. -/
theorem resolveWith_alike {table : NameTable} {ps ps' : List (DeclId × Source.Module)}
    (hinj : table.Injective)
    (h : List.Forall₂ (fun p p' => p.1 = p'.1 ∧ p.2.SameLines p'.2) ps ps') :
    (∃ set set', resolveWith table ps = .ok set ∧ resolveWith table ps' = .ok set' ∧
        set.SameDecls set') ∨
      ∃ errors errors', resolveWith table ps = .error errors ∧
        resolveWith table ps' = .error errors' ∧ List.Forall₂ Error.Alike errors errors' := by
  have hresults : List.Forall₂ ResultAlike
      (ps.map fun p => resolveDecls table p.2 p.1 p.2.decls)
      (ps'.map fun p => resolveDecls table p.2 p.1 p.2.decls) := by
    refine List.forall₂_map_left_iff.mpr (List.forall₂_map_right_iff.mpr (h.imp ?_))
    rintro ⟨id, m⟩ ⟨id', m'⟩ ⟨hid, hm⟩
    obtain rfl : id = id' := hid
    have halike := resolveDecls_alike hinj hm id m.decls
    exact hm.decls_eq ▸ halike
  obtain ⟨herrors, hvalues⟩ := errorsOf_alike hresults
  have hmodules :
      (ps.map fun p => resolveModule table p.1 p.2).map
          (fun m => (m.name, m.decls, m.annotations)) =
        (ps'.map fun p => resolveModule table p.1 p.2).map fun m =>
          (m.name, m.decls, m.annotations) := by
    rw [List.map_map, List.map_map]
    refine map_eq_of_forall₂ (h.imp ?_)
    rintro ⟨id, m⟩ ⟨id', m'⟩ ⟨hid, hm⟩
    obtain rfl : id = id' := hid
    obtain ⟨hdecls, hannotations⟩ := resolveModule_eq hinj hm id
    exact congrArg₂ Prod.mk hm.name_eq (congrArg₂ Prod.mk hdecls hannotations)
  unfold resolveWith
  dsimp only
  cases he : errorsOf (ps.map fun p => resolveDecls table p.2 p.1 p.2.decls) with
  | nil =>
    rw [he, List.forall₂_nil_left_iff] at herrors
    rw [herrors, hvalues]
    exact .inl ⟨_, _, rfl, rfl, rfl, rfl, hmodules⟩
  | cons e es =>
    rw [he] at herrors
    obtain ⟨e', es', -, -, he'⟩ := List.forall₂_cons_left_iff.mp herrors
    rw [he'] at herrors ⊢
    exact .inr ⟨_, _, rfl, rfl, herrors⟩

end Resolve

/-! ### Checks -/

section

variable {modules modules' : List Source.Module}
  (h : List.Forall₂ Source.Module.SameLines modules modules')

include h

theorem names_eq_of_sameLines : modules.map (·.name) = modules'.map (·.name) :=
  map_eq_of_forall₂ (h.imp fun _ _ hm => hm.name_eq)

theorem sameLines_symm : List.Forall₂ Source.Module.SameLines modules' modules :=
  h.flip.imp fun _ _ hm => hm.symm

theorem exists_sameLines {m : Source.Module} (hm : m ∈ modules) :
    ∃ m' ∈ modules', m.SameLines m' := by
  obtain ⟨m', hm', hsame⟩ := exists_of_forall₂ h.flip hm
  exact ⟨m', hm', hsame⟩

theorem declNames_eq_of_sameLines :
    Resolve.declNames modules = Resolve.declNames modules' := by
  induction h with
  | nil => rfl
  | cons hm _ ih =>
    rw [Resolve.declNames, List.flatMap_cons, hm.name_eq, hm.decls_eq]
    exact congrArg (List.append _) ih

theorem takenErrors_eq_of_sameLines :
    modules.filterMap Resolve.takenError = modules'.filterMap Resolve.takenError := by
  induction h with
  | nil => rfl
  | cons hm _ ih =>
    rw [List.filterMap_cons, List.filterMap_cons, ih, Resolve.takenError, Resolve.takenError,
      hm.decls_eq, hm.name_eq]

theorem unknownImport_of_sameLines {m m' : Source.Module} {line line' : Source.Import} {e : Error}
    (hname : m.name = m'.name) (hmodule : line'.module = line.module)
    (hkind : line'.kind = line.kind)
    (he : UnknownImport modules m line e) : UnknownImport modules' m' line' e := by
  cases he with
  | module habsent =>
    rw [hname, ← hmodule]
    refine .module fun target htarget => ?_
    obtain ⟨target', htarget', hsame⟩ := exists_sameLines (sameLines_symm h) htarget
    rw [hsame.name_eq, hmodule]
    exact habsent target' htarget'
  | decl hm hn hk hdecl =>
    obtain ⟨target, htarget, hsame⟩ := exists_sameLines h hm
    rw [hname, ← hmodule]
    refine .decl htarget (by rw [← hsame.name_eq, hn, hmodule]) (hkind.trans hk) ?_
    rwa [← hsame.decls_eq]

/-- A line that is not known is reported in both lists. -/
theorem mem_unknowns_of_sameLines (hnd : (modules.map (·.name)).Nodup) {e : Error}
    (he : e ∈ Imports.unknowns modules) : e ∈ Imports.unknowns modules' := by
  have hnd' := names_eq_of_sameLines h ▸ hnd
  obtain ⟨m, hm, hline⟩ := List.mem_flatMap.mp he
  obtain ⟨line, hline, hunknown⟩ := List.mem_filterMap.mp hline
  obtain ⟨m', hm', hsame⟩ := exists_sameLines h hm
  obtain ⟨line', hline', hmodule, hkind⟩ :=
    (hsame.lines_iff line.module line.kind).mp ⟨line, hline, rfl, rfl⟩
  refine List.mem_flatMap.mpr ⟨m', hm', List.mem_filterMap.mpr ⟨line', hline', ?_⟩⟩
  refine (Imports.unknown?_eq_some_iff hnd').mpr ?_
  exact unknownImport_of_sameLines h hsame.name_eq hmodule hkind
    ((Imports.unknown?_eq_some_iff hnd).mp hunknown)

theorem importEdge_of_sameLines {a b : String} (hab : ImportEdge modules a b) :
    ImportEdge modules' a b := by
  obtain ⟨⟨m, hm, rfl, hb⟩, target, htarget, rfl⟩ := hab
  obtain ⟨m', hm', hsame⟩ := exists_sameLines h hm
  obtain ⟨target', htarget', hsame'⟩ := exists_sameLines h htarget
  obtain ⟨line, hline, hmodule⟩ := List.mem_map.mp hb
  obtain ⟨line', hline', hmodule', -⟩ :=
    (hsame.lines_iff line.module line.kind).mp ⟨line, hline, rfl, rfl⟩
  refine ⟨⟨m', hm', hsame.name_eq.symm, ?_⟩, target', htarget', hsame'.name_eq.symm⟩
  exact List.mem_map.mpr ⟨line', hline', hmodule'.trans hmodule⟩

theorem cyclic_of_sameLines (hcyclic : Cyclic modules) : Cyclic modules' := by
  obtain ⟨a, ha⟩ := hcyclic
  exact ⟨a, ha.lift id fun _ _ => importEdge_of_sameLines h⟩

/-- Every error of the imports is reported alike in both lists. -/
theorem exists_alike_of_mem_errors (hnd : (modules.map (·.name)).Nodup) {e : Error}
    (he : e ∈ Imports.errors modules) : ∃ e' ∈ Imports.errors modules', e.Alike e' := by
  rcases List.mem_append.mp he with he | he
  · exact ⟨e, List.mem_append_left _ (mem_unknowns_of_sameLines h hnd he), .refl e⟩
  · obtain ⟨c, hc, rfl⟩ := Option.map_eq_some_iff.mp (Option.mem_toList.mp he)
    have hcyclic := (Imports.exists_findCycle_iff hnd).mp ⟨c, hc⟩
    obtain ⟨c', hc'⟩ := (Imports.exists_findCycle_iff (names_eq_of_sameLines h ▸ hnd)).mpr
      (cyclic_of_sameLines h hcyclic)
    exact ⟨.cyclicImport c', List.mem_append_right _ (by simp [hc']), .cycle c c'⟩

theorem errors_eq_nil_of_sameLines (hnd : (modules.map (·.name)).Nodup)
    (hnil : Imports.errors modules' = []) : Imports.errors modules = [] := by
  refine List.eq_nil_iff_forall_not_mem.mpr fun e he => ?_
  obtain ⟨e', he', -⟩ := exists_alike_of_mem_errors h hnd he
  exact nomatch hnil ▸ he'

end

/-! ### What resolving returns -/

section

variable {modules modules' : List Source.Module}

theorem PassesChecks.of_sameLines (h : List.Forall₂ Source.Module.SameLines modules modules')
    (hc : PassesChecks modules) : PassesChecks modules' := by
  obtain ⟨hnd, himports, htaken⟩ := passesChecks_iff.mp hc
  have hnd' := names_eq_of_sameLines h ▸ hnd
  exact passesChecks_iff.mpr ⟨hnd', errors_eq_nil_of_sameLines (sameLines_symm h) hnd' himports,
    takenErrors_eq_of_sameLines h ▸ htaken⟩

theorem PassesChecks.resolve_alike (hc : PassesChecks modules)
    (h : List.Forall₂ Source.Module.SameLines modules modules') :
    (∃ set set', ModuleSet.resolve modules = .ok set ∧ ModuleSet.resolve modules' = .ok set' ∧
        set.SameDecls set') ∨
      ∃ errors errors', ModuleSet.resolve modules = .error errors ∧
        ModuleSet.resolve modules' = .error errors' ∧ List.Forall₂ Error.Alike errors errors' := by
  rw [hc.resolve_eq, (hc.of_sameLines h).resolve_eq, ← declNames_eq_of_sameLines h]
  have hnumbered := Resolve.forall₂_numbered (fun _ _ hm => congrArg List.length hm.decls_eq) h 0
  exact Resolve.resolveWith_alike hc.injective hnumbered

theorem SameOutcome.refl (errors : List Error) : SameOutcome (.error errors) (.error errors) :=
  .error (fun e he => ⟨e, he, .refl e⟩) fun e he => ⟨e, he, .refl e⟩

theorem Error.Alike.symm {e e' : Error} (h : e.Alike e') : e'.Alike e := by
  cases h with
  | refl => exact .refl _
  | candidates h => exact .candidates h.symm
  | cycle c c' => exact .cycle c' c

/-- The order of imports does not matter, whether the modules pass the checks or not. -/
theorem resolve_sameOutcome (h : List.Forall₂ Source.Module.SameLines modules modules') :
    SameOutcome (ModuleSet.resolve modules) (ModuleSet.resolve modules') := by
  have hnames := names_eq_of_sameLines h
  by_cases hnd : (modules.map (·.name)).Nodup
  · have hnd' := hnames ▸ hnd
    by_cases himports : Imports.errors modules = []
    · by_cases htaken : modules.filterMap Resolve.takenError = []
      · have hc : PassesChecks modules := passesChecks_iff.mpr ⟨hnd, himports, htaken⟩
        rcases hc.resolve_alike h with ⟨set, set', hset, hset', hsame⟩ | ⟨es, es', he, he', hsame⟩
        · rw [hset, hset']
          exact .ok hsame
        · rw [he, he']
          refine .error (fun e hmem => ?_) fun e' hmem => exists_of_forall₂ hsame hmem
          obtain ⟨e', hmem', halike⟩ := exists_of_forall₂ hsame.flip hmem
          exact ⟨e', hmem', halike⟩
      · have himports' := errors_eq_nil_of_sameLines (sameLines_symm h) hnd' himports
        have htaken' := takenErrors_eq_of_sameLines h
        rw [resolve_of_taken hnd himports htaken,
          resolve_of_taken hnd' himports' (htaken' ▸ htaken), htaken']
        exact .refl _
    · have himports' : Imports.errors modules' ≠ [] :=
        fun hnil => himports (errors_eq_nil_of_sameLines h hnd hnil)
      rw [resolve_of_errors hnd himports, resolve_of_errors hnd' himports']
      refine .error (fun e he => exists_alike_of_mem_errors h hnd he) fun e' he' => ?_
      obtain ⟨e, he, halike⟩ := exists_alike_of_mem_errors (sameLines_symm h) hnd' he'
      exact ⟨e, he, halike.symm⟩
  · obtain ⟨name, hname⟩ := Option.ne_none_iff_exists'.mp fun hnone =>
      hnd (firstRepeated_eq_none_iff.mp hnone).1
    rw [ModuleSet.resolve, ModuleSet.resolve, ← hnames, hname]
    exact .refl _

theorem Resolved.standsFor {set : ModuleSet} (h : Resolved modules set) {i : DeclId}
    {m : Source.Module} {d : Source.Decl} (hp : (Resolve.places modules)[i]? = some (m, d)) :
    List.Forall₂ (StandsFor modules m d.typeParams) d.types (set.decl i).types := by
  obtain ⟨x, hx, hr⟩ := h.decl_of_place hp
  rw [ModuleSet.decl_of_getElem? hx]
  refine (Resolve.types_of_resolveDecl hr).imp fun t u => ?_
  rintro ⟨location, htype⟩
  have htable : set.names = (Resolve.declNames modules).zipIdx := by
    rw [h.names_eq, Resolve.declNames_eq]
  have hrules : ScopeRules modules ⟨set.names, m, d.typeParams, location⟩ :=
    h.passesChecks.scopeRules htable
  exact (hrules.types t u).mp htype

/-! ### Main statement -/

/-- Names are looked up by the rules of scopes, and so all types of declarations are; and the order
of imports does not matter for what they stand for, nor for what fails. -/
theorem resolutionLaws (modules : List Source.Module) : ResolutionLaws modules where
  scopes h _ _ _ _ _ := h.scopeRules rfl
  types _ hset := by
    have hr := resolve_eq_ok_iff.mp hset
    exact ⟨hr.passesChecks, fun _ _ _ hp => hr.standsFor hp⟩
  import_order _ h := resolve_sameOutcome h
  module_errors hc modules' h := by
    refine ⟨hc.of_sameLines h, fun errors herrors => ?_⟩
    rcases hc.resolve_alike h with ⟨set, _, hset, -⟩ | ⟨es, es', he, he', hsame⟩
    · cases hset.symm.trans herrors
    · cases he.symm.trans herrors
      exact ⟨es', he', hsame⟩

end

/-- The module of `struct A { Shape s; };` behind some imports, as it is parsed. -/
def sketchModule (imports : List Source.Import) : Source.Module :=
  ⟨"a", imports, [⟨"A", [], [], .struct
    [⟨"s", "s", .mk "Shape" [] .start, none, [], .start⟩], .start⟩], []⟩

/-- Two modules that declare a shape, and one that mentions it. -/
def sketchModules (imports : List Source.Import) : List Source.Module :=
  [⟨"b", [], [⟨"Shape", [], [], .struct [], .start⟩], []⟩,
    ⟨"c", [], [⟨"Shape", [], [], .struct [], .start⟩], []⟩, sketchModule imports]

/-- The line `import name.*;`. -/
def importAll (name : String) : Source.Import := ⟨name, .all, .start⟩

/-- A shape is ambiguous where all of both modules is imported, however often and in which order. -/
theorem sketch_ambiguous :
    PassesChecks (sketchModules [importAll "b", importAll "c"]) ∧
      Ambiguous (sketchModules [importAll "b", importAll "c"])
        (sketchModule [importAll "b", importAll "c"]) [] "Shape" ∧
      ∃ errors, ModuleSet.resolve (sketchModules [importAll "c", importAll "b", importAll "c"]) =
          .error errors ∧
        List.Forall₂ Error.Alike [.ambiguousReference (.ofMember "a" "A" "s") "Shape"
          ["b.Shape", "c.Shape"]] errors := by
  have hchecks : PassesChecks (sketchModules [importAll "b", importAll "c"]) :=
    passesChecks_iff.mpr ⟨by decide, rfl, rfl⟩
  have hlines : List.Forall₂ Source.Module.SameLines
      (sketchModules [importAll "b", importAll "c"])
      (sketchModules [importAll "c", importAll "b", importAll "c"]) := by
    have hsame (m : Source.Module) : m.SameLines m := ⟨rfl, rfl, rfl, fun _ _ => .rfl⟩
    refine .cons (hsame _) (.cons (hsame _) (.cons ⟨rfl, rfl, rfl, fun module kind => ?_⟩ .nil))
    simp only [sketchModule, List.exists_mem_cons_iff]
    grind
  have hlaws := resolutionLaws (sketchModules [importAll "b", importAll "c"])
  have hscope := hlaws.scopes hchecks (sketchModule [importAll "b", importAll "c"])
    (by simp [sketchModules]) ⟨"A", [], [], .struct [⟨"s", "s", .mk "Shape" [] .start, none, [],
      .start⟩], .start⟩ (by simp [sketchModule]) (.ofMember "a" "A" "s")
  refine ⟨hchecks, (hscope.ambiguous "Shape").mp ⟨["b.Shape", "c.Shape"], rfl⟩, ?_⟩
  exact (hlaws.module_errors hchecks _ hlines).2 _ rfl

end Adl
