import Adl.Proofs.Compile.Compiled
import Adl.Proofs.Model.Documentation
import Adl.Proofs.Model.Outline
import Mathlib.Data.Prod.Lex
import Mathlib.Data.String.Basic

/-!
# Annotations — the normal form of annotations

Annotations are kept under the names that the written ones are looked up as (`Qualifies`), sorted by
these, and each name has the value that is written with it last (`NormalForm`).  A list of written
annotations has one normal form only, and where their names are looked up as different ones, it does
not depend on their order.  So modules are resolved and compiled as before if such annotations are
reordered (`annotations_laws`).
-/

namespace Adl

open Resolve
open Source (AnnotationEntry)

/-! ### Keys, normal forms and reorderings -/

section

variable (modules : List Source.Module) (m : Source.Module)

/-- What the name of an annotation is looked up as in a module. -/
def keyIn (written : String) : ScopedName :=
  Scope.annotationKey ⟨(declNames modules).zipIdx, m, [], .ofModule m.name⟩ written

/-- The scoped name that the name of an annotation stands for.  A dotted one is split; any other one
stands for a declaration of the module, the only one that its imports supply, or else an annotation
of `sys.annotations`. -/
inductive Qualifies : String → ScopedName → Prop
  | dotted {module name : String} (bare : '.' ∉ name.toList) :
      Qualifies (module ++ "." ++ name) ⟨module, name⟩
  | own {name : String} {i : DeclId} (bare : '.' ∉ name.toList)
      (h : DeclaredAt modules m.name name i) : Qualifies name ⟨m.name, name⟩
  | imported {module name : String} {i : DeclId} (bare : '.' ∉ name.toList)
      (not_own : ∀ i, ¬ DeclaredAt modules m.name name i) (h : DeclaredAt modules module name i)
      (only : ∀ j, Imported modules m name j ↔ j = i) : Qualifies name ⟨module, name⟩
  | standard {name : String} (bare : '.' ∉ name.toList)
      (not_own : ∀ i, ¬ DeclaredAt modules m.name name i)
      (not_only : ∀ i, ¬ ∀ j, Imported modules m name j ↔ j = i) :
      Qualifies name ⟨Scope.annotationModule, name⟩

/-- The names of annotations are looked up as what they stand for.  The one of documentation
comments is looked up as `sys.annotations.Doc` is, unless it is hidden. -/
structure KeysQualified : Prop where
  qualifies : ∀ written key, keyIn modules m written = key ↔ Qualifies modules m written key
  comment : ∀ block, Source.Note.annotation (.lines block) =
    ⟨"Doc", .string (Source.Note.docText block)⟩
  doc_iff : keyIn modules m "Doc" = keyIn modules m "sys.annotations.Doc" ↔ ¬ DocHidden modules m

end

/-- Annotations in increasing order of their names, which are those that the written ones are looked
up as, each with the value of the last one that is. -/
structure NormalForm (key : String → ScopedName) (written : List AnnotationEntry)
    (annotations : Annotations) : Prop where
  increasing : annotations.Pairwise fun a b =>
    a.1.module < b.1.module ∨ a.1.module = b.1.module ∧ a.1.name < b.1.name
  keys : ∀ k, k ∈ annotations.map Prod.fst ↔ ∃ a ∈ written, key a.name = k
  last : ∀ k v, (k, v) ∈ annotations ↔ LastValue key written k v

/-- The annotations of a module, its declarations and their members are in normal form in a set. -/
structure AnnotationsNormal (modules : List Source.Module) (set : ModuleSet) (m : Source.Module) :
    Prop where
  keys : KeysQualified modules m
  module : ∃ x, set.module? m.name = some x ∧
    NormalForm (keyIn modules m) m.annotations x.annotations
  decl : ∀ d ∈ m.decls, ∃ id, set.lookup ⟨m.name, d.name⟩ = some id ∧
    NormalForm (keyIn modules m) d.annotations (set.decl id).annotations ∧
    List.Forall₂ (fun sm y => y.name = sm.name ∧
      NormalForm (keyIn modules m) sm.annotations y.annotations) d.members (set.decl id).members

/-- The same annotations, or in another order if all of them are looked up as different names. -/
inductive Reordered (key : String → ScopedName) (as : List AnnotationEntry) :
    List AnnotationEntry → Prop
  | refl : Reordered key as as
  | perm {as' : List AnnotationEntry} (h : as.Perm as') (hnd : (as.map (key ·.name)).Nodup) :
      Reordered key as as'

namespace Source

section

variable (key : String → ScopedName)

/-- Two members differ in the order of their annotations and in places only. -/
structure Member.Reordered (sm sm' : Member) : Prop where
  name_eq : sm.name = sm'.name
  serializedName_eq : sm.serializedName = sm'.serializedName
  type_eq : sm.type.unplaced = sm'.type.unplaced
  default_eq : sm.default = sm'.default
  annotations : Adl.Reordered key sm.annotations sm'.annotations

/-- Two bodies differ in the order of annotations and in places only. -/
inductive Body.Reordered : Body → Body → Prop
  | struct {ms ms' : List Member} (h : List.Forall₂ (Member.Reordered key) ms ms') :
      Reordered (.struct ms) (.struct ms')
  | union {ms ms' : List Member} (h : List.Forall₂ (Member.Reordered key) ms ms') :
      Reordered (.union ms) (.union ms')
  | enum {ms ms' : List Member} (h : List.Forall₂ (Member.Reordered key) ms ms') :
      Reordered (.enum ms) (.enum ms')
  | alias {t t' : TypeExpr} (h : t.unplaced = t'.unplaced) : Reordered (.alias t) (.alias t')
  | newtype {t t' : TypeExpr} (default : Option Literal) (h : t.unplaced = t'.unplaced) :
      Reordered (.newtype t default) (.newtype t' default)

/-- Two declarations differ in the order of annotations and in places only. -/
structure Decl.Reordered (d d' : Decl) : Prop where
  name_eq : d.name = d'.name
  typeParams_eq : d.typeParams = d'.typeParams
  annotations : Adl.Reordered key d.annotations d'.annotations
  body : d.body.Reordered key d'.body

end

/-- Two modules differ in the order of annotations and in places only. -/
structure Module.Reordered (modules : List Module) (m m' : Module) : Prop where
  name_eq : m.name = m'.name
  imports_eq : m.imports.map Import.unplaced = m'.imports.map Import.unplaced
  annotations : Adl.Reordered (keyIn modules m) m.annotations m'.annotations
  decls : List.Forall₂ (Decl.Reordered (keyIn modules m)) m.decls m'.decls

end Source

/-! ### The order of names -/

namespace ScopedName

variable {a b : ScopedName}

/-- The parts of a name as a pair in the lexicographic order. -/
def lex (a : ScopedName) : String ×ₗ String := toLex (a.module, a.name)

theorem lex_injective : Function.Injective lex := by
  rintro ⟨module, name⟩ ⟨module', name'⟩ h
  obtain ⟨rfl, rfl⟩ := Prod.mk.inj (toLex.injective h)
  rfl

theorem lex_lt_lex_iff :
    a.lex < b.lex ↔ a.module < b.module ∨ a.module = b.module ∧ a.name < b.name :=
  Prod.Lex.toLex_lt_toLex

theorem before_iff : a.before b ↔ a.lex < b.lex := by
  rw [lex_lt_lex_iff, before]
  simp

end ScopedName

namespace Resolve

/-- In increasing order of names. -/
def Increasing (annotations : Annotations) : Prop := annotations.Pairwise (·.1.lex < ·.1.lex)

variable {key k : ScopedName} {value v : Literal} {annotations annotations' : Annotations}

theorem Increasing.nodup (h : Increasing annotations) : (annotations.map Prod.fst).Nodup :=
  List.pairwise_map.mpr (h.imp fun hlt heq => hlt.ne (congrArg ScopedName.lex heq))

theorem Increasing.insertKey (h : Increasing annotations) :
    Increasing (insertKey key value annotations) := by
  induction annotations with
  | nil => exact List.pairwise_singleton _ _
  | cons a annotations ih =>
    obtain ⟨ha, hrest⟩ := List.pairwise_cons.mp h
    rw [Resolve.insertKey]
    by_cases hbefore : key.before a.1
    · rw [if_pos hbefore]
      rw [ScopedName.before_iff] at hbefore
      exact List.pairwise_cons.mpr
        ⟨List.forall_mem_cons.mpr ⟨hbefore, fun b hb => hbefore.trans (ha b hb)⟩, h⟩
    rw [if_neg hbefore]
    rw [ScopedName.before_iff, not_lt] at hbefore
    by_cases heq : a.1 = key
    · rw [if_pos heq.symm]
      exact List.pairwise_cons.mpr ⟨heq ▸ ha, hrest⟩
    · rw [if_neg (Ne.symm heq)]
      have hlt : a.1.lex < key.lex :=
        hbefore.lt_of_ne fun h => heq (ScopedName.lex_injective h)
      refine List.pairwise_cons.mpr ⟨fun b hb => ?_, ih hrest⟩
      rcases mem_insertKey hb with rfl | hb
      · exact hlt
      · exact ha b hb

/-- Where no key is repeated, an annotation is what is looked up under its key. -/
theorem Increasing.mem_iff (h : Increasing annotations) :
    (k, v) ∈ annotations ↔ annotations.lookup k = some v :=
  ⟨lookup_of_mem h.nodup, mem_of_lookup⟩

/-- In increasing order there is one list only of the same annotations. -/
theorem Increasing.eq_of_mem_iff (h : Increasing annotations) (h' : Increasing annotations')
    (hmem : ∀ a, a ∈ annotations ↔ a ∈ annotations') : annotations = annotations' := by
  have hperm : annotations.Perm annotations' :=
    (List.perm_ext_iff_of_nodup h.nodup.of_map h'.nodup.of_map).mpr hmem
  exact hperm.eq_of_pairwise (fun _ _ _ _ hab hba => absurd hab hba.not_gt) h h'

end Resolve

/-! ### The normal form -/

section

variable {key : String → ScopedName} {written as as' : List AnnotationEntry}
  {annotations annotations' : Annotations} {k : ScopedName} {v : Literal}

/-- There is one normal form only. -/
theorem NormalForm.unique (h : NormalForm key written annotations)
    (h' : NormalForm key written annotations') : annotations = annotations' :=
  Increasing.eq_of_mem_iff (h.increasing.imp ScopedName.lex_lt_lex_iff.mpr)
    (h'.increasing.imp ScopedName.lex_lt_lex_iff.mpr)
    fun (k, v) => (h.last k v).trans (h'.last k v).symm

/-- The order of annotations that are looked up as different names does not matter. -/
theorem NormalForm.reordered (h : NormalForm key as annotations) (has : Reordered key as as') :
    NormalForm key as' annotations := by
  cases has with
  | refl => exact h
  | perm hperm hnd =>
    have hnd' : (as'.map (key ·.name)).Nodup := (hperm.map _).nodup_iff.mp hnd
    refine ⟨h.increasing, fun k => ?_, fun k v => ?_⟩
    · simp only [h.keys, hperm.mem_iff]
    · rw [h.last, lastValue_iff_of_nodup hnd, lastValue_iff_of_nodup hnd']
      simp only [hperm.mem_iff]

end

namespace Resolve.Scope

variable (scope : Scope) {scope' : Scope} {written as as' : List AnnotationEntry} {k : ScopedName}
  {v : Literal}

theorem increasing_resolveAnnotations (written : List AnnotationEntry) :
    Increasing (scope.resolveAnnotations written) :=
  List.foldlRecOn written _ List.Pairwise.nil fun _ h _ _ => h.insertKey

/-- Annotations are resolved to their normal form. -/
theorem normalForm (written : List AnnotationEntry) :
    NormalForm scope.annotationKey written (scope.resolveAnnotations written) := by
  have hincreasing := scope.increasing_resolveAnnotations written
  have hlast (k : ScopedName) (v : Literal) : (k, v) ∈ scope.resolveAnnotations written ↔
      LastValue scope.annotationKey written k v :=
    hincreasing.mem_iff.trans scope.lookup_resolveAnnotations_eq_some_iff
  refine ⟨hincreasing.imp ScopedName.lex_lt_lex_iff.mp, fun k => ?_, hlast⟩
  rw [← exists_lastValue_iff]
  simp only [← hlast, List.mem_map, Prod.exists, exists_and_right, exists_eq_right]

variable {scope}

/-- Reordered annotations are resolved alike. -/
theorem resolveAnnotations_eq_of_reordered (h : scope.outlined = scope'.outlined)
    (has : Reordered scope.annotationKey as as') :
    scope.resolveAnnotations as = scope'.resolveAnnotations as' := by
  have hkey : scope.annotationKey = scope'.annotationKey :=
    funext (annotationKey_eq_of_outlined h)
  exact ((scope.normalForm as).reordered has).unique (hkey ▸ scope'.normalForm as')

end Resolve.Scope

/-! ### Names -/

theorem Resolve.Scope.annotationKey_of_not_own {scope : Scope} {name : String}
    (bare : '.' ∉ name.toList) (hown : scope.declOf scope.module.name name = none) :
    scope.annotationKey name =
      match scope.imported name with
      | [(_, key)] => key
      | _ => ⟨annotationModule, name⟩ := by
  rw [annotationKey, splitName_of_bare bare]
  dsimp only
  rw [hown]
  rcases scope.imported name with _ | ⟨c, _ | ⟨c', rest⟩⟩ <;> rfl

section

variable {modules : List Source.Module} (h : PassesChecks modules) {m : Source.Module}
  {written : String} {key : ScopedName}

include h

theorem keyIn_of_qualifies (hq : Qualifies modules m written key) :
    keyIn modules m written = key := by
  cases hq with
  | dotted bare => rw [keyIn, Scope.annotationKey, splitName_dotted bare]
  | own bare hi =>
    rw [keyIn, Scope.annotationKey, splitName_of_bare bare]
    dsimp only
    rw [(h.declOf_eq_some_iff rfl).mpr hi]
  | @imported module _ i bare not_own hi only =>
    rw [keyIn, Scope.annotationKey_of_not_own bare ((h.declOf_eq_none_iff rfl).mpr not_own)]
    set scope : Scope := ⟨(declNames modules).zipIdx, m, [], .ofModule m.name⟩
    obtain ⟨key, hc⟩ : ∃ key, scope.imported written = [(i, key)] :=
      (imported_only_iff h rfl).mp only
    have hmem : (i, key) ∈ scope.imported written := hc ▸ List.mem_singleton_self _
    obtain ⟨line, -, -, hline, rfl⟩ := (h.mem_imported_iff rfl).mp hmem
    rw [hc]
    exact Option.some.inj (hline.symm.trans hi)
  | standard bare not_own not_only =>
    rw [keyIn, Scope.annotationKey_of_not_own bare ((h.declOf_eq_none_iff rfl).mpr not_own)]
    set scope : Scope := ⟨(declNames modules).zipIdx, m, [], .ofModule m.name⟩
    have htable : scope.table = (declNames modules).zipIdx := rfl
    rcases hc : scope.imported written with _ | ⟨c, _ | ⟨c', rest⟩⟩
    · rfl
    · exact absurd ((imported_only_iff h htable).mpr ⟨c.2, hc⟩) (not_only c.1)
    · rfl

omit h in
/-- Every written name stands for a scoped name. -/
theorem exists_qualifies (modules : List Source.Module) (m : Source.Module) (written : String) :
    ∃ key, Qualifies modules m written key := by
  rcases exists_dotted_or_bare written with ⟨module, name, rfl, bare⟩ | bare
  · exact ⟨_, .dotted bare⟩
  by_cases hown : ∃ i, DeclaredAt modules m.name written i
  · obtain ⟨i, hi⟩ := hown
    exact ⟨_, .own bare hi⟩
  rw [not_exists] at hown
  by_cases honly : ∃ i, ∀ j, Imported modules m written j ↔ j = i
  · obtain ⟨i, only⟩ := honly
    obtain ⟨line, -, -, hi⟩ := (only i).mpr rfl
    exact ⟨_, .imported bare hown hi only⟩
  · exact ⟨_, .standard bare hown (not_exists.mp honly)⟩

theorem keyIn_eq_iff : keyIn modules m written = key ↔ Qualifies modules m written key := by
  refine ⟨?_, keyIn_of_qualifies h⟩
  rintro rfl
  obtain ⟨key, hq⟩ := exists_qualifies modules m written
  rwa [keyIn_of_qualifies h hq]

variable (m) in
theorem keysQualified : KeysQualified modules m where
  qualifies _ _ := keyIn_eq_iff h
  comment _ := rfl
  doc_iff := by
    have hdoc : Qualifies modules m (Scope.annotationModule ++ "." ++ "Doc") docKey :=
      .dotted (by decide)
    have hkey : keyIn modules m "sys.annotations.Doc" = docKey := (keyIn_eq_iff h).mpr hdoc
    rw [hkey]
    exact annotationKey_doc_iff h rfl

end

/-! ### Declarations -/

section

variable {table : NameTable} {scope scope' : Scope} {m m' : Source.Module} {d d' : Source.Decl}
  {key : String → ScopedName}

theorem resolveMember_eq_of_reordered (h : scope.outlined = scope'.outlined)
    {sm sm' : Source.Member} (hsm : sm.Reordered scope.annotationKey sm') :
    resolveMember scope sm = resolveMember scope' sm' := by
  have hmember : (memberScope scope sm).outlined = (memberScope scope' sm').outlined := by
    show { scope.outlined with location := scope.outlined.location.within sm.name } =
      { scope'.outlined with location := scope'.outlined.location.within sm'.name }
    rw [h, hsm.name_eq]
  have htype := Scope.resolveType_eq_of_outlined hmember hsm.type_eq
  have hannotations := Scope.resolveAnnotations_eq_of_reordered hmember hsm.annotations
  rw [memberScope, memberScope] at htype hannotations
  rw [resolveMember, resolveMember, htype, hannotations, hsm.name_eq, hsm.serializedName_eq,
    hsm.default_eq]

theorem resolveBody_eq_of_reordered (h : scope.outlined = scope'.outlined)
    {b b' : Source.Body} (hb : b.Reordered scope.annotationKey b') :
    resolveBody scope b = resolveBody scope' b' := by
  have hmembers {ms ms' : List Source.Member}
      (hms : List.Forall₂ (Source.Member.Reordered scope.annotationKey) ms ms') :
      ms.mapM (resolveMember scope) = ms'.mapM (resolveMember scope') := by
    induction hms with
    | nil => rfl
    | cons hsm _ ih =>
      rw [List.mapM_cons, List.mapM_cons, resolveMember_eq_of_reordered h hsm, ih]
  cases hb with
  | struct hms => rw [resolveBody, resolveBody, hmembers hms]
  | union hms => rw [resolveBody, resolveBody, hmembers hms]
  | enum hms => rw [resolveBody, resolveBody, hmembers hms]
  | «alias» ht => rw [resolveBody, resolveBody, Scope.resolveType_eq_of_outlined h ht]
  | newtype _ ht => rw [resolveBody, resolveBody, Scope.resolveType_eq_of_outlined h ht]

theorem repeatedMember_eq_of_reordered {ms ms' : List Source.Member}
    (h : List.Forall₂ (Source.Member.Reordered key) ms ms') (names serialized : List String) :
    repeatedMember names serialized ms = repeatedMember names serialized ms' := by
  induction h generalizing names serialized with
  | nil => rfl
  | cons hsm _ ih =>
    rw [repeatedMember, repeatedMember, hsm.name_eq, hsm.serializedName_eq, ih]

theorem Source.Body.Reordered.members (h : d.body.Reordered key d'.body) :
    List.Forall₂ (Source.Member.Reordered key) d.members d'.members := by
  unfold Source.Decl.members
  generalize d.body = b, d'.body = b' at h
  cases h with
  | struct hms => exact hms
  | union hms => exact hms
  | enum hms => exact hms
  | «alias» _ => exact .nil
  | newtype _ _ => exact .nil

theorem checkNames_eq_of_reordered (h : d.Reordered key d') (module : String) :
    checkNames module d = checkNames module d' := by
  rw [checkNames, checkNames, repeatedMember_eq_of_reordered h.body.members, h.name_eq,
    h.typeParams_eq]

theorem resolveDecl_eq_of_reordered (h : m.outline = m'.outline) (id : DeclId)
    (hd : d.Reordered (declScope table m d).annotationKey d') :
    resolveDecl table m id d = resolveDecl table m' id d' := by
  have hname : m.name = m'.name := congrArg (·.name) h
  have hscope : (declScope table m d).outlined = (declScope table m' d').outlined := by
    show (⟨table, m.outline, d.typeParams, .ofDecl m.name d.name⟩ : Scope) =
      ⟨table, m'.outline, d'.typeParams, .ofDecl m'.name d'.name⟩
    rw [h, hname, hd.typeParams_eq, hd.name_eq]
  have hbody := resolveBody_eq_of_reordered hscope hd.body
  have hannotations := Scope.resolveAnnotations_eq_of_reordered hscope hd.annotations
  rw [declScope, declScope] at hbody hannotations
  rw [resolveDecl, resolveDecl, checkNames_eq_of_reordered hd, hbody, hannotations, hname,
    hd.name_eq, hd.typeParams_eq]

end

section

variable {modules modules' : List Source.Module} {m m' : Source.Module}

theorem Source.Module.Reordered.outline_eq (h : m.Reordered modules m') :
    m.outline = m'.outline := by
  have hdecls : m.decls.map Source.Decl.outline = m'.decls.map Source.Decl.outline :=
    map_eq_of_forall₂ (h.decls.imp fun d d' hd => by
      rw [Source.Decl.outline, Source.Decl.outline, hd.name_eq])
  rw [outline, outline, h.name_eq, h.imports_eq, hdecls]

/-- A module is resolved as before when its annotations are reordered. -/
theorem Source.Module.Reordered.resolvedAlike (h : m.Reordered modules m') :
    ResolvedAlike (declNames modules).zipIdx m m' where
  outline_eq := h.outline_eq
  decls_eq id := by
    have hdecls := h.decls
    generalize m.decls = ds, m'.decls = ds' at hdecls
    induction hdecls generalizing id with
    | nil => rfl
    | cons hd _ ih =>
      rw [resolveDecls, resolveDecls, resolveDecl_eq_of_reordered h.outline_eq id hd, ih]
  module_eq id := by
    have himported : m.imported = m'.imported := by
      rw [← imported_outline m, h.outline_eq, imported_outline]
    have hscope : Scope.outlined ⟨(declNames modules).zipIdx, m, [], .ofModule m.name⟩ =
        Scope.outlined ⟨(declNames modules).zipIdx, m', [], .ofModule m'.name⟩ := by
      rw [Scope.outlined, Scope.outlined, h.outline_eq, h.name_eq]
    rw [resolveModule, resolveModule, Scope.resolveAnnotations_eq_of_reordered hscope h.annotations,
      h.name_eq, himported, h.decls.length_eq]

/-- Annotations that modules resolve to are in normal form. -/
theorem Resolved.annotationsNormal {set : ModuleSet} (h : Resolved modules set) (hm : m ∈ modules) :
    AnnotationsNormal modules set m where
  keys := keysQualified h.passesChecks m
  module := by
    obtain ⟨id, -, hid⟩ := h.module?_of_mem hm
    refine ⟨_, hid, ?_⟩
    rw [h.table_eq]
    exact Scope.normalForm _ _
  decl d hd := by
    obtain ⟨id, hid, hresolved⟩ := h.exists_decl hm hd
    rw [h.table_eq] at hresolved
    refine ⟨id, hid, ?_, ?_⟩
    · obtain ⟨-, body, -, hdecl⟩ := resolveDecl_eq_ok_iff.mp hresolved
      rw [← hdecl]
      exact Scope.normalForm _ _
    · refine (members_of_resolveDecl hresolved).imp fun sm y hy => ?_
      obtain ⟨type, -, rfl⟩ := resolveMember_eq_ok_iff.mp hy
      exact ⟨rfl, Scope.normalForm _ _⟩

end

/-! ### Main statement -/

/-- In a set that modules resolve to, all annotations are in normal form; and modules whose
annotations are reordered, where no two of them are looked up as the same name, are resolved and
compiled as before. -/
theorem annotations_laws (modules : List Source.Module) :
    (∀ set, ModuleSet.resolve modules = .ok set →
      ∀ m ∈ modules, AnnotationsNormal modules set m) ∧
    ∀ modules', List.Forall₂ (Source.Module.Reordered modules) modules modules' →
      ModuleSet.resolve modules' = ModuleSet.resolve modules ∧
        Compilation.ofModules modules' = Compilation.ofModules modules := by
  constructor
  · exact fun set hset m hm => (resolve_eq_ok_iff.mp hset).annotationsNormal hm
  · intro modules' h
    have hresolve := resolve_eq_of_outlines (h.imp fun _ _ hm => hm.resolvedAlike)
    rw [Compilation.ofModules, Compilation.ofModules, hresolve]
    exact ⟨rfl, rfl⟩

/-- A module that declares the annotation `Mark`, and `S` with the given annotations. -/
def markedModule (annotations : List AnnotationEntry) : Source.Module :=
  ⟨"m", [], [⟨"Mark", [], [], .struct [], .start⟩, ⟨"S", [], annotations, .struct [], .start⟩], []⟩

/-- The annotations of a comment, of `@Mark`, and of the documentation by its full name. -/
def markedTwice : List AnnotationEntry :=
  [⟨"Doc", .string "One"⟩, ⟨"Mark", .null⟩, ⟨"sys.annotations.Doc", .string "Two"⟩]

/-- What `markedModule` resolves to, with the resolved annotations of `S`. -/
def markedSet (annotations : Annotations) : ModuleSet :=
  ⟨[⟨"m", [], [0, 1], []⟩], [⟨0, "m", "Mark", [], [], .struct []⟩,
      ⟨1, "m", "S", [], annotations, .struct []⟩],
    [(⟨"m", "Mark"⟩, 0), (⟨"m", "S"⟩, 1)]⟩

/-- The comment and the annotation by its full name count as one, of which the last is kept; and two
annotations with different names can be exchanged. -/
theorem marked_annotations :
    ModuleSet.resolve [markedModule markedTwice] =
      .ok (markedSet [(⟨"m", "Mark"⟩, .null), (docKey, .string "Two")]) ∧
    AnnotationsNormal [markedModule markedTwice]
      (markedSet [(⟨"m", "Mark"⟩, .null), (docKey, .string "Two")]) (markedModule markedTwice) ∧
    ModuleSet.resolve [markedModule [⟨"Doc", .string "One"⟩, ⟨"Mark", .null⟩]] =
      .ok (markedSet [(⟨"m", "Mark"⟩, .null), (docKey, .string "One")]) ∧
    ModuleSet.resolve [markedModule [⟨"Mark", .null⟩, ⟨"Doc", .string "One"⟩]] =
      ModuleSet.resolve [markedModule [⟨"Doc", .string "One"⟩, ⟨"Mark", .null⟩]] := by
  have htwice : ModuleSet.resolve [markedModule markedTwice] =
      .ok (markedSet [(⟨"m", "Mark"⟩, .null), (docKey, .string "Two")]) := by rfl
  have honce : ModuleSet.resolve [markedModule [⟨"Doc", .string "One"⟩, ⟨"Mark", .null⟩]] =
      .ok (markedSet [(⟨"m", "Mark"⟩, .null), (docKey, .string "One")]) := by rfl
  refine ⟨htwice, (annotations_laws _).1 _ htwice _ (List.mem_singleton_self _), honce, ?_⟩
  refine ((annotations_laws [markedModule [⟨"Doc", .string "One"⟩, ⟨"Mark", .null⟩]]).2 _ ?_).1
  have hswap := List.Perm.swap (⟨"Mark", .null⟩ : AnnotationEntry) ⟨"Doc", .string "One"⟩ []
  have hnd : ([docKey, ⟨"m", "Mark"⟩] : List ScopedName).Nodup := by decide
  exact .cons ⟨rfl, rfl, .refl, .cons ⟨rfl, rfl, .refl, .struct .nil⟩
    (.cons ⟨rfl, rfl, .perm hswap hnd, .struct .nil⟩ .nil)⟩ .nil

end Adl
