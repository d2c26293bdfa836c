import Adl.Compile.Export
import Adl.Model.Doc
import Adl.Proofs.Model.Indexed
import Adl.Proofs.Model.Keys
import Adl.Proofs.Model.References
import Adl.Proofs.Source.Notes

/-!
# Documentation — where documentation comments go

A block of documentation comments is an annotation with the name `Doc`, which is looked up as it is
written: a declaration of this name in the module hides the annotation `sys.annotations.Doc`, and so
does the one that the imports supply (`DocHidden`).  Where it is not hidden, the text of a block
that stands alone before a declaration or a member is its documentation, and its record has it;
where it is hidden, there is no documentation (`documentation_laws`).
-/

namespace Adl

open Resolve Source

/-! ### What documents a declaration -/

/-- In the module, the name `Doc` stands for something else than `sys.annotations.Doc`: for a
declaration of the module, or for the only one that its imports supply. -/
def DocHidden (modules : List Source.Module) (m : Source.Module) : Prop :=
  (∃ i, DeclaredAt modules m.name Parser.docName i) ∧ m.name ≠ Scope.annotationModule ∨
    (∀ i, ¬ DeclaredAt modules m.name Parser.docName i) ∧
      ∃ i, ¬ DeclaredAt modules Scope.annotationModule Parser.docName i ∧
        ∀ j, Imported modules m Parser.docName j ↔ j = i

/-- There is exactly one block of documentation comments among the notes, and no annotation that is
written as `Doc` or as `sys.annotations.Doc`. -/
structure OneBlock (notes : List Note) (block : List Token) : Prop where
  blocks : notes.filterMap Note.block? = [block]
  unwritten : ∀ a, .entry a ∈ notes → a.name ≠ Parser.docName ∧ a.name ≠ docKey.text

/-- A text is the documentation among annotations, and the record of the annotations has it. -/
structure Documents (annotations : Annotations) (record : Schema.Annotations) (text : String) :
    Prop where
  key : (docKey, .string text) ∈ annotations
  text_eq : docText? annotations = some text
  record : (docKey, .string text) ∈ record

/-- A block of documentation comments that stands alone among the notes is the documentation, unless
this is hidden: then there is none. -/
structure Documented (modules : List Source.Module) (m : Source.Module) (notes : List Note)
    (annotations : Annotations) (record : Schema.Annotations) : Prop where
  documents_iff : ∀ block, OneBlock notes block →
    (Documents annotations record (Note.docText block) ↔ ¬ DocHidden modules m)
  hidden : ∀ block, OneBlock notes block → DocHidden modules m → docText? annotations = none

/-- The fields in the record of a declaration. -/
def Schema.Body.fields : Schema.Body → List Schema.Field
  | .struct _ fields => fields
  | .union _ fields => fields
  | .alias _ _ => []
  | .newtype _ _ _ => []

/-! ### The documentation among annotations -/

namespace Resolve

variable {annotations : Annotations}

/-- The documentation is what stands under its key. -/
theorem docText?_of_lookup {text : String} (h : annotations.lookup docKey = some (.string text)) :
    docText? annotations = some text := by
  induction annotations with
  | nil => cases h
  | cons a annotations ih =>
    obtain ⟨key', value'⟩ := a
    rw [lookup_cons_eq_ite] at h
    rw [docText?, List.findSome?_cons]
    by_cases hkey : docKey = key'
    · rw [if_pos hkey] at h
      cases h
      simp [hkey]
    · rw [if_neg hkey] at h
      have hrest := ih h
      rw [docText?] at hrest
      cases value' <;> simp [hrest, Ne.symm hkey]

theorem docText?_eq_none_of_lookup (h : annotations.lookup docKey = none) :
    docText? annotations = none := by
  rw [docText?, List.findSome?_eq_none_iff]
  rintro ⟨key', value'⟩ ha
  have hkey : key' ≠ docKey := by
    rintro rfl
    exact not_mem_of_lookup_eq_none h (List.mem_map_of_mem ha)
  cases value' <;> simp [hkey]

end Resolve

/-! ### The key of the documentation -/

section

variable {modules : List Source.Module} {scope : Scope}

/-- A written name becomes the key of the documentation only if it is one of these two. -/
theorem annotationKey_ne_docKey (h : PassesChecks modules)
    (ht : scope.table = (declNames modules).zipIdx) {written : String}
    (hname : written ≠ Parser.docName) (htext : written ≠ docKey.text) :
    scope.annotationKey written ≠ docKey := by
  rcases exists_dotted_or_bare written with ⟨module, name, rfl, hbare⟩ | hbare
  · intro hkey
    rw [Scope.annotationKey, splitName_dotted hbare] at hkey
    exact htext (congrArg ScopedName.text hkey)
  · rw [Scope.annotationKey, splitName_of_bare hbare]
    dsimp only
    split
    · exact fun hkey => hname (congrArg ScopedName.name hkey)
    · next i key _ himported =>
      intro hkey
      have hmem : (i, key) ∈ scope.imported written := himported ▸ List.mem_singleton_self _
      obtain ⟨line, -, -, -, hline⟩ := (h.mem_imported_iff ht).mp hmem
      rw [hkey] at hline
      exact hname (congrArg ScopedName.name hline).symm
    · exact fun hkey => hname (congrArg ScopedName.name hkey)

/-- The imports supply one declaration only if one is listed. -/
theorem imported_only_iff (h : PassesChecks modules)
    (ht : scope.table = (declNames modules).zipIdx) {name : String} {i : DeclId} :
    (∀ j, Imported modules scope.module name j ↔ j = i) ↔
      ∃ key, scope.imported name = [(i, key)] := by
  have himported (j : DeclId) : Imported modules scope.module name j ↔
      ∃ key, (j, key) ∈ scope.imported name := h.imported_iff ht
  simp only [himported]
  constructor
  · intro hone
    obtain ⟨key, hkey⟩ := (hone i).mpr rfl
    have hnd := (scope.candidates_imported name).nodup
    rcases hc : scope.imported name with _ | ⟨c, _ | ⟨c', rest⟩⟩
    · rw [hc] at hkey
      cases hkey
    · rw [hc] at hkey
      exact ⟨key, congrArg ([·]) (List.mem_singleton.mp hkey).symm⟩
    · rw [hc] at hnd
      have hfirst := (hone c.1).mp ⟨c.2, hc ▸ List.mem_cons_self⟩
      have hsecond := (hone c'.1).mp ⟨c'.2, hc ▸ List.mem_cons_of_mem _ List.mem_cons_self⟩
      exact absurd (hfirst.trans hsecond.symm)
        (List.ne_of_not_mem_cons (List.nodup_cons.mp hnd).1)
  · rintro ⟨key, hc⟩ j
    rw [hc]
    simp

theorem docHidden_iff_of_declaredAt {m : Source.Module} {i : DeclId}
    (hi : DeclaredAt modules m.name Parser.docName i) :
    DocHidden modules m ↔ m.name ≠ Scope.annotationModule := by
  constructor
  · rintro (⟨-, hne⟩ | ⟨hnot, -⟩)
    · exact hne
    · exact absurd hi (hnot i)
  · exact fun hne => .inl ⟨⟨i, hi⟩, hne⟩

theorem docHidden_iff_of_not_declaredAt {m : Source.Module}
    (hnot : ∀ i, ¬ DeclaredAt modules m.name Parser.docName i) :
    DocHidden modules m ↔
      ∃ i, ¬ DeclaredAt modules Scope.annotationModule Parser.docName i ∧
        ∀ j, Imported modules m Parser.docName j ↔ j = i := by
  constructor
  · rintro (⟨⟨i, hi⟩, -⟩ | ⟨-, hone⟩)
    · exact absurd hi (hnot i)
    · exact hone
  · exact fun hone => .inr ⟨hnot, hone⟩

/-- Documentation comments have the key of the documentation unless it is hidden. -/
theorem annotationKey_doc_iff (h : PassesChecks modules)
    (ht : scope.table = (declNames modules).zipIdx) :
    scope.annotationKey Parser.docName = docKey ↔ ¬ DocHidden modules scope.module := by
  have hbare : '.' ∉ Parser.docName.toList := by decide
  rw [Scope.annotationKey, splitName_of_bare hbare]
  dsimp only
  cases hown : scope.declOf scope.module.name Parser.docName with
  | some i =>
    rw [docHidden_iff_of_declaredAt ((h.declOf_eq_some_iff ht).mp hown), not_not]
    exact ⟨congrArg ScopedName.module, fun hname => by rw [hname]; rfl⟩
  | none =>
    rw [docHidden_iff_of_not_declaredAt ((h.declOf_eq_none_iff ht).mp hown)]
    simp only [imported_only_iff h ht]
    -- one candidate gives its own key, and none or several give that of the documentation
    rcases hc : scope.imported Parser.docName with _ | ⟨⟨i, key⟩, _ | ⟨c, rest⟩⟩
    · exact iff_of_true rfl fun ⟨_, _, _, hone⟩ => nomatch hone
    · have hmem : (i, key) ∈ scope.imported Parser.docName := hc ▸ List.mem_singleton_self _
      obtain ⟨line, -, -, hi, hkey⟩ := (h.mem_imported_iff ht).mp hmem
      dsimp only at hi hkey ⊢
      rw [hkey]
      constructor
      · rintro hdoc ⟨j, hj, _, hone⟩
        cases hone
        have hmodule : line.module = Scope.annotationModule := congrArg ScopedName.module hdoc
        exact hj (hmodule ▸ hi)
      · intro hshown
        have hdeclared : DeclaredAt modules Scope.annotationModule Parser.docName i :=
          by_contra fun hnone => hshown ⟨i, hnone, _, rfl⟩
        exact Option.some.inj (hi.symm.trans hdeclared)
    · exact iff_of_true rfl fun ⟨_, _, _, hone⟩ => nomatch hone

end

/-! ### One block of documentation comments -/

/-- A text is the only documentation that is written. -/
structure OnlyDoc (written : List AnnotationEntry) (text : String) : Prop where
  mem : ⟨Parser.docName, .string text⟩ ∈ written
  only : ∀ a ∈ written, a.name = Parser.docName ∨ a.name = docKey.text →
    a = ⟨Parser.docName, .string text⟩

theorem OneBlock.onlyDoc {notes : List Note} {block : List Token} (h : OneBlock notes block) :
    OnlyDoc (notes.map Note.annotation) (Note.docText block) where
  mem := by
    have hblock : block ∈ notes.filterMap Note.block? := h.blocks ▸ List.mem_singleton_self _
    obtain ⟨note, hnote, heq⟩ := List.mem_filterMap.mp hblock
    refine List.mem_map.mpr ⟨note, hnote, ?_⟩
    cases note with
    | lines block' =>
      obtain rfl : block' = block := Option.some.inj heq
      rfl
    | entry a => cases heq
  only := by
    intro a ha hname
    obtain ⟨note, hnote, rfl⟩ := List.mem_map.mp ha
    cases note with
    | lines block' =>
      have hblock : block' ∈ notes.filterMap Note.block? :=
        List.mem_filterMap.mpr ⟨_, hnote, rfl⟩
      rw [h.blocks, List.mem_singleton] at hblock
      rw [hblock]
      rfl
    | entry a =>
      obtain ⟨hdoc, hkey⟩ := h.unwritten a hnote
      exact absurd hname (not_or.mpr ⟨hdoc, hkey⟩)

namespace OnlyDoc

variable {modules : List Source.Module} {scope : Scope} {written : List AnnotationEntry}
  {text : String}

theorem eraseP (h : OnlyDoc written text) :
    OnlyDoc (written.eraseP Parser.isSerializedName) text where
  mem := by
    have hdoc : ¬ Parser.isSerializedName ⟨Parser.docName, .string text⟩ := by
      simp [Parser.isSerializedName, Parser.docName]
    exact (List.mem_eraseP_of_neg hdoc).mpr h.mem
  only a ha := h.only a (List.mem_of_mem_eraseP ha)

/-- Only the documentation comments can have the key of the documentation. -/
theorem eq_of_annotationKey (h : OnlyDoc written text) (hc : PassesChecks modules)
    (ht : scope.table = (declNames modules).zipIdx) {a : AnnotationEntry} (ha : a ∈ written)
    (hkey : scope.annotationKey a.name = docKey) : a = ⟨Parser.docName, .string text⟩ := by
  refine h.only a ha (by_contra fun hname => ?_)
  obtain ⟨hdoc, htext⟩ := not_or.mp hname
  exact annotationKey_ne_docKey hc ht hdoc htext hkey

theorem hidden (h : OnlyDoc written text) (hc : PassesChecks modules)
    (ht : scope.table = (declNames modules).zipIdx) (hhidden : DocHidden modules scope.module) :
    docText? (scope.resolveAnnotations written) = none := by
  refine docText?_eq_none_of_lookup (scope.lookup_resolveAnnotations_eq_none fun a ha hkey => ?_)
  rw [h.eq_of_annotationKey hc ht ha hkey] at hkey
  exact (annotationKey_doc_iff hc ht).mp hkey hhidden

theorem documents_iff (h : OnlyDoc written text) (hc : PassesChecks modules)
    (ht : scope.table = (declNames modules).zipIdx) :
    Documents (scope.resolveAnnotations written)
        (ModuleSet.exportAnnotations (scope.resolveAnnotations written)) text ↔
      ¬ DocHidden modules scope.module := by
  constructor
  · intro hdocuments hhidden
    exact Option.some_ne_none _ (hdocuments.text_eq.symm.trans (h.hidden hc ht hhidden))
  · intro hnot
    have hkey := (annotationKey_doc_iff hc ht).mpr hnot
    have hlookup : (scope.resolveAnnotations written).lookup docKey = some (.string text) := by
      refine scope.lookup_resolveAnnotations (fun a ha ha' => ?_) ⟨_, h.mem, hkey⟩
      rw [h.eq_of_annotationKey hc ht ha ha']
    have hmem := mem_of_lookup hlookup
    exact ⟨hmem, docText?_of_lookup hlookup, List.mem_map.mpr ⟨_, hmem, rfl⟩⟩

end OnlyDoc

theorem documented {modules : List Source.Module} (scope : Scope) {written : List AnnotationEntry}
    {notes : List Note} (hc : PassesChecks modules)
    (ht : scope.table = (declNames modules).zipIdx)
    (h : ∀ block, OneBlock notes block → OnlyDoc written (Note.docText block)) :
    Documented modules scope.module notes (scope.resolveAnnotations written)
      (ModuleSet.exportAnnotations (scope.resolveAnnotations written)) where
  documents_iff block hblock := (h block hblock).documents_iff hc ht
  hidden block hblock := (h block hblock).hidden hc ht

/-! ### Records -/

namespace ModuleSet

variable (set : ModuleSet) {y : Member}

theorem exists_exportMember {ms : List Member} (h : y ∈ ms) (defaults : List (Option Value)) :
    ∃ default, set.exportMember y default ∈ set.exportMembers ms defaults := by
  induction ms generalizing defaults with
  | nil => cases h
  | cons m ms ih =>
    cases defaults with
    | nil =>
      rcases List.mem_cons.mp h with rfl | h
      · exact ⟨none, List.mem_cons_self⟩
      · exact (ih h []).imp fun _ => List.mem_cons_of_mem _
    | cons default defaults =>
      rcases List.mem_cons.mp h with rfl | h
      · exact ⟨default, List.mem_cons_self⟩
      · exact (ih h defaults).imp fun _ => List.mem_cons_of_mem _

/-- Every member of a declaration has a field in its record. -/
theorem exists_field {id : DeclId} (h : y ∈ (set.decl id).members) (defaults : Defaults) :
    ∃ default, set.exportMember y default ∈ (set.exportDecl id defaults).body.fields := by
  rw [Decl.members] at h
  show ∃ default, _ ∈ (set.exportBody (set.decl id) defaults).fields
  rw [exportBody]
  cases hb : (set.decl id).body with
  | struct ms =>
    rw [hb] at h
    exact exists_exportMember set h defaults.fields
  | union ms =>
    rw [hb] at h
    exact exists_exportMember set h defaults.fields
  | enum ms =>
    rw [hb] at h
    exact exists_exportMember set h defaults.fields
  | «alias» t =>
    rw [hb] at h
    cases h
  | newtype t default =>
    rw [hb] at h
    cases h

end ModuleSet

/-! ### Main statement -/

/-- Items with their notes: the notes of a declaration and of a member are kept as the documentation
of what these are resolved to. -/
structure NotesKept (modules : List Source.Module) (set : ModuleSet) (m : Source.Module)
    (placed : List (Item × List Note)) : Prop where
  decl : ∀ d notes, (.decl d, notes) ∈ placed → ∃ id, set.lookup ⟨m.name, d.name⟩ = some id ∧
    ∀ defaults, Documented modules m notes (set.decl id).annotations
      (set.exportDecl id defaults).annotations
  member : ∀ d sm notes, (.member d sm, notes) ∈ placed → ∃ id, ∃ y ∈ (set.decl id).members,
    set.lookup ⟨m.name, d.name⟩ = some id ∧ y.name = sm.name ∧ ∀ defaults,
      ∃ field ∈ (set.exportDecl id defaults).body.fields, field.name = y.name ∧
        Documented modules m notes y.annotations field.annotations

section

variable {modules : List Source.Module} {set : ModuleSet} {m : Source.Module} {d : Source.Decl}
  (h : Resolved modules set)

include h

theorem Resolved.table_eq : set.names = (declNames modules).zipIdx := by
  rw [h.names_eq, declNames_eq]

/-- What a declaration is resolved to is found by its name. -/
theorem Resolved.exists_decl (hm : m ∈ modules) (hd : d ∈ m.decls) :
    ∃ id, set.lookup ⟨m.name, d.name⟩ = some id ∧
      resolveDecl set.names m id d = .ok (set.decl id) := by
  obtain ⟨id, hplace⟩ := List.mem_iff_getElem?.mp (mem_places_iff.mpr ⟨hm, hd⟩)
  obtain ⟨x, hx, hresolved⟩ := h.decl_of_place hplace
  refine ⟨id, ?_, ModuleSet.decl_of_getElem? hx ▸ hresolved⟩
  rw [ModuleSet.lookup, h.lookup_eq_some_iff]
  exact ⟨m, d, hplace, rfl⟩

theorem documented_decl {id : DeclId} (hresolved : resolveDecl set.names m id d = .ok (set.decl id))
    {notes : List Note} (hkeeps : Item.Keeps (.decl d) notes) (defaults : Defaults) :
    Documented modules m notes (set.decl id).annotations
      (set.exportDecl id defaults).annotations := by
  obtain ⟨-, body, -, hdecl⟩ := resolveDecl_eq_ok_iff.mp hresolved
  rw [ModuleSet.exportDecl, ← hdecl]
  refine documented (declScope set.names m d) h.passesChecks h.table_eq fun block hblock => ?_
  exact hkeeps.symm ▸ hblock.onlyDoc

theorem documented_member {id : DeclId} {sm : Source.Member} {y : Member}
    (hresolved : resolveMember (declScope set.names m d) sm = .ok y)
    (hy : y ∈ (set.decl id).members) {notes : List Note}
    (hkeeps : Item.Keeps (.member d sm) notes) (defaults : Defaults) :
    ∃ field ∈ (set.exportDecl id defaults).body.fields, field.name = y.name ∧
      Documented modules m notes y.annotations field.annotations := by
  obtain ⟨type, -, rfl⟩ := resolveMember_eq_ok_iff.mp hresolved
  obtain ⟨default, hfield⟩ := set.exists_field hy defaults
  refine ⟨_, hfield, rfl, ?_⟩
  refine documented (memberScope (declScope set.names m d) sm) h.passesChecks h.table_eq
    fun block hblock => ?_
  exact hkeeps.symm ▸ hblock.onlyDoc.eraseP

end

/-- In a set that modules resolve to: the tokens that a module was read from are laid out over its
declarations and their members, with the notes before each of them.  A block of documentation
comments that stands alone in the notes is the documentation unless this is hidden in the module. -/
theorem documentation_laws {modules : List Source.Module} {set : ModuleSet}
    (h : ModuleSet.resolve modules = .ok set) :
    ∀ m ∈ modules, ∀ tokens, Source.parse tokens = .ok m → ∃ placed : List (Item × List Note),
      placed.map Prod.fst = m.items ∧ Source.Layout tokens placed [] ∧
        NotesKept modules set m placed := by
  have hr := resolve_eq_ok_iff.mp h
  intro m hm tokens htokens
  obtain ⟨placed, hitems, hkeeps, hlayout⟩ := layout_of_parse htokens
  have hitem {item : Item} {notes : List Note} (hp : (item, notes) ∈ placed) : item ∈ m.items :=
    hitems ▸ List.mem_map_of_mem hp
  refine ⟨placed, hitems, hlayout, ⟨fun d notes hp => ?_, fun d sm notes hp => ?_⟩⟩
  · obtain ⟨id, hid, hresolved⟩ := hr.exists_decl hm (decl_mem_items.mp (hitem hp))
    exact ⟨id, hid, documented_decl hr hresolved (hkeeps _ hp)⟩
  · obtain ⟨hd, hsm⟩ := member_mem_items.mp (hitem hp)
    obtain ⟨id, hid, hresolved⟩ := hr.exists_decl hm hd
    obtain ⟨y, hy, hmember⟩ := exists_of_forall₂ (members_of_resolveDecl hresolved).flip hsm
    have hname : y.name = sm.name := by
      obtain ⟨type, -, rfl⟩ := resolveMember_eq_ok_iff.mp hmember
      rfl
    exact ⟨id, y, hy, hid, hname, documented_member hr hmember hy (hkeeps _ hp)⟩

/-- The tokens of a module in which a declaration `S` has documentation, behind other tokens. -/
def notedTokens (before : List String) : List Token :=
  (["module", "m", "\x7b"] ++ before ++
    ["/// Text", "struct", "S", "\x7b", "\x7d", ";", "\x7d", ";"]).map fun text => ⟨text, .start⟩

/-- The module that `notedTokens` is read as, with the declarations before `S`. -/
def notedModule (before : List Source.Decl) : Source.Module :=
  ⟨"m", [], before ++ [⟨"S", [], [⟨"Doc", .string "Text\n"⟩], .struct [], .start⟩], []⟩

/-- A declaration that hides the annotation `Doc`. -/
def ownDoc : Source.Decl := ⟨"Doc", [], [], .struct [], .start⟩

/-- What `notedModule` resolves to when `S` is its only declaration. -/
def shownSet : ModuleSet :=
  ⟨[⟨"m", [], [0], []⟩], [⟨0, "m", "S", [], [(docKey, .string "Text\n")], .struct []⟩],
    [(⟨"m", "S"⟩, 0)]⟩

/-- What `notedModule` resolves to when there is a declaration `Doc` as well. -/
def hiddenSet : ModuleSet :=
  ⟨[⟨"m", [], [0, 1], []⟩], [⟨0, "m", "Doc", [], [], .struct []⟩,
      ⟨1, "m", "S", [], [(⟨"m", "Doc"⟩, .string "Text\n")], .struct []⟩],
    [(⟨"m", "Doc"⟩, 0), (⟨"m", "S"⟩, 1)]⟩

/-- The comment before `S` is its documentation, but not in a module that declares `Doc`. -/
theorem noted_documentation :
    (ModuleSet.resolve [notedModule []] = .ok shownSet ∧
      Source.parse (notedTokens []) = .ok (notedModule []) ∧
      docText? (shownSet.decl 0).annotations = some "Text\n" ∧
      ∃ placed : List (Item × List Note), placed.map Prod.fst = (notedModule []).items ∧
        Source.Layout (notedTokens []) placed [] ∧
          NotesKept [notedModule []] shownSet (notedModule []) placed) ∧
    ModuleSet.resolve [notedModule [ownDoc]] = .ok hiddenSet ∧
      Source.parse (notedTokens ["struct", "Doc", "\x7b", "\x7d", ";"]) =
        .ok (notedModule [ownDoc]) ∧
      DocHidden [notedModule [ownDoc]] (notedModule [ownDoc]) ∧
      docText? (hiddenSet.decl 1).annotations = none ∧
      ∃ placed : List (Item × List Note), placed.map Prod.fst = (notedModule [ownDoc]).items ∧
        Source.Layout (notedTokens ["struct", "Doc", "\x7b", "\x7d", ";"]) placed [] ∧
          NotesKept [notedModule [ownDoc]] hiddenSet (notedModule [ownDoc]) placed := by
  have hshown : ModuleSet.resolve [notedModule []] = .ok shownSet := by rfl
  have hhidden : ModuleSet.resolve [notedModule [ownDoc]] = .ok hiddenSet := by rfl
  have hread : Source.parse (notedTokens []) = .ok (notedModule []) := by rfl
  have hread' : Source.parse (notedTokens ["struct", "Doc", "\x7b", "\x7d", ";"]) =
      .ok (notedModule [ownDoc]) := by rfl
  refine ⟨⟨hshown, hread, rfl, ?_⟩, hhidden, hread', ?_, rfl, ?_⟩
  · exact documentation_laws hshown _ (List.mem_singleton_self _) _ hread
  · exact .inl ⟨⟨0, rfl⟩, by decide⟩
  · exact documentation_laws hhidden _ (List.mem_singleton_self _) _ hread'

end Adl
