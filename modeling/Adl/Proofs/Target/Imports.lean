import Adl.Proofs.Compile.Sources
import Adl.Proofs.Source.Dependencies
import Adl.Proofs.Target.Built
import Adl.Proofs.Target.TypeScriptNames

/-!
# Imports — the modules that a TypeScript unit imports

The import lines of a unit are found by one traversal of the types and the defaults of a module, and
its items are made by another one.  Both visit the same declarations, so a unit imports a module
exactly if a name of this module stands in one of its items (`importedModules_exact`).
-/

namespace Adl

/-! ### Occurrences -/

/-- A text occurs in another one. -/
def Text.Occurs (s t : String) : Prop := s.toList <:+: t.toList

namespace Text.Occurs

variable {s t : String}

theorem refl (s : String) : Occurs s s := List.infix_refl _

theorem trans {u : String} (h : Occurs s t) (h' : Occurs t u) : Occurs s u :=
  List.IsInfix.trans h h'

theorem before (h : Occurs s t) (u : String) : Occurs s (t ++ u) := by
  rw [Occurs, String.toList_append]
  exact List.infix_append_of_infix_left h

theorem behind (h : Occurs s t) (u : String) : Occurs s (u ++ t) := by
  rw [Occurs, String.toList_append]
  exact List.infix_append_of_infix_right h

theorem mid (h : Occurs s t) (u v : String) : Occurs s (u ++ t ++ v) := (h.behind u).before v

theorem listed {items : List String} (ht : t ∈ items) : Occurs t (Text.listed items) := by
  induction items with
  | nil => cases ht
  | cons first rest ih =>
    cases rest with
    | nil =>
      obtain rfl := List.mem_singleton.mp ht
      rw [Text.listed, String.intercalate_singleton]
      exact refl t
    | cons next rest =>
      rw [Text.listed, String.intercalate_cons_cons]
      rcases List.mem_cons.mp ht with rfl | ht
      · exact ((refl t).before _).before _
      · exact (ih ht).behind _

theorem angled {items : List String} (ht : t ∈ items) : Occurs t (Text.angled items) := by
  have hne : items.isEmpty = false := by
    rw [List.isEmpty_eq_false_iff]
    exact List.ne_nil_of_mem ht
  rw [Text.angled, hne]
  exact (listed ht).mid _ _

end Text.Occurs

namespace TypeScript

open Text (Occurs)

variable {r : Ref}

theorem Ty.texts_eq_map (ts : List Ty) : texts ts = ts.map text := by
  induction ts with
  | nil => rfl
  | cons t ts ih => rw [texts, ih, List.map_cons]

theorem Ty.Names.occurs {t : Ty} (h : t.Names r) : Occurs r.text t.text := by
  induction h with
  | array _ ih => exact ih.mid "(" ")[]"
  | map _ ih => exact ih.mid "\x7b[key: string]: " "\x7d"
  | orNull _ ih => exact ih.mid "(" "|null)"
  | handle _ ih => exact ih.mid "ADL.ATypeExpr<" ">"
  | head args => exact (Occurs.refl _).before _
  | arg ht _ ih =>
    have hlisted := Occurs.angled (List.mem_map_of_mem (f := Ty.text) ht)
    rw [← Ty.texts_eq_map] at hlisted
    exact (ih.trans hlisted).behind _

namespace Expr

theorem texts_eq_map (es : List Expr) : texts es = es.map text := by
  induction es with
  | nil => rfl
  | cons e es ih => rw [texts, ih, List.map_cons]

theorem entryTexts_eq_map (entries : List (String × Expr)) :
    entryTexts entries = entries.map fun e => Text.quote e.1 ++ ": " ++ e.2.text := by
  induction entries with
  | nil => rfl
  | cons e entries ih =>
    obtain ⟨name, e⟩ := e
    rw [entryTexts, ih, List.map_cons]

theorem fieldTexts_eq_map (fields : List (String × Expr)) :
    fieldTexts fields = fields.map fun f => key f.1 ++ ": " ++ f.2.text := by
  induction fields with
  | nil => rfl
  | cons f fields ih =>
    obtain ⟨name, e⟩ := f
    rw [fieldTexts, ih, List.map_cons]

/-- The text of a part occurs in the text of an expression. -/
theorem occurs_of_mem_parts {e e' : Expr} (h : e' ∈ e.parts) : Occurs e'.text e.text := by
  cases e with
  | array items =>
    have hlisted := Occurs.listed (List.mem_map_of_mem (f := text) h)
    rw [← texts_eq_map] at hlisted
    exact hlisted.mid "[" "]"
  | map entries =>
    obtain ⟨entry, hentry, rfl⟩ := List.mem_map.mp h
    have hone : Occurs entry.2.text (Text.quote entry.1 ++ ": " ++ entry.2.text) :=
      (Occurs.refl _).behind _
    have hlisted := Occurs.listed (List.mem_map_of_mem
      (f := fun e : String × Expr => Text.quote e.1 ++ ": " ++ e.2.text) hentry)
    rw [← entryTexts_eq_map] at hlisted
    exact (hone.trans hlisted).mid "\x7b" "\x7d"
  | record fields =>
    obtain ⟨field, hfield, rfl⟩ := List.mem_map.mp h
    have hone : Occurs field.2.text (key field.1 ++ ": " ++ field.2.text) :=
      (Occurs.refl _).behind _
    have hlisted := Occurs.listed (List.mem_map_of_mem
      (f := fun f : String × Expr => key f.1 ++ ": " ++ f.2.text) hfield)
    rw [← fieldTexts_eq_map] at hlisted
    exact (hone.trans hlisted).mid "\x7b" "\x7d"
  | variant name payload =>
    obtain rfl := List.mem_singleton.mp h
    exact (Occurs.refl e'.text).mid ("\x7bkind: " ++ Text.quote name ++ ", value: ") "\x7d"
  | _ => cases h

theorem Names.occurs {e : Expr} (h : e.Names r) : Occurs r.text e.text := by
  induction h with
  | label name => exact ((Occurs.refl r.text).before ".").before name
  | part he _ ih => exact ih.trans (occurs_of_mem_parts he)

end Expr

/-! ### Names in lines -/

/-- Every name that stands in an item occurs in one of its lines. -/
theorem Item.Names.exists_occurs {i : Item} (h : i.Names r) :
    ∃ line ∈ i.lines, Occurs r.text line := by
  cases i with
  | record x =>
    obtain ⟨f, hf, h | ⟨e, he, h⟩⟩ := h
    · have hfield : "  " ++ key f.name ++ ": " ++ f.type.text ++ ";" ∈
          x.fields.flatMap Record.fieldLines :=
        List.mem_flatMap.mpr ⟨f, hf, List.mem_append_right _ (List.mem_singleton_self _)⟩
      have hline : "  " ++ key f.name ++ ": " ++ f.type.text ++ ";" ∈ (Item.record x).lines := by
        rw [Item.lines, Record.lines]
        grind
      exact ⟨_, hline, h.occurs.mid _ _⟩
    · have hline : Record.initLine f ∈ (Item.record x).lines := by
        rw [Item.lines, Record.lines]
        exact List.mem_append_left _ (List.mem_append_right _ (List.mem_map_of_mem hf))
      refine ⟨_, hline, ?_⟩
      rw [Record.initLine, he]
      exact ((h.occurs.mid _ _).before _).before _
  | sum s =>
    obtain ⟨v, hv, h⟩ := h
    have hoption := List.mem_map_of_mem
      (f := fun v : Variant => "  " ++ key v.tag ++ ": " ++ v.type.text ++ ";") hv
    have hline : "  " ++ key v.tag ++ ": " ++ v.type.text ++ ";" ∈ (Item.sum s).lines := by
      rw [Item.lines, Sum.lines]
      grind
    exact ⟨_, hline, h.occurs.mid _ _⟩
  | enumeration e => exact h.elim
  | «alias» a =>
    rcases h with h | ⟨e, he, h⟩
    · refine ⟨_, ?_, h.occurs.mid ("export type " ++ (a.name ++ Text.angled a.params) ++ " = ") ";"⟩
      rw [Item.lines, Alias.lines]
      grind
    · refine ⟨_, ?_, h.occurs.mid "  return " ";"⟩
      rw [Item.lines, Alias.lines, he]
      grind

/-! ### Import lines -/

/-- Whether a line is an import line. -/
def isImport (line : String) : Bool := "import ".toList.isPrefixOf line.toList

/-- Whether a line starts with a character that no import line starts with. -/
def opens (line : String) : Bool := line.toList.head?.any (· != 'i')

@[simp] theorem opens_append {s : String} (h : opens s) (t : String) : opens (s ++ t) := by
  unfold opens at h ⊢
  rw [String.toList_append]
  cases hs : s.toList with
  | nil => simp [hs] at h
  | cons c cs => simpa [hs] using h

theorem not_isImport_of_opens {line : String} (h : opens line) : isImport line = false := by
  unfold opens at h
  unfold isImport
  cases hs : line.toList with
  | nil => simp [hs] at h
  | cons c cs =>
    have hne : c ≠ 'i' := by simpa [hs] using h
    simp [List.isPrefixOf, hne.symm]

@[simp] theorem isImport_append {s : String} (h : opens s) (t : String) :
    isImport (s ++ t) = false :=
  not_isImport_of_opens (opens_append h t)

theorem isImport_importLine (name path : String) : isImport (importLine name path) := by
  unfold isImport importLine
  simp [String.toList_append, List.isPrefixOf]

/-- No line is an import line. -/
def ImportFree (lines : List String) : Prop := ∀ line ∈ lines, isImport line = false

namespace ImportFree

variable {α : Type} {as : List α}

@[simp] theorem nil_iff : ImportFree [] ↔ True := iff_true_intro fun _ h => nomatch h

@[simp] theorem cons_iff {line : String} {lines : List String} :
    ImportFree (line :: lines) ↔ isImport line = false ∧ ImportFree lines := List.forall_mem_cons

@[simp] theorem append_iff {lines lines' : List String} :
    ImportFree (lines ++ lines') ↔ ImportFree lines ∧ ImportFree lines' := List.forall_mem_append

@[simp] theorem map_iff {f : α → String} :
    ImportFree (as.map f) ↔ ∀ a ∈ as, isImport (f a) = false := List.forall_mem_map

@[simp] theorem flatMap_iff {f : α → List String} :
    ImportFree (as.flatMap f) ↔ ∀ a ∈ as, ImportFree (f a) := List.forall_mem_flatMap

theorem docLines (indent : String) (h : indent = "" ∨ indent = "  ") (doc : Option String) :
    ImportFree (docLines indent doc) := by
  cases doc with
  | none => exact fun _ h => nomatch h
  | some text =>
    rcases h with rfl | rfl <;> simp +decide [TypeScript.docLines, apply_ite isImport]

/-- No line of an item is an import line. -/
theorem item (i : Item) : ImportFree i.lines := by
  have hdoc := docLines "" (.inl rfl)
  have hinner := docLines "  " (.inr rfl)
  cases i with
  | record x =>
    have hinit (f : Field) : isImport (Record.initLine f) = false := by
      unfold Record.initLine
      cases f.default <;> simp +decide [String.append_assoc]
    simp +decide [Item.lines, Record.lines, Record.fieldLines, Record.inputLine, hinit, hdoc,
      hinner, String.append_assoc]
  | sum s =>
    have hvariant (v : Variant) : ImportFree (s.variantLines v) := by
      cases hv : v.carries <;> simp +decide [Sum.variantLines, hdoc, hv, String.append_assoc]
    simp +decide [Item.lines, Sum.lines, hvariant, hdoc, String.append_assoc]
  | enumeration e =>
    simp +decide [Item.lines, Enumeration.lines, hdoc, hinner, String.append_assoc]
  | «alias» a =>
    cases hd : a.default <;>
      simp +decide [Item.lines, Alias.lines, hd, hdoc, String.append_assoc]

theorem handle (name : ScopedName) (params : List String) :
    ImportFree (handleLines name params) := by
  simp +decide [handleLines, String.append_assoc]

theorem embedded (records : List Target.Embedded) : ImportFree (embeddedLines records) := by
  simp +decide [embeddedLines, String.append_assoc]

end ImportFree

/-- The import lines of a unit are that of the support library and one for each imported module. -/
theorem filter_isImport_unitLines (c : Compilation) (m : Module) (options : Target.Options) :
    (unitLines c m options).filter isImport =
      importLine "ADL" (relativeToRoot m.name (options.runtime.getD standardRuntime)) ::
        (importedModules c m).map fun other =>
          importLine (moduleAlias other) (relativeImport m.name other) := by
  have hdecls : ImportFree (m.decls.flatMap fun id =>
      declLines ⟨c.set, m.name⟩ (c.set.decl id) (c.defaultsOf id)) := by
    simp +decide [declLines, ImportFree.item, ImportFree.handle]
  have hrest : ImportFree (if options.includeAst then "" :: embeddedLines (Target.embedded c m)
      else []) := by
    split <;> simp +decide [ImportFree.embedded]
  have hhead : isImport ("/* @generated by adlc from module " ++ m.name ++ ". Do not edit. */") =
      false := by
    simp +decide [String.append_assoc]
  have hnone {lines : List String} (h : ImportFree lines) : lines.filter isImport = [] :=
    List.filter_eq_nil_iff.mpr fun line hline => by simp [h line hline]
  have hall (f : String → String) (g : String → String) (names : List String) :
      (names.map fun n => importLine (f n) (g n)).filter isImport =
        names.map fun n => importLine (f n) (g n) :=
    List.filter_eq_self.mpr (List.forall_mem_map.mpr fun _ _ => isImport_importLine _ _)
  have hempty : isImport "" = false := by decide
  rw [unitLines, List.filter_append, List.filter_append, List.filter_append, hnone hdecls,
    hnone hrest, headLines, List.filter_append, hall]
  simp [hhead, hempty, isImport_importLine]

end TypeScript

/-! ### What a unit refers to -/

/-- The labels of the enumerations in a module are only names, and these have no parameters. -/
def Source.Module.PlainLabels (m : Source.Module) : Prop :=
  ∀ d ∈ m.decls, ∀ ms, d.body = .enum ms → d.typeParams = [] ∧ ∀ l ∈ ms, l.IsLabel

/-- Modules that are read from texts have such labels. -/
theorem Source.Module.WellFormed.plainLabels {P : Literal → Prop} {m : Source.Module}
    (h : m.WellFormed P) : m.PlainLabels := by
  intro d hd ms hbody
  have hdecl := h.decls d hd
  have hms := hdecl.body
  rw [hbody] at hms
  exact ⟨hdecl.enumParams ms hbody, fun l hl => (hms l hl).2⟩

variable {modules : List Source.Module}

/-- A label has the type `Void`. -/
theorem Resolved.label_type {set : ModuleSet} (h : Resolved modules set)
    (hlabels : ∀ sm ∈ modules, sm.PlainLabels) {id : DeclId} {ms : List Member}
    (hbody : (set.decl id).body = .enum ms) : ∀ m ∈ ms, m.type = .mk (.primitive .void) [] := by
  intro m hm
  cases hx : set.decls[id]? with
  | none =>
    rw [ModuleSet.decl, hx] at hbody
    cases hbody
  | some x =>
    obtain ⟨sm, sd, hplace, hr⟩ := h.place_of_decls hx
    rw [ModuleSet.decl_of_getElem? hx] at hbody
    obtain ⟨-, body, hb, rfl⟩ := Resolve.resolveDecl_eq_ok_iff.mp hr
    obtain rfl : body = .enum ms := hbody
    obtain ⟨hsm, hsd⟩ := Resolve.mem_places_iff.mp (List.mem_of_getElem? hplace)
    have hresolved := Resolve.resolveBody_eq_ok_iff.mp hb
    generalize hsb : sd.body = sb at hresolved
    cases hresolved with
    | enum hms =>
      obtain ⟨hparams, hlabel⟩ := hlabels sm hsm sd hsd _ hsb
      obtain ⟨l, hl, hy⟩ := exists_of_forall₂ hms hm
      obtain ⟨type, htype, rfl⟩ := Resolve.resolveMember_eq_ok_iff.mp hy
      obtain ⟨_, hwritten⟩ := (hlabel l hl).type
      rw [hwritten] at htype
      obtain ⟨head, us, hhead, hus, rfl⟩ := Resolve.resolveType_eq_ok_iff.mp htype
      cases hus
      have hvoid : (Resolve.memberScope (Resolve.declScope set.names sm sd) l).resolveName "Void" =
          .ok (.primitive .void) := by
        have hnone :
            "Void" ∉ (Resolve.memberScope (Resolve.declScope set.names sm sd) l).typeParams := by
          simp [Resolve.memberScope, Resolve.declScope, hparams]
        have hsplit : splitName "Void" = (none, "Void") := by decide
        rw [Resolve.Scope.resolveName, hsplit]
        dsimp only
        rw [if_neg hnone]
        rfl
      cases hvoid.symm.trans hhead
      rfl

namespace TypeScript

open Text (Occurs)

variable {c : Compilation} {m : Module} {other : String}

/-- The item of a declaration in the unit of a module. -/
def itemIn (c : Compilation) (m : Module) (id : DeclId) : Item :=
  (⟨c.set, m.name⟩ : Context).item (c.set.decl id) (c.defaultsOf id)

theorem mem_importedModules_iff_refersTo :
    other ∈ importedModules c m ↔ other ≠ m.name ∧ ∃ id ∈ m.decls, ∃ target,
      (c.set.decl id).RefersTo (c.defaultsOf id) target ∧ (c.set.decl target).module = other := by
  rw [importedModules, List.mem_filter, Source.Module.mem_foldl_insertName_iff, List.mem_flatMap]
  simp only [mem_declModules_iff, List.not_mem_nil, or_false, decide_eq_true_eq]
  exact and_comm

/-- The items of a unit name what their declarations and defaults refer to. -/
theorem names_itemIn_iff (h : Compiled modules c) (hlabels : ∀ sm ∈ modules, sm.PlainLabels)
    {id : DeclId} {r : Ref} :
    (itemIn c m id).Names r ↔ ∃ target,
      (c.set.decl id).RefersTo (c.defaultsOf id) target ∧
        (⟨c.set, m.name⟩ : Context).ref target = r :=
  Context.names_item_iff (ModuleSet.proper_of_checkAll h.resolved h.checked id)
    (fun _ hbody => h.resolved.label_type hlabels hbody) (h.defaultsAt id)

/-- The name of a declaration is qualified by its module outside this module. -/
theorem Context.module_ref_eq_some_iff {ctx : Context} {id : DeclId} :
    (ctx.ref id).module = some other ↔ other ≠ ctx.module ∧ (ctx.set.decl id).module = other := by
  rw [ref]
  dsimp only
  split <;> grind

/-- A module is imported exactly if one of its names stands in an item of the unit. -/
theorem mem_importedModules_iff (h : Compiled modules c)
    (hlabels : ∀ sm ∈ modules, sm.PlainLabels) :
    other ∈ importedModules c m ↔
      ∃ id ∈ m.decls, ∃ r, (itemIn c m id).Names r ∧ r.module = some other := by
  rw [mem_importedModules_iff_refersTo]
  simp only [names_itemIn_iff h hlabels]
  constructor
  · rintro ⟨hne, id, hid, target, hrefers, hmodule⟩
    exact ⟨id, hid, _, ⟨target, hrefers, rfl⟩, Context.module_ref_eq_some_iff.mpr ⟨hne, hmodule⟩⟩
  · rintro ⟨id, hid, _, ⟨target, hrefers, rfl⟩, hmodule⟩
    obtain ⟨hne, hmodule⟩ := Context.module_ref_eq_some_iff.mp hmodule
    exact ⟨hne, id, hid, target, hrefers, hmodule⟩

/-- A line of an item is a line of the unit. -/
theorem mem_unitLines_of_mem_lines {options : Target.Options} {id : DeclId} {line : String}
    (hid : id ∈ m.decls) (hline : line ∈ (itemIn c m id).lines) : line ∈ unitLines c m options := by
  have hdecl : line ∈ declLines ⟨c.set, m.name⟩ (c.set.decl id) (c.defaultsOf id) := by
    rw [declLines]
    exact List.mem_append_left _ (List.mem_append_left _ (List.mem_append_right _ hline))
  rw [unitLines]
  exact List.mem_append_left _ (List.mem_append_left _
    (List.mem_append_right _ (List.mem_flatMap.mpr ⟨id, hid, hdecl⟩)))

/-! ### Main statement -/

/-- The import lines of a unit are those that its items need. -/
structure ImportsExact (c : Compilation) (m : Module) (options : Target.Options) : Prop where
  /-- There is an import line for each imported module, besides that of the support library. -/
  lines : (unitLines c m options).filter isImport =
    importLine "ADL" (relativeToRoot m.name (options.runtime.getD standardRuntime)) ::
      (importedModules c m).map fun other =>
        importLine (moduleAlias other) (relativeImport m.name other)
  /-- The imported modules are in increasing order, so none is imported twice. -/
  sorted : (importedModules c m).Pairwise (· < ·)
  /-- A module is imported if and only if one of its names stands in an item. -/
  exact : ∀ other, other ∈ importedModules c m ↔
    ∃ id ∈ m.decls, ∃ r, (itemIn c m id).Names r ∧ r.module = some other
  /-- Each name that stands in an item is written in a line of the unit. -/
  written : ∀ id ∈ m.decls, ∀ r, (itemIn c m id).Names r →
    ∃ line ∈ unitLines c m options, Occurs r.text line

theorem Compiled.importsExact (h : Compiled modules c) (hlabels : ∀ sm ∈ modules, sm.PlainLabels)
    (m : Module) (options : Target.Options) : ImportsExact c m options where
  lines := filter_isImport_unitLines c m options
  sorted := (Source.Module.pairwise_foldl_insertName .nil).filter _
  exact _ := mem_importedModules_iff h hlabels
  written _ hid _ hr := by
    obtain ⟨line, hline, hoccurs⟩ := hr.exists_occurs
    exact ⟨line, mem_unitLines_of_mem_lines hid hline, hoccurs⟩

/-- The units of modules that are compiled from texts have the import lines that they need. -/
theorem ofSources_importsExact {texts : List String} (hc : Compilation.ofSources texts = .ok c)
    (m : Module) (options : Target.Options) : ImportsExact c m options := by
  obtain ⟨modules, h, hwf⟩ := Compilation.exists_modules hc
  exact Compiled.importsExact h (fun sm hsm => (hwf sm hsm).plainLabels) m options

/-- In a compiled set the unit of each module imports those other modules whose names stand in it,
in a type or in a default at any depth, and no others. -/
theorem importedModules_exact (hc : Compilation.ofModules modules = .ok c)
    (hlabels : ∀ sm ∈ modules, sm.PlainLabels) (m : Module) (options : Target.Options) :
    ImportsExact c m options :=
  Compiled.importsExact (ofModules_eq_ok_iff.mp hc) hlabels m options

/-- The modules of `enum Hue { red; green; };`, of `union Tone { Void none; hues.Hue hue; };` and
`type Row<T> = Vector<T>;`, and of a struct with the fields
`StringMap<Vector<tones.Tone>> main = {"a": [{"hue": "green"}]};` and `tones.Row<String> names;`, as
they are parsed. -/
def paintModules : List Source.Module :=
  let type (name : String) (args : List Source.TypeExpr) : Source.TypeExpr := .mk name args .start
  let label (name : String) : Source.Member := ⟨name, name, type "Void" [], none, [], .start⟩
  let main : Literal := .object [("a", .array [.object [("hue", .string "green")]])]
  [⟨"hues", [], [⟨"Hue", [], [], .enum [label "red", label "green"], .start⟩], []⟩,
    ⟨"tones", [],
      [⟨"Tone", [], [], .union [⟨"none", "none", type "Void" [], none, [], .start⟩,
          ⟨"hue", "hue", type "hues.Hue" [], none, [], .start⟩], .start⟩,
        ⟨"Row", ["T"], [], .alias (type "Vector" [type "T" []]), .start⟩], []⟩,
    ⟨"paints", [],
      [⟨"Paint", [], [], .struct
        [⟨"main", "main", type "StringMap" [type "Vector" [type "tones.Tone" []]], some main, [],
            .start⟩,
          ⟨"names", "names", type "tones.Row" [type "String" []], none, [], .start⟩], .start⟩], []⟩]

/-- The module of the struct in `paintModules`. -/
def paintModule : Module := ⟨"paints", [], [3], []⟩

/-- What `paintModules` compile to. -/
def paintCompilation : Compilation :=
  let void : TypeExpr := .mk (.primitive .void) []
  let main : Literal := .object [("a", .array [.object [("hue", .string "green")]])]
  let tones : TypeExpr := .mk (.primitive .stringMap) [.mk (.primitive .vector) [.mk (.decl 1) []]]
  let set : ModuleSet :=
    ⟨[⟨"hues", [], [0], []⟩, ⟨"tones", [], [1, 2], []⟩, paintModule],
      [⟨0, "hues", "Hue", [], [],
          .enum [⟨"red", "red", void, none, []⟩, ⟨"green", "green", void, none, []⟩]⟩,
        ⟨1, "tones", "Tone", [], [], .union [⟨"none", "none", void, none, []⟩,
          ⟨"hue", "hue", .mk (.decl 0) [], none, []⟩]⟩,
        ⟨2, "tones", "Row", ["T"], [], .alias (.mk (.primitive .vector) [.param "T"])⟩,
        ⟨3, "paints", "Paint", [], [], .struct [⟨"main", "main", tones, some main, []⟩,
          ⟨"names", "names", .mk (.decl 2) [.mk (.primitive .string) []], none, []⟩]⟩],
      [(⟨"hues", "Hue"⟩, 0), (⟨"tones", "Tone"⟩, 1), (⟨"tones", "Row"⟩, 2),
        (⟨"paints", "Paint"⟩, 3)]⟩
  let defaults : List Defaults :=
    [⟨[none, none], none⟩, ⟨[none, none], none⟩, .empty,
      ⟨[some (.stringMap [("a", .vector [.union 1 1 (.enum 0 1)])]), none], none⟩]
  ⟨set, defaults, set.decls.map fun d => set.exportDecl d.id (defaults[d.id]?.getD .empty)⟩

set_option maxRecDepth 10000 in
/-- The unit of the paints imports the hues for the sake of a label in a default only. -/
theorem paint_imports :
    Compilation.ofModules paintModules = .ok paintCompilation ∧
      (∀ sm ∈ paintModules, sm.PlainLabels) ∧
      importedModules paintCompilation paintModule = ["hues", "tones"] ∧
      (∃ id ∈ paintModule.decls, ∃ r, (itemIn paintCompilation paintModule id).Names r ∧
        r.module = some "hues") ∧
      ∀ id ∈ paintModule.decls, ∀ r, (itemIn paintCompilation paintModule id).Names r →
        ∀ other, r.module = some other → other ∈ ["hues", "tones"] := by
  have hcompiles : Compilation.ofModules paintModules = .ok paintCompilation := by cbv
  have hlabels : ∀ sm ∈ paintModules, sm.PlainLabels := by
    have hlabel (name : String) : (⟨name, name, .mk "Void" [] .start, none, [], .start⟩ :
        Source.Member).IsLabel := ⟨⟨_, rfl⟩, rfl⟩
    simp [paintModules, Source.Module.PlainLabels, hlabel]
  have himported : importedModules paintCompilation paintModule = ["hues", "tones"] := by
    decide +kernel
  obtain ⟨-, -, hexact, -⟩ := importedModules_exact hcompiles hlabels paintModule .standard
  refine ⟨hcompiles, hlabels, himported, ?_, fun id hid r hr other hother => ?_⟩
  · exact (hexact "hues").mp (by simp [himported])
  · exact himported ▸ (hexact other).mpr ⟨id, hid, r, hr, hother⟩

end TypeScript

end Adl
