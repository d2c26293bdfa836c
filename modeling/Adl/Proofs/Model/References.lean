import Adl.Proofs.Model.ImportErrors
import Adl.Proofs.Source.Dependencies

/-!
# References — what a written name stands for

A name with a dot stands for the declaration of the module in front of its last dot.  Any other name
stands for a type parameter, a primitive type, a declaration of the same module or the one
declaration that the imports supply, and each of these hides those behind it (`RefersTo`).  Every
written name is of one of three kinds: it refers to something, it is unknown, or the imports supply
several declarations (`exists_refersTo_or`), and looking it up tells which (`scopeRules`).
-/

namespace Adl

/-! ### The scope rules -/

section

variable (modules : List Source.Module)

/-- The modules can be resolved unless a name in a declaration cannot: no two of them have the same
name, imports are known and lead nowhere twice, and no declaration has the name of another one or of
a primitive type. -/
structure PassesChecks : Prop where
  nodup_modules : (modules.map (·.name)).Nodup
  known : ∀ m ∈ modules, ∀ line ∈ m.imports, Known modules line
  acyclic : ¬ Cyclic modules
  nodup_decls : ∀ m ∈ modules, (m.decls.map (·.name)).Nodup
  no_primitive : ∀ m ∈ modules, ∀ d ∈ m.decls, Primitive.ofName? d.name = none

/-- The declaration at the place `i` has this module and this name. -/
def DeclaredAt (module name : String) (i : DeclId) : Prop :=
  (Resolve.declNames modules)[i]? = some ⟨module, name⟩

variable (m : Source.Module)

/-- An import of the module, of everything or of this name, supplies the declaration at the place
`i`. -/
def Imported (name : String) (i : DeclId) : Prop :=
  ∃ line ∈ m.imports, (line.kind = .all ∨ line.kind = .name name) ∧
    DeclaredAt modules line.module name i

variable (params : List String)

/-- Nothing in the module hides what its imports supply for this name. -/
structure Unshadowed (name : String) : Prop where
  bare : '.' ∉ name.toList
  no_param : name ∉ params
  no_primitive : Primitive.ofName? name = none
  not_own : ∀ i, ¬ DeclaredAt modules m.name name i

/-- What a name stands for in a declaration of the module with these type parameters. -/
inductive RefersTo : String → TypeRef → Prop
  | qualified {module name : String} {i : DeclId} (bare : '.' ∉ name.toList)
      (h : DeclaredAt modules module name i) : RefersTo (module ++ "." ++ name) (.decl i)
  | param {name : String} (bare : '.' ∉ name.toList) (h : name ∈ params) :
      RefersTo name (.typeParam name)
  | primitive {name : String} {p : Primitive} (bare : '.' ∉ name.toList) (no_param : name ∉ params)
      (h : Primitive.ofName? name = some p) : RefersTo name (.primitive p)
  | own {name : String} {i : DeclId} (bare : '.' ∉ name.toList) (no_param : name ∉ params)
      (no_primitive : Primitive.ofName? name = none) (h : DeclaredAt modules m.name name i) :
      RefersTo name (.decl i)
  | imported {name : String} {i : DeclId} (unshadowed : Unshadowed modules m params name)
      (h : Imported modules m name i) (unique : ∀ j, Imported modules m name j → j = i) :
      RefersTo name (.decl i)

/-- Nothing has this name: not in the module in front of its last dot, or nowhere. -/
inductive Unknown : String → Prop
  | qualified {module name : String} (bare : '.' ∉ name.toList)
      (h : ∀ i, ¬ DeclaredAt modules module name i) : Unknown (module ++ "." ++ name)
  | bare {name : String} (unshadowed : Unshadowed modules m params name)
      (h : ∀ i, ¬ Imported modules m name i) : Unknown name

/-- The imports supply several declarations, and nothing hides them. -/
structure Ambiguous (name : String) : Prop where
  unshadowed : Unshadowed modules m params name
  several : ∃ i j, i ≠ j ∧ Imported modules m name i ∧ Imported modules m name j

/-- What a written type stands for: all names in it refer to something. -/
inductive StandsFor : Source.TypeExpr → TypeExpr → Prop
  | mk {name : String} {args : List Source.TypeExpr} {position : Position} {head : TypeRef}
      {us : List TypeExpr} (head_refers : RefersTo modules m params name head)
      (args_stand : List.Forall₂ StandsFor args us) :
      StandsFor (.mk name args position) (.mk head us)

end

/-- Names are looked up by these rules. -/
structure ScopeRules (modules : List Source.Module) (scope : Resolve.Scope) : Prop where
  refers : ∀ written ref, scope.resolveName written = .ok ref ↔
    RefersTo modules scope.module scope.typeParams written ref
  unknown : ∀ written,
    scope.resolveName written = .error (.unknownReference scope.location written) ↔
      Unknown modules scope.module scope.typeParams written
  ambiguous : ∀ written, (∃ candidates, scope.resolveName written =
      .error (.ambiguousReference scope.location written candidates)) ↔
    Ambiguous modules scope.module scope.typeParams written
  /-- The candidates are the names of the declarations that the imports supply, each told once. -/
  candidates : ∀ written candidates, scope.resolveName written =
      .error (.ambiguousReference scope.location written candidates) →
    candidates.Nodup ∧ ∀ text, text ∈ candidates ↔
      ∃ module i, DeclaredAt modules module written i ∧ Imported modules scope.module written i ∧
        text = module ++ "." ++ written
  no_other_error : ∀ written e, scope.resolveName written = .error e →
    e = .unknownReference scope.location written ∨
      ∃ candidates, e = .ambiguousReference scope.location written candidates
  types : ∀ t u, scope.resolveType t = .ok u ↔
    StandsFor modules scope.module scope.typeParams t u

/-! ### Dots -/

section

variable {front back cs : List Char} {module name written : String}

theorem splitLastDot_eq_none_iff : splitLastDot cs = none ↔ '.' ∉ cs := by
  induction cs with
  | nil => simp [splitLastDot]
  | cons c cs ih =>
    rw [splitLastDot, List.mem_cons, not_or]
    cases hs : splitLastDot cs with
    | some p => simp [← ih, hs]
    | none =>
      rw [hs] at ih
      by_cases hc : c = '.'
      · simp [hc]
      · simp [hc, ih.mp rfl, eq_comm]

theorem splitLastDot_append (h : '.' ∉ back) :
    splitLastDot (front ++ '.' :: back) = some (front, back) := by
  induction front with
  | nil => simp [splitLastDot, splitLastDot_eq_none_iff.mpr h]
  | cons c front ih => simp [splitLastDot, ih]

theorem eq_append_of_splitLastDot {p : List Char × List Char} (h : splitLastDot cs = some p) :
    cs = p.1 ++ '.' :: p.2 ∧ '.' ∉ p.2 := by
  induction cs generalizing p with
  | nil => cases h
  | cons c cs ih =>
    rw [splitLastDot] at h
    cases hs : splitLastDot cs with
    | some q =>
      rw [hs] at h
      cases h
      obtain ⟨heq, hback⟩ := ih hs
      exact ⟨congrArg (List.cons c) heq, hback⟩
    | none =>
      rw [hs] at h
      dsimp only at h
      split_ifs at h with hc
      cases h
      exact ⟨hc ▸ rfl, splitLastDot_eq_none_iff.mp hs⟩

/-- A name without a dot is not split. -/
theorem splitName_of_bare (h : '.' ∉ name.toList) : splitName name = (none, name) := by
  rw [splitName, splitLastDot_eq_none_iff.mpr h]

/-- A dotted name is split where no dot follows. -/
theorem splitName_dotted (h : '.' ∉ name.toList) :
    splitName (module ++ "." ++ name) = (some module, name) := by
  have hlist : (module ++ "." ++ name).toList = module.toList ++ '.' :: name.toList := by simp
  rw [splitName, hlist, splitLastDot_append h]
  simp

/-- Every written name has a module in front, or no dot. -/
theorem exists_dotted_or_bare (written : String) :
    (∃ module name, written = module ++ "." ++ name ∧ '.' ∉ name.toList) ∨
      '.' ∉ written.toList := by
  cases hs : splitLastDot written.toList with
  | none => exact .inr (splitLastDot_eq_none_iff.mp hs)
  | some p =>
    obtain ⟨heq, hback⟩ := eq_append_of_splitLastDot hs
    refine .inl ⟨String.ofList p.1, String.ofList p.2, ?_, by simpa using hback⟩
    rw [← String.toList_inj, heq]
    simp

end

/-! ### Candidates -/

/-- No two names of the table stand for one declaration. -/
def NameTable.Injective (table : NameTable) : Prop :=
  ∀ n n' i, table.lookup n = some i → table.lookup n' = some i → n = n'

namespace Resolve.Scope

variable {scope : Scope} {name : String} {line : Source.Import} {lines : List Source.Import}
  {c : DeclId × ScopedName} {found : List (DeclId × ScopedName)}

theorem supplies_iff : supplies line name ↔ line.kind = .all ∨ line.kind = .name name := by
  unfold supplies
  split
  · next h => simp [h]
  · next n h => simp [h]

/-- An import supplies a candidate for a name. -/
structure Brings (scope : Scope) (name : String) (line : Source.Import)
    (c : DeclId × ScopedName) : Prop where
  supplies : supplies line name
  found : scope.declOf line.module name = some c.1
  key_eq : c.2 = ⟨line.module, name⟩

/-- Candidates are found under their names, and no two of them are the same declaration. -/
structure Candidates (scope : Scope) (found : List (DeclId × ScopedName)) : Prop where
  lookup : ∀ c ∈ found, scope.table.lookup c.2 = some c.1
  nodup : (found.map Prod.fst).Nodup

/-- One more import adds the candidate that it brings, if this is not there yet. -/
theorem addImported_cases (scope : Scope) (name : String) (found : List (DeclId × ScopedName))
    (line : Source.Import) :
    scope.addImported name found line = found ∧
        (∀ c, scope.Brings name line c → c.1 ∈ found.map Prod.fst) ∨
      ∃ c, scope.Brings name line c ∧ c.1 ∉ found.map Prod.fst ∧
        scope.addImported name found line = found ++ [c] := by
  have hany (id : DeclId) : found.any (·.1 = id) = true ↔ id ∈ found.map Prod.fst := by
    simp only [List.any_eq_true, decide_eq_true_iff, List.mem_map]
  unfold addImported
  by_cases hs : Scope.supplies line name
  · rw [if_pos hs]
    cases hl : scope.declOf line.module name with
    | none => exact .inl ⟨rfl, fun c hc => nomatch hl.symm.trans hc.found⟩
    | some id =>
      dsimp only
      split_ifs with hin
      · refine .inl ⟨rfl, fun c hc => ?_⟩
        rw [← Option.some.inj (hl.symm.trans hc.found)]
        exact (hany id).mp hin
      · exact .inr ⟨(id, ⟨line.module, name⟩), ⟨hs, hl, rfl⟩, fun h => hin ((hany id).mpr h), rfl⟩
  · rw [if_neg hs]
    exact .inl ⟨rfl, fun c hc => absurd hc.supplies hs⟩

theorem Candidates.addImported (h : scope.Candidates found) :
    scope.Candidates (scope.addImported name found line) := by
  rcases addImported_cases scope name found line with ⟨heq, -⟩ | ⟨c, hc, hnew, heq⟩
  · rwa [heq]
  · rw [heq]
    refine ⟨fun c' hc' => ?_, ?_⟩
    · rcases List.mem_append.mp hc' with hc' | hc'
      · exact h.lookup c' hc'
      · rw [List.mem_singleton.mp hc', hc.key_eq]
        exact hc.found
    · rw [List.map_append]
      exact h.nodup.append (List.nodup_singleton _) (List.disjoint_singleton.mpr hnew)

theorem Brings.unique {c' : DeclId × ScopedName} (h : scope.Brings name line c)
    (h' : scope.Brings name line c') : c = c' :=
  Prod.ext (Option.some.inj (h.found.symm.trans h'.found)) (h.key_eq.trans h'.key_eq.symm)

/-- A candidate is not left out because there is another one. -/
theorem Candidates.mem_addImported_iff (h : scope.Candidates found) (hinj : scope.table.Injective) :
    c ∈ scope.addImported name found line ↔ c ∈ found ∨ scope.Brings name line c := by
  rcases addImported_cases scope name found line with ⟨heq, hold⟩ | ⟨c', hc', -, heq⟩
  · rw [heq]
    refine ⟨.inl, ?_⟩
    rintro (hc | hc)
    · exact hc
    · obtain ⟨c', hc', hid⟩ := List.mem_map.mp (hold c hc)
      have hlookup : scope.table.lookup c.2 = some c.1 := hc.key_eq ▸ hc.found
      have hkey := hinj _ _ c.1 (hid ▸ h.lookup c' hc') hlookup
      rwa [← Prod.ext hid hkey]
  · rw [heq, List.mem_append, List.mem_singleton]
    exact or_congr_right ⟨fun hc => hc ▸ hc', fun hc => hc.unique hc'⟩

theorem Candidates.foldl (h : scope.Candidates found) (lines : List Source.Import) :
    scope.Candidates (lines.foldl (scope.addImported name) found) := by
  induction lines generalizing found with
  | nil => exact h
  | cons line lines ih => exact ih h.addImported

theorem Candidates.mem_foldl_iff (h : scope.Candidates found) (hinj : scope.table.Injective) :
    c ∈ lines.foldl (scope.addImported name) found ↔
      c ∈ found ∨ ∃ line ∈ lines, scope.Brings name line c := by
  induction lines generalizing found with
  | nil => simp
  | cons line lines ih =>
    rw [List.foldl_cons, ih h.addImported, h.mem_addImported_iff hinj, List.exists_mem_cons_iff,
      or_assoc]

theorem candidates_nil (scope : Scope) : scope.Candidates [] where
  lookup _ h := nomatch h
  nodup := .nil

/-- The imports supply each declaration once. -/
theorem candidates_imported (scope : Scope) (name : String) :
    scope.Candidates (scope.imported name) :=
  scope.candidates_nil.foldl _

theorem mem_imported_iff (hinj : scope.table.Injective) :
    c ∈ scope.imported name ↔ ∃ line ∈ scope.module.imports, scope.Brings name line c := by
  rw [imported, scope.candidates_nil.mem_foldl_iff hinj]
  simp

end Resolve.Scope

/-! ### The checks of imports and names -/

section

variable {modules : List Source.Module}

theorem errors_eq_nil_iff (hnd : (modules.map (·.name)).Nodup) :
    Imports.errors modules = [] ↔
      (∀ m ∈ modules, ∀ line ∈ m.imports, Known modules line) ∧ ¬ Cyclic modules := by
  have hunknowns : Imports.unknowns modules = [] ↔
      ∀ m ∈ modules, ∀ line ∈ m.imports, Known modules line := by
    simp only [Imports.unknowns, List.flatMap_eq_nil_iff, List.filterMap_eq_nil_iff]
    refine forall₄_congr fun m _ line _ => ?_
    rw [← Option.not_isSome_iff_eq_none, Imports.isSome_unknown?_iff hnd, not_not]
  have hcycle : ((Imports.findCycle modules).map Error.cyclicImport).toList = [] ↔
      ¬ Cyclic modules := by
    rw [← Imports.exists_findCycle_iff hnd]
    cases Imports.findCycle modules <;> simp
  rw [Imports.errors, List.append_eq_nil_iff, hunknowns, hcycle]

theorem takenErrors_eq_nil_iff :
    modules.filterMap Resolve.takenError = [] ↔ ∀ m ∈ modules, (m.decls.map (·.name)).Nodup ∧
      ∀ d ∈ m.decls, Primitive.ofName? d.name = none := by
  simp [List.filterMap_eq_nil_iff, Resolve.takenError, Resolve.takenName_eq_none_iff]

/-- The checks are what resolving does before it looks up any name. -/
theorem passesChecks_iff :
    PassesChecks modules ↔ (modules.map (·.name)).Nodup ∧ Imports.errors modules = [] ∧
      modules.filterMap Resolve.takenError = [] := by
  rw [takenErrors_eq_nil_iff]
  constructor
  · intro h
    refine ⟨h.nodup_modules, (errors_eq_nil_iff h.nodup_modules).mpr ⟨h.known, h.acyclic⟩, ?_⟩
    exact fun m hm => ⟨h.nodup_decls m hm, h.no_primitive m hm⟩
  · rintro ⟨hnd, himports, htaken⟩
    obtain ⟨hknown, hacyclic⟩ := (errors_eq_nil_iff hnd).mp himports
    exact ⟨hnd, hknown, hacyclic, fun m hm => (htaken m hm).1, fun m hm => (htaken m hm).2⟩

theorem PassesChecks.resolve_eq (h : PassesChecks modules) : ModuleSet.resolve modules =
    Resolve.resolveWith (Resolve.declNames modules).zipIdx (Resolve.numbered 0 modules) := by
  obtain ⟨hnd, himports, htaken⟩ := passesChecks_iff.mp h
  unfold ModuleSet.resolve
  rw [firstRepeated_eq_none_iff.mpr ⟨hnd, fun _ _ => List.not_mem_nil⟩, himports, htaken]

theorem resolve_of_taken (hnd : (modules.map (·.name)).Nodup)
    (himports : Imports.errors modules = [])
    (htaken : modules.filterMap Resolve.takenError ≠ []) : ModuleSet.resolve modules =
      .error (modules.filterMap Resolve.takenError) := by
  unfold ModuleSet.resolve
  rw [firstRepeated_eq_none_iff.mpr ⟨hnd, fun _ _ => List.not_mem_nil⟩, himports]
  cases he : modules.filterMap Resolve.takenError with
  | nil => exact absurd he htaken
  | cons => rfl

theorem Resolved.passesChecks {set : ModuleSet} (h : Resolved modules set) :
    PassesChecks modules :=
  passesChecks_iff.mpr ⟨h.nodup_moduleNames, h.imports_ok, h.none_taken⟩

end

/-! ### The table of names -/

section

variable {modules : List Source.Module} {m : Source.Module} {params : List String}
  {module name : String} {i j : DeclId}

open Resolve

/-- Every name is of one of three kinds. -/
theorem exists_refersTo_or (modules : List Source.Module) (m : Source.Module)
    (params : List String) (written : String) :
    (∃ ref, RefersTo modules m params written ref) ∨ Unknown modules m params written ∨
      Ambiguous modules m params written := by
  rcases exists_dotted_or_bare written with ⟨module, name, rfl, hbare⟩ | hbare
  · by_cases hdecl : ∃ i, DeclaredAt modules module name i
    · obtain ⟨i, hi⟩ := hdecl
      exact .inl ⟨_, .qualified hbare hi⟩
    · exact .inr (.inl (.qualified hbare (not_exists.mp hdecl)))
  by_cases hparam : written ∈ params
  · exact .inl ⟨_, .param hbare hparam⟩
  cases hprim : Primitive.ofName? written with
  | some p => exact .inl ⟨_, .primitive hbare hparam hprim⟩
  | none =>
  by_cases hown : ∃ i, DeclaredAt modules m.name written i
  · obtain ⟨i, hi⟩ := hown
    exact .inl ⟨_, .own hbare hparam hprim hi⟩
  have hun : Unshadowed modules m params written := ⟨hbare, hparam, hprim, not_exists.mp hown⟩
  by_cases himported : ∃ i, Imported modules m written i
  · obtain ⟨i, hi⟩ := himported
    by_cases hunique : ∀ j, Imported modules m written j → j = i
    · exact .inl ⟨_, .imported hun hi hunique⟩
    · simp only [not_forall] at hunique
      obtain ⟨j, hj, hne⟩ := hunique
      exact .inr (.inr ⟨hun, j, i, hne, hj, hi⟩)
  · exact .inr (.inl (.bare hun (not_exists.mp himported)))

namespace PassesChecks

variable (h : PassesChecks modules) {scope : Scope} (ht : scope.table = (declNames modules).zipIdx)

include h

theorem nodup_declNames : (declNames modules).Nodup :=
  Resolve.nodup_declNames h.nodup_modules h.nodup_decls

theorem injective : NameTable.Injective (declNames modules).zipIdx := by
  intro n n' i hn hn'
  rw [lookup_zipIdx_eq_some_iff h.nodup_declNames] at hn hn'
  exact Option.some.inj (hn.symm.trans hn')

include ht

theorem declOf_eq_some_iff :
    scope.declOf module name = some i ↔ DeclaredAt modules module name i := by
  rw [Scope.declOf, ht]
  exact lookup_zipIdx_eq_some_iff h.nodup_declNames

theorem declOf_eq_none_iff :
    scope.declOf module name = none ↔ ∀ i, ¬ DeclaredAt modules module name i := by
  simp only [Option.eq_none_iff_forall_ne_some, ne_eq, h.declOf_eq_some_iff ht]

theorem mem_imported_iff {c : DeclId × ScopedName} :
    c ∈ scope.imported name ↔ ∃ line ∈ scope.module.imports,
      (line.kind = .all ∨ line.kind = .name name) ∧ DeclaredAt modules line.module name c.1 ∧
        c.2 = ⟨line.module, name⟩ := by
  rw [Scope.mem_imported_iff (ht ▸ h.injective)]
  refine exists_congr fun line => and_congr_right fun _ => ?_
  rw [← Scope.supplies_iff, ← h.declOf_eq_some_iff ht]
  exact ⟨fun ⟨hs, hf, hk⟩ => ⟨hs, hf, hk⟩, fun ⟨hs, hf, hk⟩ => ⟨hs, hf, hk⟩⟩

/-- What the imports supply are the declarations of the candidates. -/
theorem imported_iff :
    Imported modules scope.module name i ↔ ∃ key, (i, key) ∈ scope.imported name := by
  simp only [h.mem_imported_iff ht, Imported]
  constructor
  · rintro ⟨line, hline, hkind, hi⟩
    exact ⟨_, line, hline, hkind, hi, rfl⟩
  · rintro ⟨key, line, hline, hkind, hi, -⟩
    exact ⟨line, hline, hkind, hi⟩

/-! ### What names are looked up as -/

/-- A name that nothing hides is what the imports supply for it. -/
theorem resolveName_of_unshadowed (hun : Unshadowed modules scope.module scope.typeParams name) :
    scope.resolveName name =
      match scope.imported name with
      | [] => .error (.unknownReference scope.location name)
      | [(id, _)] => .ok (.decl id)
      | candidates =>
        .error (.ambiguousReference scope.location name (candidates.map (·.2.text))) := by
  have hown := (h.declOf_eq_none_iff ht).mpr hun.not_own
  rw [Scope.resolveName, splitName_of_bare hun.bare]
  dsimp only
  rcases scope.imported name with _ | ⟨c, _ | ⟨c', rest⟩⟩ <;>
  rw [if_neg hun.no_param, hun.no_primitive, hown]

theorem resolveName_of_refersTo {ref : TypeRef}
    (href : RefersTo modules scope.module scope.typeParams name ref) :
    scope.resolveName name = .ok ref := by
  cases href with
  | qualified hbare hi =>
    rw [Scope.resolveName, splitName_dotted hbare]
    dsimp only
    rw [(h.declOf_eq_some_iff ht).mpr hi]
  | param hbare hparam =>
    rw [Scope.resolveName, splitName_of_bare hbare]
    exact if_pos hparam
  | primitive hbare hparam hprim =>
    rw [Scope.resolveName, splitName_of_bare hbare]
    dsimp only
    rw [if_neg hparam, hprim]
  | own hbare hparam hprim hi =>
    rw [Scope.resolveName, splitName_of_bare hbare]
    dsimp only
    rw [if_neg hparam, hprim, (h.declOf_eq_some_iff ht).mpr hi]
  | @imported _ i hun hi hunique =>
    have hid : ∀ c ∈ scope.imported name, c.1 = i :=
      fun c hc => hunique c.1 ((h.imported_iff ht).mpr ⟨c.2, hc⟩)
    have hnd := (scope.candidates_imported name).nodup
    obtain ⟨key, hmem⟩ := (h.imported_iff ht).mp hi
    rw [h.resolveName_of_unshadowed ht hun]
    cases hc : scope.imported name with
    | nil => exact nomatch hc ▸ hmem
    | cons c rest =>
      rw [hc] at hid hnd
      cases rest with
      | nil => rw [← hid c List.mem_cons_self]
      | cons c' rest =>
        -- two candidates would be the same declaration
        have hne := List.ne_of_not_mem_cons (List.nodup_cons.mp hnd).1
        rw [hid c (by simp), hid c' (by simp)] at hne
        exact absurd rfl hne

theorem resolveName_of_unknown (hunknown : Unknown modules scope.module scope.typeParams name) :
    scope.resolveName name = .error (.unknownReference scope.location name) := by
  cases hunknown with
  | qualified hbare hi =>
    rw [Scope.resolveName, splitName_dotted hbare]
    dsimp only
    rw [(h.declOf_eq_none_iff ht).mpr hi]
  | bare hun hi =>
    have hnil : scope.imported name = [] := by
      refine List.eq_nil_iff_forall_not_mem.mpr fun c hc => ?_
      exact hi c.1 ((h.imported_iff ht).mpr ⟨c.2, hc⟩)
    rw [h.resolveName_of_unshadowed ht hun, hnil]

theorem resolveName_of_ambiguous
    (hambiguous : Ambiguous modules scope.module scope.typeParams name) :
    scope.resolveName name = .error (.ambiguousReference scope.location name
      ((scope.imported name).map (·.2.text))) := by
  obtain ⟨hun, i, j, hne, hi, hj⟩ := hambiguous
  obtain ⟨key, hi⟩ := (h.imported_iff ht).mp hi
  obtain ⟨key', hj⟩ := (h.imported_iff ht).mp hj
  rw [h.resolveName_of_unshadowed ht hun]
  cases hc : scope.imported name with
  | nil => exact nomatch hc ▸ hi
  | cons c rest =>
    cases rest with
    | cons c' rest => rfl
    | nil =>
      rw [hc, List.mem_singleton] at hi hj
      exact absurd (congrArg Prod.fst (hi.trans hj.symm)) hne

/-- No candidate is told twice: they have the same name, so their modules differ. -/
theorem nodup_candidates : ((scope.imported name).map (·.2.text)).Nodup := by
  have hc := scope.candidates_imported name
  refine (List.nodup_map_iff_inj_on (List.Nodup.of_map _ hc.nodup)).mpr ?_
  intro c hmem c' hmem' htext
  obtain ⟨line, -, -, -, hkey⟩ := (h.mem_imported_iff ht).mp hmem
  obtain ⟨line', -, -, -, hkey'⟩ := (h.mem_imported_iff ht).mp hmem'
  have hmodule : line.module = line'.module := by
    rw [hkey, hkey', ScopedName.text, ScopedName.text, ← String.toList_inj] at htext
    simpa [String.toList_inj] using htext
  have hkeys : c.2 = c'.2 := by rw [hkey, hkey', hmodule]
  have hlookup := hc.lookup c hmem
  rw [hkeys, hc.lookup c' hmem'] at hlookup
  exact Prod.ext (Option.some.inj hlookup).symm hkeys

theorem mem_candidates_iff {text : String} :
    text ∈ (scope.imported name).map (·.2.text) ↔ ∃ module i, DeclaredAt modules module name i ∧
      Imported modules scope.module name i ∧ text = module ++ "." ++ name := by
  rw [List.mem_map]
  constructor
  · rintro ⟨c, hc, rfl⟩
    obtain ⟨line, hline, hkind, hi, hkey⟩ := (h.mem_imported_iff ht).mp hc
    exact ⟨line.module, c.1, hi, ⟨line, hline, hkind, hi⟩, by rw [hkey, ScopedName.text]⟩
  · rintro ⟨module, i, hi, ⟨line, hline, hkind, hi'⟩, rfl⟩
    have hmodule : module = line.module :=
      congrArg ScopedName.module (Option.some.inj (hi.symm.trans hi'))
    refine ⟨(i, ⟨module, name⟩), (h.mem_imported_iff ht).mpr ?_, rfl⟩
    exact ⟨line, hline, hkind, hi', by rw [hmodule]⟩

/-- Looking up a name tells of which kind it is. -/
theorem resolveName_cases (written : String) :
    (∃ ref, RefersTo modules scope.module scope.typeParams written ref ∧
        scope.resolveName written = .ok ref) ∨
      (Unknown modules scope.module scope.typeParams written ∧
        scope.resolveName written = .error (.unknownReference scope.location written)) ∨
      Ambiguous modules scope.module scope.typeParams written ∧
        scope.resolveName written = .error (.ambiguousReference scope.location written
          ((scope.imported written).map (·.2.text))) := by
  rcases exists_refersTo_or modules scope.module scope.typeParams written with
    ⟨ref, href⟩ | hunknown | hambiguous
  · exact .inl ⟨ref, href, h.resolveName_of_refersTo ht href⟩
  · exact .inr (.inl ⟨hunknown, h.resolveName_of_unknown ht hunknown⟩)
  · exact .inr (.inr ⟨hambiguous, h.resolveName_of_ambiguous ht hambiguous⟩)

theorem resolveName_eq_ok_iff {written : String} {ref : TypeRef} :
    scope.resolveName written = .ok ref ↔
      RefersTo modules scope.module scope.typeParams written ref := by
  refine ⟨fun hok => ?_, h.resolveName_of_refersTo ht⟩
  rcases h.resolveName_cases ht written with ⟨ref', href, heq⟩ | ⟨-, heq⟩ | ⟨-, heq⟩
  · cases hok.symm.trans heq
    exact href
  · cases hok.symm.trans heq
  · cases hok.symm.trans heq

theorem resolveType_eq_ok_iff_standsFor {t : Source.TypeExpr} {u : TypeExpr} :
    scope.resolveType t = .ok u ↔ StandsFor modules scope.module scope.typeParams t u := by
  induction t generalizing u with
  | mk name args position ih =>
    have hargs (us : List TypeExpr) : List.Forall₂ (fun t u => scope.resolveType t = .ok u) args us ↔
        List.Forall₂ (StandsFor modules scope.module scope.typeParams) args us :=
      forall₂_congr_of_mem fun t ht _ => ih t ht
    rw [resolveType_eq_ok_iff]
    simp only [hargs, h.resolveName_eq_ok_iff ht]
    constructor
    · rintro ⟨head, us, hhead, hus, rfl⟩
      exact .mk hhead hus
    · rintro ⟨hhead, hus⟩
      exact ⟨_, _, hhead, hus, rfl⟩

/-- Names are looked up by the rules of scopes. -/
theorem scopeRules : ScopeRules modules scope where
  refers _ _ := h.resolveName_eq_ok_iff ht
  unknown written := by
    refine ⟨fun herror => ?_, h.resolveName_of_unknown ht⟩
    rcases h.resolveName_cases ht written with ⟨_, -, heq⟩ | ⟨hunknown, -⟩ | ⟨-, heq⟩
    · cases herror.symm.trans heq
    · exact hunknown
    · cases herror.symm.trans heq
  ambiguous written := by
    refine ⟨?_, fun hambiguous => ⟨_, h.resolveName_of_ambiguous ht hambiguous⟩⟩
    rintro ⟨candidates, herror⟩
    rcases h.resolveName_cases ht written with ⟨_, -, heq⟩ | ⟨-, heq⟩ | ⟨hambiguous, -⟩
    · cases herror.symm.trans heq
    · cases herror.symm.trans heq
    · exact hambiguous
  candidates written candidates herror := by
    rcases h.resolveName_cases ht written with ⟨_, -, heq⟩ | ⟨-, heq⟩ | ⟨-, heq⟩
    · cases herror.symm.trans heq
    · cases herror.symm.trans heq
    · cases herror.symm.trans heq
      exact ⟨h.nodup_candidates ht, fun _ => h.mem_candidates_iff ht⟩
  no_other_error written e herror := by
    rcases h.resolveName_cases ht written with ⟨_, -, heq⟩ | ⟨-, heq⟩ | ⟨-, heq⟩
    · cases herror.symm.trans heq
    · cases herror.symm.trans heq
      exact .inl rfl
    · cases herror.symm.trans heq
      exact .inr ⟨_, rfl⟩
  types _ _ := h.resolveType_eq_ok_iff_standsFor ht

end PassesChecks

end

end Adl
