import Adl.Proofs.Compile.Compiled
import Adl.Proofs.Source.WellFormed
import Adl.Proofs.Value.Fits

/-!
# Sources — what is compiled from texts

Texts are compiled by way of the modules that are parsed from them, completed by those of the
prelude (`Compilation.exists_readOf`).  All of these modules are well-formed
(`Compilation.exists_modules`); so their integers have 64 bits, since no others are parsed.
-/

namespace Adl

/-! ### Literals of texts -/

namespace Source

theorem InRange.fits {l : Literal} (h : InRange l) : l.Fits := by
  induction h with
  | null => exact .null
  | integer hle hge =>
    unfold Parser.minInteger at hle
    unfold Parser.maxInteger at hge
    exact .integer (by omega) (by omega)
  | double d => exact .double d
  | string s => exact .string s
  | boolean b => exact .boolean b
  | array _ ih => exact .array ih
  | object _ ih => exact .object ih

theorem inRange_hereditary : Literal.Hereditary InRange where
  null := .null
  integer hle hlt := .integer hle (Int.le_sub_one_of_lt hlt)
  double := .double
  string := .string
  boolean := .boolean
  array := ⟨fun h => by cases h with | array h => exact h, .array⟩
  object := ⟨fun h => by cases h with | object h => exact h, .object⟩

theorem Member.WellFormed.literals {P : Literal → Prop} {m : Member} (h : m.WellFormed P) :
    ∀ l ∈ m.literals, P l := by
  refine List.forall_mem_append.mpr ⟨fun l hl => ?_, fun l hl => ?_⟩
  · obtain ⟨a, ha, rfl⟩ := List.mem_map.mp hl
    exact (h.annotations a ha).value
  · exact h.default l (Option.mem_toList.mp hl)

theorem Decl.WellFormed.literals {P : Literal → Prop} {d : Decl} (h : d.WellFormed P) :
    ∀ l ∈ d.literals, P l := by
  have hbody := h.body
  have hmembers : ∀ m ∈ d.members, m.WellFormed P := by
    unfold Decl.members
    generalize d.body = b at hbody
    cases b with
    | struct ms => exact hbody
    | union ms => exact fun m hm => (hbody m hm).1
    | enum ms => exact fun m hm => (hbody m hm).1
    | «alias» t => exact fun _ h => nomatch h
    | newtype t default => exact fun _ h => nomatch h
  refine List.forall_mem_append.mpr ⟨List.forall_mem_append.mpr ⟨fun l hl => ?_, ?_⟩, ?_⟩
  · obtain ⟨a, ha, rfl⟩ := List.mem_map.mp hl
    exact (h.annotations a ha).value
  · exact List.forall_mem_flatMap.mpr fun m hm => (hmembers m hm).literals
  · cases hb : d.body with
    | newtype t default =>
      rw [hb] at hbody
      exact fun l hl => hbody.2 l (Option.mem_toList.mp hl)
    | _ => exact fun _ h => nomatch h

theorem Module.WellFormed.fits {m : Module} (h : m.WellFormed InRange) :
    ∀ d ∈ m.decls, ∀ l ∈ d.literals, l.Fits :=
  fun d hd l hl => ((h.decls d hd).literals l hl).fits

/-! ### Modules of texts -/

/-- A module that is read from a text is parsed from its tokens. -/
theorem ofText_eq_ok_iff {label text : String} {m : Module} : ofText label text = .ok m ↔
    ∃ tokens, Token.scan text = .ok tokens ∧ parse tokens.list = .ok m := by
  constructor
  · intro h
    unfold ofText at h
    split at h
    · cases h
    · next tokens hscan =>
      split at h
      · cases h
      · next hparse =>
        cases h
        exact ⟨tokens, hscan, hparse⟩
  · rintro ⟨tokens, hscan, hparse⟩
    rw [ofText, hscan]
    dsimp only
    rw [hparse]

/-- A module that is read from a text is well-formed. -/
theorem wellFormed_of_ofText {label text : String} {m : Module} (h : ofText label text = .ok m) :
    m.WellFormed InRange := by
  obtain ⟨tokens, -, hparse⟩ := ofText_eq_ok_iff.mp h
  exact wellFormed_of_parse hparse

end Source

open Source (InRange)

/-- A module is read from one of the texts, or from a text of the prelude. -/
def Source.ReadOf (texts : List String) (m : Module) : Prop :=
  ∃ label text, (text ∈ texts ∨ Prelude.text? label = some text) ∧ ofText label text = .ok m

/-- Every text has a module, in order. -/
theorem Compilation.forall₂_of_parseSources {texts : List String} :
    ∀ {i : Nat} {modules : List Source.Module}, parseSources i texts = .ok modules →
      List.Forall₂ (fun text m => ∃ label, Source.ofText label text = .ok m) texts modules := by
  induction texts with
  | nil =>
    intro i modules h
    cases h
    exact .nil
  | cons text texts ih =>
    intro i modules h
    rw [parseSources, bind_eq_ok_iff] at h
    obtain ⟨first, hfirst, h⟩ := h
    obtain ⟨rest, hrest, rfl⟩ := bind_pure_eq_ok_iff.mp h
    exact .cons ⟨_, hfirst⟩ (ih hrest)

/-- What modules have, and what they keep when one of the prelude is added, they have when they are
complete. -/
theorem Library.complete_induction {P : List Source.Module → Prop}
    (hadd : ∀ modules name text m, P modules → Prelude.text? name = some text →
      Source.ofText name text = .ok m → P (modules ++ [m]))
    {modules all : List Source.Module} (h : Library.complete modules = .ok all)
    (hmodules : P modules) : P all := by
  rw [complete, bind_eq_ok_iff] at h
  obtain ⟨-, -, h⟩ := h
  generalize Prelude.names = names at h
  induction names generalizing modules with
  | nil =>
    cases h
    exact hmodules
  | cons name names ih =>
    rw [List.foldlM_cons, bind_eq_ok_iff] at h
    obtain ⟨added, hadded, h⟩ := h
    refine ih ?_ h
    unfold addMissing at hadded
    split at hadded
    · cases hadded
      exact hmodules
    split at hadded
    · split at hadded
      · next text htext =>
        obtain ⟨m, hm, rfl⟩ := bind_pure_eq_ok_iff.mp hadded
        exact hadd modules name text m hmodules htext hm
      · cases hadded
        exact hmodules
    · cases hadded
      exact hmodules

/-- Texts are compiled by way of modules: one for each text, and others of the prelude. -/
theorem Compilation.exists_readOf {texts : List String} {c : Compilation}
    (h : ofSources texts = .ok c) :
    ∃ modules, Compiled modules c ∧
      (∀ text ∈ texts, ∃ m ∈ modules, ∃ label, Source.ofText label text = .ok m) ∧
      ∀ m ∈ modules, Source.ReadOf texts m := by
  rw [ofSources, bind_eq_ok_iff] at h
  obtain ⟨parsed, hparsed, h⟩ := h
  rw [bind_eq_ok_iff] at h
  obtain ⟨modules, hmodules, h⟩ := h
  have hall := forall₂_of_parseSources hparsed
  refine ⟨modules, ofModules_eq_ok_iff.mp h, fun text htext => ?_, ?_⟩
  · obtain ⟨m, hm, hread⟩ := exists_of_forall₂ hall.flip htext
    refine ⟨m, ?_, hread⟩
    exact Library.complete_induction (P := fun all => m ∈ all)
      (fun _ _ _ _ hmem _ _ => List.mem_append_left _ hmem) hmodules hm
  · refine Library.complete_induction (P := fun all => ∀ m ∈ all, Source.ReadOf texts m)
      (fun ms name text m hread htext hm => ?_) hmodules ?_
    · exact List.forall_mem_append.mpr
        ⟨hread, List.forall_mem_singleton.mpr ⟨name, text, .inr htext, hm⟩⟩
    · intro m hm
      obtain ⟨text, htext, label, hread⟩ := exists_of_forall₂ hall hm
      exact ⟨label, text, .inl htext, hread⟩

/-- What is compiled from texts is compiled from well-formed modules. -/
theorem Compilation.exists_modules {texts : List String} {c : Compilation}
    (h : ofSources texts = .ok c) :
    ∃ modules, Compiled modules c ∧ ∀ m ∈ modules, m.WellFormed InRange := by
  obtain ⟨modules, hcompiled, -, hread⟩ := exists_readOf h
  refine ⟨modules, hcompiled, fun m hm => ?_⟩
  obtain ⟨label, text, -, hm⟩ := hread m hm
  exact Source.wellFormed_of_ofText hm

/-- A text whose module depends on no other one is compiled by itself. -/
theorem Compilation.ofSources_singleton {text : String} {m : Source.Module}
    (htext : ∀ label, Source.ofText label text = .ok m) (hdependencies : m.dependencies = []) :
    ofSources [text] = ofModules [m] := by
  have hsources : parseSources 0 [text] = .ok [m] := by
    rw [parseSources, htext]
    rfl
  have hmissing : Library.addMissing [m] Prelude.typesName = .ok [m] := by
    simp [Library.addMissing, hdependencies]
  have hcomplete : Library.complete [m] = .ok [m] := by
    rw [Library.complete, Prelude.names, List.foldlM_cons, hmissing]
    rfl
  rw [ofSources, hsources]
  show (Library.complete [m] >>= ofModules) = _
  rw [hcomplete]
  rfl

end Adl
