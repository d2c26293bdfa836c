import Adl.Proofs.Source.Written
import Adl.Proofs.Text.NameStyle
import Adl.Target.RustUnit
import Mathlib.Data.List.Nodup

/-!
# RustIdentifiers — identifiers that are made of names

The names of types, variants, fields and functions in Rust are made from names by conversions that
lose the case of letters and the places of underscores, and only those of fields are escaped where
they are reserved words.  For each kind of name it is said which lists of names become identifiers
that can stand side by side (`Separate`).
-/

namespace Adl

open Source (isName)
open Text (IsNameText IsSnakeText isAsciiLetter snakeCase pascalCase upperCase)

variable {a b name word : String} {names words : List String}

/-- Conversions that make the same names equal make the same lists of names distinct. -/
theorem nodup_map_iff_nodup_map {f g : String → String}
    (h : ∀ a ∈ names, ∀ b ∈ names, f a = f b ↔ g a = g b) :
    (names.map f).Nodup ↔ (names.map g).Nodup := by
  rw [List.nodup_iff_pairwise_ne, List.nodup_iff_pairwise_ne, List.pairwise_map,
    List.pairwise_map]
  exact List.Pairwise.iff_of_mem fun ha hb => (h _ ha _ hb).not

/-! ### Names of the source -/

namespace Source

theorem isNameText_of_isName (h : isName name) : IsNameText name := by
  obtain ⟨c, cs, heq, hc, hcs⟩ := isName_iff.mp h
  rw [IsNameText, heq]
  exact List.forall_mem_cons.mpr ⟨Text.isNameChar_of_isNameStart hc, hcs⟩

/-- It depends on its first character whether a text of characters of names is a name. -/
theorem isName_eq (h : IsNameText name) : isName name = name.toList.head?.any Text.isNameStart := by
  rw [isName]
  unfold IsNameText at h
  generalize name.toList = cs at h
  cases cs with
  | nil => rfl
  | cons c cs =>
    have hcs := List.all_eq_true.mpr (List.forall_mem_cons.mp h).2
    dsimp only
    rw [hcs, Bool.and_true, List.head?_cons, Option.any_some]

theorem isName_append (ha : isName a) (hb : IsNameText b) : isName (a ++ b) := by
  obtain ⟨c, cs, heq, hc, hcs⟩ := isName_iff.mp ha
  refine isName_iff.mpr ⟨c, cs ++ b.toList, ?_, hc, List.forall_mem_append.mpr ⟨hcs, hb⟩⟩
  rw [String.toList_append, heq, List.cons_append]

theorem isName_snakeCase (h : isName name) : isName (snakeCase name) := by
  have hsnake := Text.isSnakeText_snakeCase (isNameText_of_isName h)
  obtain ⟨c, cs, heq, hc, -⟩ := isName_iff.mp h
  have hname := Text.isNameChar_of_isNameStart hc
  obtain ⟨-, hstart, -⟩ := Text.toLower_laws hname
  rw [isName_eq hsnake.isNameText, snakeCase, String.toList_ofList, heq,
    Text.snakeChars_none_cons hname, List.head?_cons, Option.any_some, hstart, hc]

end Source

namespace Rust

/-! ### Identifiers -/

/-- The words that are kept for the language or for a later version of it. -/
def reserved : List String :=
  ["abstract", "as", "async", "await", "become", "box", "break", "const", "continue", "crate", "do",
    "dyn", "else", "enum", "extern", "false", "final", "fn", "for", "if", "impl", "in", "let",
    "loop", "macro", "match", "mod", "move", "mut", "override", "priv", "pub", "ref", "return",
    "self", "Self", "static", "struct", "super", "trait", "true", "try", "type", "typeof", "unsafe",
    "unsized", "use", "virtual", "where", "while", "yield"]

/-- A text that may name something: a word that is not reserved, or a marked one that may be marked.
The underscore alone is no name. -/
inductive IsIdentifier : String → Prop
  | plain {word : String} (hname : isName word) (hne : word ≠ "_") (hfree : word ∉ reserved) :
      IsIdentifier word
  | raw {word : String} (hname : isName word) (hne : word ≠ "_") (hpath : word ∉ pathKeywords) :
      IsIdentifier (rawMark ++ word)

/-- Names that may stand side by side: they are identifiers, which differ even without marks. -/
structure Separate (names : List String) : Prop where
  legal : ∀ name ∈ names, IsIdentifier name
  distinct : (names.map unmarked).Nodup

theorem mem_reserved_iff : word ∈ reserved ↔ word ∈ pathKeywords ∨ word ∈ keywords := by
  have hperm : reserved.Perm (pathKeywords ++ keywords) := by decide +kernel
  rw [hperm.mem_iff, List.mem_append]

/-- A text of characters of names has no marks. -/
theorem hash_notMem (h : IsNameText name) : '#' ∉ name.toList :=
  fun hmem => absurd (h '#' hmem) (by decide)

theorem isIdentifier_iff (h : IsNameText word) :
    IsIdentifier word ↔ isName word ∧ word ≠ "_" ∧ word ∉ reserved := by
  constructor
  · intro hw
    cases hw with
    | plain hname hne hfree => exact ⟨hname, hne, hfree⟩
    | raw =>
      refine absurd ?_ (hash_notMem h)
      rw [String.toList_append]
      exact List.mem_append_left _ (by decide)
  · rintro ⟨hname, hne, hfree⟩
    exact .plain hname hne hfree

/-- Reserved words have no underscores. -/
theorem isIdentifier_of_underscore (hname : isName word) (h : '_' ∈ word.toList.tail) :
    IsIdentifier word := by
  have hnone : ∀ w ∈ "_" :: reserved, '_' ∉ w.toList.tail := by decide +kernel
  refine .plain hname ?_ fun hmem => hnone word (List.mem_cons_of_mem _ hmem) h
  rintro rfl
  exact hnone "_" List.mem_cons_self h

theorem isIdentifier_append (ha : isName a) (h : '_' ∈ a.toList.tail) (hb : IsNameText b) :
    IsIdentifier (a ++ b) := by
  refine isIdentifier_of_underscore (Source.isName_append ha hb) ?_
  obtain ⟨c, cs, heq, -⟩ := Source.isName_iff.mp ha
  rw [heq] at h
  rw [String.toList_append, heq]
  exact List.mem_append_left _ h

theorem unmarked_of_isNameText (h : IsNameText name) : unmarked name = name := by
  have hhash := hash_notMem h
  rw [← String.toList_inj, unmarked, String.toList_ofList]
  generalize name.toList = cs at hhash
  unfold unmarkedChars
  split
  · exact absurd (List.mem_cons_of_mem _ List.mem_cons_self) hhash
  · rfl

theorem map_unmarked (h : ∀ name ∈ names, IsNameText name) : names.map unmarked = names :=
  (List.map_congr_left fun name hname => unmarked_of_isNameText (h name hname)).trans
    (List.map_id' _)

/-- Names without marks can stand side by side if they differ. -/
theorem separate_iff_nodup (h : ∀ name ∈ names, IsIdentifier name ∧ IsNameText name) :
    Separate names ↔ names.Nodup := by
  have hunmarked := map_unmarked fun name hname => (h name hname).2
  constructor
  · rintro ⟨-, hdistinct⟩
    rwa [hunmarked] at hdistinct
  · exact fun hnodup => ⟨fun name hname => (h name hname).1, by rwa [hunmarked]⟩

theorem separate_nil : Separate [] := ⟨List.forall_mem_nil _, List.nodup_nil⟩

theorem Separate.sublist {names' : List String} (h : Separate names) (hs : names'.Sublist names) :
    Separate names' :=
  ⟨fun name hname => h.legal name (hs.subset hname), h.distinct.sublist (hs.map unmarked)⟩

/-! ### Identifiers of types -/

/-- Whether the first character of a name that is no underscore is a letter. -/
def leadsWithLetter (name : String) : Bool := (name.toList.find? (· ≠ '_')).any isAsciiLetter

/-- Names of types or variants that stay names and different ones.  `Self` is the one reserved word
in upper case. -/
structure TypesConvert (names : List String) : Prop where
  letter : ∀ name ∈ names, leadsWithLetter name
  unreserved : ∀ name ∈ names, pascalCase name ≠ "Self"
  apart : (names.map pascalCase).Nodup

/-- The conversion puts the first letter in upper case. -/
theorem leadsWithLetter_eq (h : IsNameText name) :
    leadsWithLetter name = (pascalCase name).toList.head?.any Text.isNameStart ∧
      leadsWithLetter name = (pascalCase name).toList.head?.any Char.isUpper := by
  rw [Text.head?_pascalCase h, leadsWithLetter]
  cases hfind : name.toList.find? (· ≠ '_') with
  | none => exact ⟨rfl, rfl⟩
  | some c =>
    have hne : c ≠ '_' := by simpa using List.find?_some hfind
    obtain ⟨hstart, -, -, hupper, -⟩ := Text.toUpper_laws (h c (List.mem_of_find?_eq_some hfind))
    have hletter : Text.isNameStart c = isAsciiLetter c := by simp [Text.isNameStart, hne]
    simp [hstart, hupper, hletter]

theorem isIdentifier_typeIdent_iff (h : isName name) :
    IsIdentifier (typeIdent name) ↔ leadsWithLetter name ∧ pascalCase name ≠ "Self" := by
  have htext := Source.isNameText_of_isName h
  have hpascal := Text.isNameText_pascalCase htext
  obtain ⟨hstart, hupper⟩ := leadsWithLetter_eq htext
  have hself : ∀ w ∈ reserved, w.toList.head?.any Char.isUpper → w = "Self" := by
    decide +kernel
  rw [typeIdent, isIdentifier_iff hpascal, Source.isName_eq hpascal, ← hstart]
  refine and_congr_right fun hletter => ⟨?_, fun hne => ⟨?_, fun hmem => ?_⟩⟩
  · rintro ⟨-, hfree⟩ heq
    exact hfree (heq ▸ by decide)
  · intro heq
    have hmem : '_' ∈ (pascalCase name).toList := heq ▸ by decide
    exact (Text.isNameChar_of_mem_pascalCase htext _ hmem).2 rfl
  · exact hne (hself _ hmem (hupper ▸ hletter))

/-- The names of types or variants with more names, which have an underscore. -/
theorem separate_typeIdents_iff (h : ∀ name ∈ names, isName name) {extra : List String}
    (hextra : Separate extra) (htext : ∀ name ∈ extra, IsNameText name)
    (hunderscore : ∀ name ∈ extra, '_' ∈ name.toList) :
    Separate (names.map typeIdent ++ extra) ↔ TypesConvert names := by
  have hpascal : ∀ name ∈ names.map typeIdent, IsNameText name := List.forall_mem_map.mpr
    fun name hname => Text.isNameText_pascalCase (Source.isNameText_of_isName (h name hname))
  have hdisjoint : (names.map typeIdent).Disjoint extra := by
    intro x hx hmem
    obtain ⟨name, hname, rfl⟩ := List.mem_map.mp hx
    have hno := Text.isNameChar_of_mem_pascalCase (Source.isNameText_of_isName (h name hname))
    exact (hno '_' (hunderscore _ hmem)).2 rfl
  have hdistinct := hextra.distinct
  rw [map_unmarked htext] at hdistinct
  have hlegal : (∀ name ∈ names.map typeIdent ++ extra, IsIdentifier name) ↔
      ∀ name ∈ names, leadsWithLetter name ∧ pascalCase name ≠ "Self" := by
    rw [List.forall_mem_append, and_iff_left hextra.legal, List.forall_mem_map]
    exact forall₂_congr fun name hname => isIdentifier_typeIdent_iff (h name hname)
  have happend : ((names.map typeIdent ++ extra).map unmarked).Nodup ↔
      (names.map pascalCase).Nodup := by
    rw [map_unmarked (List.forall_mem_append.mpr ⟨hpascal, htext⟩), List.nodup_append',
      and_iff_left ⟨hdistinct, hdisjoint⟩]
    rfl
  constructor
  · rintro ⟨hleft, hright⟩
    have hboth := hlegal.mp hleft
    exact ⟨fun name hname => (hboth name hname).1, fun name hname => (hboth name hname).2,
      happend.mp hright⟩
  · rintro ⟨hletter, hunreserved, hapart⟩
    exact ⟨hlegal.mpr fun name hname => ⟨hletter name hname, hunreserved name hname⟩,
      happend.mpr hapart⟩

/-! ### Identifiers of fields -/

/-- Names of fields that stay names and different ones, also from that of a marker. -/
structure FieldsConvert (names : List String) (marked : Bool) : Prop where
  named : "_" ∉ names
  apart : (names.map snakeCase).Nodup
  escaped : ∀ word ∈ pathKeywords, word ∈ names.map snakeCase → word ++ "_" ∉ names.map snakeCase
  marker : marked → Expr.markerField ∉ names.map snakeCase

/-- The word of an identifier. -/
def wordOf (word : String) : String := if word ∈ pathKeywords then word ++ "_" else word

theorem isIdentifier_identifier_iff (h : isName word) :
    IsIdentifier (identifier word) ↔ word ≠ "_" := by
  unfold identifier
  split
  · next hpath =>
    have hne : word ≠ "_" := by
      rintro rfl
      exact absurd hpath (by decide)
    refine iff_of_true (isIdentifier_of_underscore (Source.isName_append h ?_) ?_) hne
    · exact List.forall_mem_singleton.mpr (by decide)
    · obtain ⟨c, cs, heq, -⟩ := Source.isName_iff.mp h
      rw [String.toList_append, heq]
      exact List.mem_append_right _ List.mem_cons_self
  · next hpath =>
    split
    · next hkeyword =>
      have hne : word ≠ "_" := by
        rintro rfl
        exact absurd hkeyword (by decide)
      exact iff_of_true (.raw h hne hpath) hne
    · next hkeyword =>
      have hfree : word ∉ reserved := mem_reserved_iff.not.mpr (not_or.mpr ⟨hpath, hkeyword⟩)
      rw [isIdentifier_iff (Source.isNameText_of_isName h)]
      exact ⟨fun hword => hword.2.1, fun hne => ⟨h, hne, hfree⟩⟩

theorem isIdentifier_fieldIdent_iff (h : isName name) :
    IsIdentifier (fieldIdent name) ↔ name ≠ "_" := by
  rw [fieldIdent, isIdentifier_identifier_iff (Source.isName_snakeCase h), ne_eq,
    Text.snakeCase_eq_underscore_iff (Source.isNameText_of_isName h)]

theorem unmarked_identifier (h : IsNameText word) : unmarked (identifier word) = wordOf word := by
  unfold identifier wordOf
  split
  · refine unmarked_of_isNameText ?_
    rw [IsNameText, String.toList_append]
    exact List.forall_mem_append.mpr ⟨h, List.forall_mem_singleton.mpr (by decide)⟩
  · split
    · refine Eq.trans ?_ (unmarked_of_isNameText h)
      rw [unmarked, unmarked, String.toList_append]
      rfl
    · exact unmarked_of_isNameText h

theorem unmarked_fieldIdent (h : IsNameText name) :
    unmarked (fieldIdent name) = wordOf (snakeCase name) :=
  unmarked_identifier (Text.isSnakeText_snakeCase h).isNameText

/-- Words that differ stay so unless one of them is another one with an underscore behind it. -/
theorem nodup_map_wordOf_iff :
    (words.map wordOf).Nodup ↔
      words.Nodup ∧ ∀ word ∈ pathKeywords, word ∈ words → word ++ "_" ∉ words := by
  have hpath : ∀ word ∈ pathKeywords, word ++ "_" ∉ pathKeywords ∧ word ++ "_" ≠ word := by decide
  constructor
  · intro h
    refine ⟨h.of_map _, fun word hword hmem hescaped => ?_⟩
    have heq : wordOf word = wordOf (word ++ "_") := by
      rw [wordOf, wordOf, if_pos hword, if_neg (hpath word hword).1]
    exact (hpath word hword).2 (List.inj_on_of_nodup_map h hmem hescaped heq).symm
  · rintro ⟨hnodup, hescaped⟩
    refine hnodup.map_on fun a ha b hb heq => ?_
    unfold wordOf at heq
    split at heq <;> split at heq
    · exact String.append_left_inj _ |>.mp heq
    · next hword _ => exact absurd (heq ▸ hb) (hescaped a hword ha)
    · next _ hword => exact absurd (heq ▸ ha) (hescaped b hword hb)
    · exact heq

theorem wordOf_eq_markerField_iff : wordOf word = Expr.markerField ↔ word = Expr.markerField := by
  have hpath : ∀ w ∈ pathKeywords, w ++ "_" ≠ Expr.markerField ∧ w ≠ Expr.markerField := by decide
  unfold wordOf
  split
  · next hword => exact iff_of_false (hpath word hword).1 (hpath word hword).2
  · rfl

/-- The marker differs from the words of fields if none of them is called like it. -/
theorem nodup_map_wordOf_marker_iff (marked : Bool) :
    (words.map wordOf ++ if marked then [Expr.markerField] else []).Nodup ↔
      (words.map wordOf).Nodup ∧ (marked → Expr.markerField ∉ words) := by
  have hmem : Expr.markerField ∈ words.map wordOf ↔ Expr.markerField ∈ words := by
    rw [List.mem_map]
    simp only [wordOf_eq_markerField_iff, exists_eq_right]
  cases marked with
  | false => simp
  | true =>
    rw [if_pos rfl, List.nodup_append', hmem.symm]
    simp

/-- The names of fields, with that of a marker. -/
theorem separate_fieldIdents_iff (h : ∀ name ∈ names, isName name) (marked : Bool) :
    Separate (names.map fieldIdent ++ if marked then [Expr.markerField] else []) ↔
      FieldsConvert names marked := by
  have hmarker : IsIdentifier Expr.markerField ∧ unmarked Expr.markerField = Expr.markerField :=
    ⟨.plain (by decide) (by decide) (by decide), by decide⟩
  have hlegal : (∀ ident ∈ names.map fieldIdent ++ if marked then [Expr.markerField] else [],
      IsIdentifier ident) ↔ "_" ∉ names := by
    have hmarked : ∀ ident ∈ if marked then [Expr.markerField] else [], IsIdentifier ident := by
      cases marked with
      | false => exact List.forall_mem_nil _
      | true => exact List.forall_mem_singleton.mpr hmarker.1
    rw [List.forall_mem_append, and_iff_left hmarked, List.forall_mem_map, ← List.forall_mem_ne']
    exact forall₂_congr fun name hname => isIdentifier_fieldIdent_iff (h name hname)
  have hwords :
      (names.map fieldIdent ++ if marked then [Expr.markerField] else []).map unmarked =
        (names.map snakeCase).map wordOf ++ if marked then [Expr.markerField] else [] := by
    have hfields : (names.map fieldIdent).map unmarked = (names.map snakeCase).map wordOf := by
      rw [List.map_map, List.map_map]
      exact List.map_congr_left fun name hname =>
        unmarked_fieldIdent (Source.isNameText_of_isName (h name hname))
    rw [List.map_append, hfields]
    cases marked with
    | false => rfl
    | true => exact congrArg (_ ++ [·]) hmarker.2
  constructor
  · rintro ⟨hleft, hright⟩
    rw [hwords] at hright
    obtain ⟨hnodup, hmarked⟩ := (nodup_map_wordOf_marker_iff marked).mp hright
    obtain ⟨hapart, hescaped⟩ := nodup_map_wordOf_iff.mp hnodup
    exact ⟨hlegal.mp hleft, hapart, hescaped, hmarked⟩
  · rintro ⟨hnamed, hapart, hescaped, hmarked⟩
    refine ⟨hlegal.mpr hnamed, ?_⟩
    rw [hwords]
    exact (nodup_map_wordOf_marker_iff marked).mpr
      ⟨nodup_map_wordOf_iff.mpr ⟨hapart, hescaped⟩, hmarked⟩

/-! ### Functions and constants -/

/-- The names of the functions that give the names and the type expressions of declarations. -/
def handleNames (names : List String) : List String :=
  names.flatMap fun name => [refName name, typeExprName name]

/-- The names of the constants that hold the records of declarations, and that of their table. -/
def constNames (names : List String) : List String := names.map constName ++ ["AST_MAP"]

/-- A prefix with an underscore makes an identifier of anything. -/
theorem isIdentifier_prefixed {p : String} (h : p ∈ ["ref_", "texpr_", "def_", "AST_"])
    (hname : IsNameText name) : IsIdentifier (p ++ name) ∧ IsNameText (p ++ name) := by
  have hprefixes : ∀ p ∈ ["ref_", "texpr_", "def_", "AST_"], isName p ∧ '_' ∈ p.toList.tail := by
    decide
  obtain ⟨hp, hunderscore⟩ := hprefixes p h
  exact ⟨isIdentifier_append hp hunderscore hname,
    Source.isNameText_of_isName (Source.isName_append hp hname)⟩

theorem nodup_handleNames_iff : (handleNames names).Nodup ↔ (names.map snakeCase).Nodup := by
  have hne (a b : String) : refName a ≠ typeExprName b := by
    simp [refName, typeExprName, ← String.toList_inj]
  have href {a b : String} : refName a = refName b ↔ snakeCase a = snakeCase b :=
    String.append_right_inj _
  have htexpr {a b : String} : typeExprName a = typeExprName b ↔ snakeCase a = snakeCase b :=
    String.append_right_inj _
  have hdisjoint (a b : String) : List.Disjoint [refName a, typeExprName a]
      [refName b, typeExprName b] ↔ snakeCase a ≠ snakeCase b := by
    rw [List.disjoint_cons_left, List.singleton_disjoint, List.mem_pair, List.mem_pair, href,
      htexpr]
    have hne' := (hne b a).symm
    simp [hne, hne']
  rw [handleNames, List.nodup_flatMap, and_iff_right fun name _ => by simp [hne],
    List.nodup_iff_pairwise_ne, List.pairwise_map]
  exact List.Pairwise.iff_of_mem fun _ _ => hdisjoint _ _

theorem constName_eq_iff (ha : IsNameText a) (hb : IsNameText b) :
    constName a = constName b ↔ snakeCase a = snakeCase b := by
  rw [constName, constName, String.append_right_inj,
    Text.upperCase_inj (Text.isSnakeText_snakeCase ha) (Text.isSnakeText_snakeCase hb)]

theorem nodup_constNames_iff (h : ∀ name ∈ names, IsNameText name) :
    (constNames names).Nodup ↔ (names.map snakeCase).Nodup ∧ "map" ∉ names.map snakeCase := by
  have hconsts : (names.map constName).Nodup ↔ (names.map snakeCase).Nodup :=
    nodup_map_iff_nodup_map fun a ha b hb => constName_eq_iff (h a ha) (h b hb)
  have htable : "AST_MAP" ∈ names.map constName ↔ "map" ∈ names.map snakeCase := by
    obtain ⟨hconst, hsnake⟩ : constName "map" = "AST_MAP" ∧ snakeCase "map" = "map" := by
      decide +kernel
    have hmap : IsNameText "map" := Source.isNameText_of_isName (by decide)
    rw [List.mem_map, List.mem_map]
    refine exists_congr fun name => and_congr_right fun hname => ?_
    rw [← hconst, constName_eq_iff (h name hname) hmap, hsnake]
  rw [constNames, List.nodup_append', hconsts, List.disjoint_singleton, htable]
  simp

theorem isIdentifier_of_mem_handleNames (h : ∀ name ∈ names, IsNameText name) :
    ∀ x ∈ handleNames names, IsIdentifier x ∧ IsNameText x := by
  intro x hx
  obtain ⟨name, hname, hx⟩ := List.mem_flatMap.mp hx
  have hsnake := (Text.isSnakeText_snakeCase (h name hname)).isNameText
  rcases List.mem_pair.mp hx with rfl | rfl
  · exact isIdentifier_prefixed (by decide) hsnake
  · exact isIdentifier_prefixed (by decide) hsnake

theorem isIdentifier_of_mem_constNames (h : ∀ name ∈ names, IsNameText name) :
    ∀ x ∈ constNames names, IsIdentifier x ∧ IsNameText x := by
  refine List.forall_mem_append.mpr ⟨List.forall_mem_map.mpr fun name hname => ?_, ?_⟩
  · have hsnake := (Text.isSnakeText_snakeCase (h name hname)).isNameText
    exact isIdentifier_prefixed (by decide) (Text.isNameText_upperCase hsnake)
  · have htable : isName "AST_MAP" := by decide
    exact List.forall_mem_singleton.mpr ⟨isIdentifier_of_underscore htable (by decide),
      Source.isNameText_of_isName htable⟩

/-- The first letter tells a constant from a function. -/
theorem disjoint_handleNames_constNames (names : List String) :
    (handleNames names).Disjoint (constNames names) := by
  have hhandles : ∀ x ∈ handleNames names, x.toList.head? ≠ some 'A' := by
    intro x hx
    obtain ⟨name, -, hx⟩ := List.mem_flatMap.mp hx
    rcases List.mem_pair.mp hx with rfl | rfl
    · simp [refName]
    · simp [typeExprName]
  have hconsts : ∀ x ∈ constNames names, x.toList.head? = some 'A' :=
    List.forall_mem_append.mpr ⟨List.forall_mem_map.mpr fun name _ => by simp [constName], by simp⟩
  exact fun x hx hx' => hhandles x hx (hconsts x hx')

/-- The names of functions, with those of constants if there are any. -/
theorem separate_handleNames_iff (h : ∀ name ∈ names, IsNameText name) (embedded : Bool) :
    Separate (handleNames names ++ if embedded then constNames names else []) ↔
      (names.map snakeCase).Nodup ∧ (embedded → "map" ∉ names.map snakeCase) := by
  have hhandles := isIdentifier_of_mem_handleNames h
  cases embedded with
  | false =>
    rw [if_neg Bool.false_ne_true, List.append_nil, separate_iff_nodup hhandles,
      nodup_handleNames_iff]
    simp
  | true =>
    have hall := List.forall_mem_append.mpr ⟨hhandles, isIdentifier_of_mem_constNames h⟩
    rw [if_pos rfl, separate_iff_nodup hall, List.nodup_append', nodup_handleNames_iff,
      nodup_constNames_iff h, and_iff_left (disjoint_handleNames_constNames names), ← and_assoc,
      and_self]
    simp

end Rust

end Adl
