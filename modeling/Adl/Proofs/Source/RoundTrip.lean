import Adl.Error
import Adl.Proofs.Source.Literals
import Adl.Proofs.Value.Fits

/-!
# RoundTrip — a written module is read back

The tokens of a written module have its words as texts.  For each production one lemma says that
what was written is read back, up to its places, if nothing behind it goes on with it.  Every
production reads at least one token, so the number of tokens is fuel enough.
-/

namespace Adl.Source

/-! ### Modules without places -/

namespace TypeExpr

mutual

/-- The type without its places. -/
def unplaced : TypeExpr → TypeExpr
  | mk name args _ => mk name (unplacedAll args) .start

/-- Types without their places. -/
def unplacedAll : List TypeExpr → List TypeExpr
  | [] => []
  | t :: ts => unplaced t :: unplacedAll ts

end

theorem unplacedAll_eq_map (ts : List TypeExpr) : unplacedAll ts = ts.map unplaced := by
  induction ts with
  | nil => rfl
  | cons t ts ih => rw [unplacedAll, ih, List.map_cons]

end TypeExpr

/-- The import without its place. -/
def Import.unplaced (i : Import) : Import := { i with position := .start }

/-- The member without its places. -/
def Member.unplaced (m : Member) : Member :=
  { m with type := m.type.unplaced, position := .start }

/-- The body without its places. -/
def Body.unplaced : Body → Body
  | .struct members => .struct (members.map Member.unplaced)
  | .union members => .union (members.map Member.unplaced)
  | .enum members => .enum (members.map Member.unplaced)
  | .alias target => .alias target.unplaced
  | .newtype target default => .newtype target.unplaced default

/-- The declaration without its places. -/
def Decl.unplaced (d : Decl) : Decl := { d with body := d.body.unplaced, position := .start }

/-- The module without its places. -/
def Module.unplaced (m : Module) : Module :=
  { m with imports := m.imports.map Import.unplaced, decls := m.decls.map Decl.unplaced }

/-! ### Dotted names -/

/-- Identifiers with a point before each. -/
def pointed (parts : List String) : List String := parts.flatMap fun part => [".", part]

theorem intersperse_cons_eq (first : String) (parts : List String) :
    (first :: parts).intersperse "." = first :: pointed parts := by
  induction parts generalizing first with
  | nil => rfl
  | cons part parts ih =>
    rw [List.intersperse_cons_cons, ih, pointed, pointed, List.flatMap_cons]
    rfl

theorem partsOf_intercalate {parts : List String} (hne : parts ≠ [])
    (hparts : ∀ part ∈ parts, isName part) : partsOf (".".intercalate parts) = parts := by
  have hpoint : ∀ cs ∈ parts.map String.toList, '.' ∉ cs := by
    intro cs hcs hmem
    obtain ⟨part, hpart, rfl⟩ := List.mem_map.mp hcs
    obtain ⟨c, cs, hlist, hc, hchars⟩ := isName_iff.mp (hparts part hpart)
    rw [hlist] at hmem
    rcases List.mem_cons.mp hmem with rfl | hmem
    · exact absurd hc (by decide)
    · exact absurd (hchars _ hmem) (by decide)
  rw [partsOf, String.toList_intercalate]
  show ((['.'].intercalate (parts.map String.toList)).splitOn '.').map String.ofList = parts
  rw [List.splitOn_intercalate _ hpoint (by simpa using hne), List.map_map]
  exact (List.map_congr_left fun s _ => String.ofList_toList).trans (List.map_id parts)

/-- A dotted name is written as identifiers with points between them. -/
theorem IsDotted.nameWords_eq {name : String} (h : IsDotted name) :
    ∃ first parts, (∀ part ∈ first :: parts, isName part) ∧
      name = ".".intercalate (first :: parts) ∧ nameWords name = first :: pointed parts := by
  obtain ⟨parts, hne, hparts, rfl⟩ := h
  obtain ⟨first, parts, rfl⟩ := List.exists_cons_of_ne_nil hne
  refine ⟨first, parts, hparts, rfl, ?_⟩
  rw [nameWords, partsOf_intercalate hne hparts, intersperse_cons_eq]

theorem IsDotted.nameWords_ne_nil {name : String} (h : IsDotted name) : nameWords name ≠ [] := by
  obtain ⟨first, parts, -, -, hwords⟩ := h.nameWords_eq
  rw [hwords]
  exact List.cons_ne_nil _ _

theorem argWords_eq_map (ts : List TypeExpr) : argWords ts = ts.map typeWords := by
  induction ts with
  | nil => rfl
  | cons t ts ih => rw [argWords, ih, List.map_cons]

variable {form : Double → String}

namespace Parser

/-! ### Names and imports -/

section

variable {name : String} {parts rest : List String} {fuel : Nat}

theorem parses_nameParts (hparts : ∀ part ∈ parts, isName part) (hrest : ∀ w ∈ rest.head?, w ≠ ".")
    (hfuel : (pointed parts ++ rest).length ≤ fuel) :
    Parses (nameParts fuel) (pointed parts ++ rest) rest (· = parts) := by
  induction parts generalizing fuel with
  | nil =>
    cases fuel with
    | zero => exact .pure rfl
    | succ fuel =>
      rw [nameParts]
      exact .passed hrest (.pure rfl)
  | cons part parts ih =>
    rw [List.forall_mem_cons] at hparts
    have hwords : pointed (part :: parts) ++ rest = "." :: part :: (pointed parts ++ rest) := rfl
    rw [hwords] at hfuel ⊢
    rw [List.length_cons, List.length_cons] at hfuel
    cases fuel with
    | zero => omega
    | succ fuel =>
      rw [nameParts]
      refine .taken ((parses_expectName hparts.1 _).bind fun t ht => ?_)
      refine (ih hparts.2 (by omega)).bind ?_
      rintro _ rfl
      exact .pure (by rw [ht])

theorem parses_dottedName (hname : IsDotted name) (hrest : ∀ w ∈ rest.head?, w ≠ ".")
    (hfuel : (nameWords name ++ rest).length ≤ fuel) :
    Parses (dottedName fuel) (nameWords name ++ rest) rest (·.1 = name) := by
  obtain ⟨first, parts, hparts, rfl, hwords⟩ := hname.nameWords_eq
  rw [List.forall_mem_cons] at hparts
  rw [hwords, List.cons_append] at hfuel ⊢
  rw [List.length_cons] at hfuel
  rw [dottedName]
  refine (parses_expectName hparts.1 _).bind fun t ht => ?_
  refine (parses_nameParts hparts.2 hrest (by omega)).bind ?_
  rintro _ rfl
  exact .pure (by rw [ht])

/-- The words behind the names of an import. -/
def starWords (all : Bool) : List String := if all then [".", "*"] else []

theorem parses_importParts {all : Bool} (hparts : ∀ part ∈ parts, isName part)
    (hrest : ∀ w ∈ rest.head?, w ≠ ".")
    (hfuel : (pointed parts ++ (starWords all ++ rest)).length ≤ fuel) :
    Parses (importParts fuel) (pointed parts ++ (starWords all ++ rest)) rest
      (· = (parts, all)) := by
  induction parts generalizing fuel with
  | nil =>
    cases all with
    | false =>
      cases fuel with
      | zero => exact .pure rfl
      | succ fuel =>
        rw [importParts]
        exact .passed hrest (.pure rfl)
    | true =>
      cases fuel with
      | zero => cases hfuel
      | succ fuel =>
        rw [importParts]
        exact .taken (.taken (.pure rfl))
  | cons part parts ih =>
    rw [List.forall_mem_cons] at hparts
    have hwords : pointed (part :: parts) ++ (starWords all ++ rest) =
      "." :: part :: (pointed parts ++ (starWords all ++ rest)) := rfl
    rw [hwords] at hfuel ⊢
    rw [List.length_cons, List.length_cons] at hfuel
    have hstar : part ≠ "*" := by
      rintro rfl
      exact absurd hparts.1 (by decide)
    cases fuel with
    | zero => omega
    | succ fuel =>
      rw [importParts]
      refine .taken (.passed (by simpa using hstar) ?_)
      refine (parses_expectName hparts.1 _).bind fun t ht => (ih hparts.2 (by omega)).bind ?_
      rintro _ rfl
      exact .pure (by rw [ht])

theorem parses_importDecl {i : Import} (hi : i.WellFormed)
    (hfuel : (importWords i ++ rest).length ≤ fuel) :
    Parses (importDecl fuel) ((importWords i).tail ++ rest) rest fun i' =>
      i'.unplaced = i.unplaced := by
  obtain ⟨first, parts, hparts, hmodule, hwords⟩ := hi.module.nameWords_eq
  rw [List.forall_mem_cons] at hparts
  obtain ⟨module, kind, position⟩ := i
  subst hmodule
  rw [importWords, hwords, List.cons_append] at hfuel
  rw [importWords, List.tail_cons, hwords]
  rw [importDecl]
  cases kind with
  | all =>
    have hsplit : (first :: pointed parts ++ [".", "*", ";"]) ++ rest =
        first :: (pointed parts ++ (starWords true ++ (";" :: rest))) := by simp [starWords]
    rw [hsplit]
    refine (parses_expectName hparts.1 _).bind fun t ht => ?_
    refine (parses_importParts hparts.2 (by simp) ?_).bind ?_
    · simp [starWords] at hfuel ⊢
      omega
    rintro _ rfl
    refine (parses_expect _ _).bind fun _ _ => .pure ?_
    rw [Import.unplaced, Import.unplaced, ht]
  | name name =>
    have hname := hi.name name rfl
    have hpointed : pointed (parts ++ [name]) = pointed parts ++ [".", name] :=
      List.flatMap_append ..
    have hsplit : (first :: pointed parts ++ [".", name, ";"]) ++ rest =
        first :: (pointed (parts ++ [name]) ++ (starWords false ++ (";" :: rest))) := by
      simp [starWords, hpointed]
    rw [hsplit]
    refine (parses_expectName hparts.1 _).bind fun t ht => ?_
    refine (parses_importParts ?_ (by simp) ?_).bind ?_
    · exact List.forall_mem_append.mpr ⟨hparts.2, List.forall_mem_singleton.mpr hname⟩
    · simp [starWords, hpointed] at hfuel ⊢
      omega
    rintro _ rfl
    refine (parses_expect _ _).bind fun _ _ => ?_
    dsimp only
    rw [if_neg Bool.false_ne_true, if_neg (by simp)]
    refine .pure ?_
    rw [ht, ← List.cons_append, List.dropLast_concat, List.getLast?_concat]
    rfl

theorem parses_imports {is : List Import} (his : ∀ i ∈ is, i.WellFormed)
    (hrest : ∀ w ∈ rest.head?, w ≠ "import") {n : Nat}
    (hfuel : (is.flatMap importWords ++ rest).length ≤ fuel)
    (hn : (is.flatMap importWords ++ rest).length ≤ n) :
    Parses (imports fuel n) (is.flatMap importWords ++ rest) rest fun is' =>
      is'.map Import.unplaced = is.map Import.unplaced := by
  induction is generalizing n with
  | nil =>
    cases n with
    | zero => exact .pure rfl
    | succ n =>
      rw [imports]
      exact .passed hrest (.pure rfl)
  | cons i is ih =>
    rw [List.forall_mem_cons] at his
    rw [List.flatMap_cons, List.append_assoc] at hfuel hn ⊢
    have hshorter : (is.flatMap importWords ++ rest).length <
        (importWords i ++ (is.flatMap importWords ++ rest)).length := by
      simp only [List.length_append, importWords, List.length_cons]
      omega
    cases n with
    | zero => omega
    | succ n =>
      rw [imports]
      refine .taken (w := "import") ((parses_importDecl his.1 hfuel).bind fun i' hi' => ?_)
      refine (ih his.2 (by omega) (by omega)).bind fun is' his' => .pure ?_
      rw [List.map_cons, List.map_cons, hi', his']

end

/-! ### Types -/

section

variable {rest : List String} {fuel : Nat}

theorem typeWords_ne_nil {t : TypeExpr} (h : t.Named) : typeWords t ≠ [] := by
  obtain ⟨hname, -⟩ := h
  rw [typeWords]
  exact List.append_ne_nil_of_left_ne_nil hname.nameWords_ne_nil _

/-- A type is read back if no point and no bracket stands behind it. -/
theorem parses_typeExpr {t : TypeExpr} (h : t.Named)
    (hrest : ∀ w ∈ rest.head?, w ≠ "." ∧ w ≠ "<") (hfuel : (typeWords t ++ rest).length ≤ fuel) :
    Parses (typeExpr fuel) (typeWords t ++ rest) rest fun t' => t'.unplaced = t.unplaced := by
  induction h generalizing rest fuel with
  | @mk name args position hname hargs ih =>
    cases fuel with
    | zero =>
      have hnil := List.eq_nil_of_length_eq_zero (Nat.le_zero.mp hfuel)
      exact absurd (List.append_eq_nil_iff.mp hnil).1 (typeWords_ne_nil (.mk hname hargs))
    | succ fuel =>
      rw [typeExpr]
      cases args with
      | nil =>
        have hwords : typeWords (.mk name [] position) ++ rest = nameWords name ++ rest := by
          simp [typeWords]
        rw [hwords] at hfuel ⊢
        refine (parses_dottedName hname (fun w hw => (hrest w hw).1) hfuel).bind ?_
        rintro ⟨name', position'⟩ rfl
        exact .passed (fun w hw => (hrest w hw).2) (.pure rfl)
      | cons arg args =>
        have hwords : typeWords (.mk name (arg :: args) position) ++ rest = nameWords name ++
            ("<" :: ([","].intercalate ((arg :: args).map typeWords) ++ ">" :: rest)) := by
          simp [typeWords, enclosed, argWords_eq_map]
        rw [hwords] at hfuel ⊢
        refine (parses_dottedName hname (by simp) hfuel).bind ?_
        rintro ⟨name', position'⟩ rfl
        rw [List.length_append, List.length_cons] at hfuel
        refine .taken ((parses_separated TypeExpr.unplaced fuel
          (List.cons_ne_nil _ _) ?_ (by decide) rest ?_ ?_).bind fun args' hargs' => .pure ?_)
        · intro t ht rest hlength hnext
          refine ih t ht ?_ hlength
          intro w hw
          rcases hnext w hw with rfl | rfl <;> decide
        · have hpos := List.length_pos_iff.mpr (hname.nameWords_ne_nil)
          omega
        · omega
        · rw [TypeExpr.unplaced, TypeExpr.unplaced, TypeExpr.unplacedAll_eq_map,
            TypeExpr.unplacedAll_eq_map, hargs']

theorem parses_typeParams {params : List String} (hparams : ∀ p ∈ params, isName p)
    (hrest : ∀ w ∈ rest.head?, w ≠ "<") (hfuel : (paramWords params ++ rest).length ≤ fuel) :
    Parses (typeParams fuel) (paramWords params ++ rest) rest (· = params) := by
  rw [typeParams]
  cases params with
  | nil => exact .passed hrest (.pure rfl)
  | cons p params =>
    have hwords : paramWords (p :: params) ++ rest =
        "<" :: ([","].intercalate ((p :: params).map ([·])) ++ ">" :: rest) := by
      simp [paramWords, enclosed]
    rw [hwords] at hfuel ⊢
    rw [List.length_cons] at hfuel
    refine .taken ((parses_separated id fuel (List.cons_ne_nil _ _) ?_
      (by decide) rest (by omega) (by omega)).mono fun params' h => ?_)
    · intro p hp rest _ _
      exact (parses_expectName (hparams p hp) _).bind fun t ht => .pure ht
    · rwa [List.map_id, List.map_id] at h

end

/-! ### Annotations -/

section

variable {as : List AnnotationEntry} {rest : List String} {fuel : Nat}

theorem parses_docs {i : List String} (h : ∀ w ∈ i.head?, Lexeme.isDoc w.toList = false) :
    Parses docs i i (· = none) := by
  rintro ts rfl
  have hdoc : ∀ t ∈ ts.head?, Token.isDoc t = false := by
    intro t ht
    exact h t.text (by rw [List.head?_map, ht]; rfl)
  cases ts with
  | nil => exact ⟨none, [], rfl, rfl, rfl⟩
  | cons t ts =>
    have ht := hdoc t rfl
    refine ⟨none, t :: ts, ?_, rfl, rfl⟩
    rw [docs, List.takeWhile_cons_of_neg (by simp [ht]), List.dropWhile_cons_of_neg (by simp [ht])]
    rfl

theorem not_isDoc_of_isName {w : String} (h : isName w) : Lexeme.isDoc w.toList = false := by
  obtain ⟨c, cs, hw, hc, -⟩ := isName_iff.mp h
  rw [hw]
  unfold Lexeme.isDoc
  split
  · next heq =>
    obtain ⟨rfl, -⟩ := List.cons.inj heq
    exact absurd hc (by decide)
  · rfl

/-- Annotations are read back in front of a name. -/
theorem parses_annotations (has : ∀ a ∈ as, a.WellFormed (Writable form))
    (hrest : ∀ w ∈ rest.head?, isName w)
    (hfuel : (as.flatMap (annotationWords form) ++ rest).length ≤ fuel) :
    Parses (annotations fuel) (as.flatMap (annotationWords form) ++ rest) rest (· = as) := by
  induction as generalizing fuel with
  | nil =>
    cases fuel with
    | zero => exact .pure rfl
    | succ fuel =>
      rw [annotations]
      refine (parses_docs fun w hw => not_isDoc_of_isName (hrest w hw)).bind ?_
      rintro _ rfl
      refine .passed ?_ (.pure rfl)
      rintro w hw rfl
      exact absurd (hrest _ hw) (by decide)
  | cons a as ih =>
    rw [List.forall_mem_cons] at has
    have hwords : (a :: as).flatMap (annotationWords form) ++ rest = "@" :: (nameWords a.name ++
        (literalWords form a.value ++ (as.flatMap (annotationWords form) ++ rest))) := by
      simp [annotationWords]
    obtain ⟨w, ws, hvalue, hstart⟩ := literalWords_eq_cons has.1.value
    rw [hwords] at hfuel ⊢
    simp only [List.length_cons, List.length_append] at hfuel
    cases fuel with
    | zero => omega
    | succ fuel =>
      rw [annotations]
      refine (parses_docs (by rintro _ ⟨⟩; decide)).bind ?_
      rintro _ rfl
      refine .taken ((parses_dottedName has.1.name ?_ ?_).bind ?_)
      · rw [hvalue]
        rintro _ ⟨⟩ rfl
        exact absurd (hstart ⟨".", .start⟩ rfl) (by decide)
      · simp only [List.length_append]
        omega
      rintro ⟨name, position⟩ rfl
      have hread : Parses (literal (fuel + 1))
          (literalWords form a.value ++ (as.flatMap (annotationWords form) ++ rest))
          (as.flatMap (annotationWords form) ++ rest) (· = a.value) :=
        parses_literal has.1.value (by simp only [List.length_append]; omega)
      rw [hvalue, List.cons_append] at hread ⊢
      refine (parses_peek_cons _ _).bind ?_
      rintro _ ⟨t, rfl, ht⟩
      dsimp only
      rw [if_pos (hstart t ht)]
      refine hread.bind ?_
      rintro _ rfl
      refine (ih has.2 (by simp only [List.length_append]; omega)).bind ?_
      rintro _ rfl
      exact .pure rfl

/-- The serialized name that is written first is taken from the annotations. -/
theorem parses_takeSerializedName (m : Member) (name : Token) (i : List String) :
    Parses (takeSerializedName name (writtenAnnotations m)) i i
      (· = (m.serializedName, m.annotations)) := by
  rw [takeSerializedName, writtenAnnotations, List.find?_cons_of_pos (by rfl)]
  dsimp only
  rw [List.eraseP_cons_of_pos (by rfl)]
  exact .pure rfl

end

/-! ### Members -/

section

variable {m : Member} {rest : List String} {fuel : Nat}

theorem isName_head_typeWords {t : TypeExpr} (h : t.Named) :
    ∀ w ∈ (typeWords t ++ rest).head?, isName w := by
  obtain ⟨hname, -⟩ := h
  obtain ⟨first, parts, hparts, -, hwords⟩ := hname.nameWords_eq
  rw [typeWords, hwords]
  rintro _ ⟨⟩
  exact hparts _ List.mem_cons_self

theorem wellFormed_writtenAnnotations (h : m.WellFormed (Writable form)) :
    ∀ a ∈ writtenAnnotations m, a.WellFormed (Writable form) := by
  rw [writtenAnnotations, List.forall_mem_cons]
  have hname : isName "SerializedName" := by decide
  exact ⟨⟨isDotted_of_isName hname, .string _⟩, h.annotations⟩

/-- A field is read back, and so is an alternative, which has no default. -/
theorem parses_member {allowDefault : Bool} (hm : m.WellFormed (Writable form))
    (hdefault : allowDefault = false → m.default = none)
    (hfuel : (memberWords form m ++ rest).length ≤ fuel) :
    Parses (member allowDefault fuel) (memberWords form m ++ rest) rest fun m' =>
      m'.unplaced = m.unplaced := by
  have hwords : memberWords form m ++ rest =
      (writtenAnnotations m).flatMap (annotationWords form) ++
      (typeWords m.type ++ (m.name :: (defaultWords form m.default ++ ";" :: rest))) := by
    simp [memberWords]
  have hname : ∀ w ∈ (m.name :: (defaultWords form m.default ++ ";" :: rest)).head?,
      w ≠ "." ∧ w ≠ "<" := by
    rintro _ ⟨⟩
    constructor
    · intro h
      exact absurd (h ▸ hm.name) (by decide)
    · intro h
      exact absurd (h ▸ hm.name) (by decide)
  rw [hwords] at hfuel ⊢
  rw [member]
  refine (parses_annotations (wellFormed_writtenAnnotations hm) (isName_head_typeWords hm.type)
    hfuel).bind ?_
  rintro _ rfl
  rw [List.length_append] at hfuel
  refine (parses_typeExpr hm.type hname (by omega)).bind fun type htype => ?_
  rw [List.length_append, List.length_cons] at hfuel
  refine (parses_expectName hm.name _).bind fun name htext => ?_
  refine (parses_peek _).bind fun equals _ => ?_
  have hrest : ∀ default, default = m.default → Parses (do
      expect ";" "\";\""
      let taken ← takeSerializedName name (writtenAnnotations m)
      return ⟨name.text, taken.1, type, default, taken.2, name.position⟩)
      (";" :: rest) rest fun m' : Member => m'.unplaced = m.unplaced := by
    rintro _ rfl
    refine (parses_expect _ _).bind fun _ _ => (parses_takeSerializedName m name _).bind ?_
    rintro _ rfl
    refine .pure ?_
    rw [Member.unplaced, Member.unplaced, htype, htext]
  cases hd : m.default with
  | none =>
    refine .passed_cons (by decide) ((Parses.pure (P := (· = none)) rfl).bind fun default h => ?_)
    exact hrest default (h.trans hd.symm)
  | some l =>
    have hallow : allowDefault = true := by
      by_contra h
      rw [Bool.not_eq_true] at h
      exact absurd (hd.symm.trans (hdefault h)) (Option.some_ne_none l)
    rw [hd, defaultWords, List.length_append, List.length_cons] at hfuel
    refine .taken ?_
    rw [hallow]
    refine ((parses_literal (hm.default l hd) ?_).map (Q := (· = some l)) ?_).bind ?_
    · rw [List.length_append]
      omega
    · rintro _ rfl
      rfl
    · exact fun default h => hrest default (h.trans hd.symm)

/-- A label is read back. -/
theorem parses_label (hm : m.WellFormed (Writable form)) (hlabel : m.IsLabel)
    (hfuel : (labelWords form m ++ rest).length ≤ fuel) :
    Parses (label fuel) (labelWords form m ++ rest) rest fun m' => m'.unplaced = m.unplaced := by
  have hwords : labelWords form m ++ rest = (writtenAnnotations m).flatMap (annotationWords form) ++
      (m.name :: ";" :: rest) := by
    simp [labelWords]
  rw [hwords] at hfuel ⊢
  rw [label]
  refine (parses_annotations (wellFormed_writtenAnnotations hm) ?_ hfuel).bind ?_
  · rintro _ ⟨⟩
    exact hm.name
  rintro _ rfl
  refine (parses_expectName hm.name _).bind fun name htext => ?_
  refine (parses_expect _ _).bind fun _ _ => (parses_takeSerializedName m name _).bind ?_
  rintro _ rfl
  refine .pure ?_
  obtain ⟨_, htype⟩ := hlabel.type
  rw [Member.unplaced, Member.unplaced, htype, hlabel.default, htext]
  rfl

/-- Members between braces are read back if each of them is. -/
theorem parses_members {item : Parser Member} {words : Member → List String} {ms : List Member}
    (hitem : ∀ m ∈ ms, ∀ rest, (words m ++ rest).length ≤ fuel →
      Parses item (words m ++ rest) rest fun m' => m'.unplaced = m.unplaced)
    (hwords : ∀ m ∈ ms, ∃ ws, words m = "@" :: ws)
    (hfuel : ("\x7b" :: (ms.flatMap words ++ "\x7d" :: rest)).length ≤ fuel) :
    Parses (members item fuel) ("\x7b" :: (ms.flatMap words ++ "\x7d" :: rest)) rest fun ms' =>
      ms'.map Member.unplaced = ms.map Member.unplaced := by
  rw [List.length_cons] at hfuel
  rw [members]
  refine (parses_expect _ _).bind fun _ _ => ?_
  refine parses_many Member.unplaced fuel hitem (fun m hm => ?_) rest (by omega) (by omega)
  obtain ⟨ws, hws⟩ := hwords m hm
  exact ⟨"@", ws, hws, by decide⟩

end

/-! ### Declarations and modules -/

section

variable {rest : List String} {fuel : Nat}

/-- The keyword that a body is written with. -/
def kindOf : Body → Keyword
  | .struct _ => .struct
  | .union _ => .union
  | .enum _ => .enum
  | .alias _ => .alias
  | .newtype _ _ => .newtype

/-- A newtype is read back. -/
theorem parses_newtype {target : TypeExpr} {default : Option Literal}
    (hb : (Body.newtype target default).WellFormed (Writable form))
    (hfuel : (bodyWords form (.newtype target default) ++ ";" :: rest).length ≤ fuel) :
    Parses (body fuel .newtype) (bodyWords form (.newtype target default) ++ ";" :: rest)
      (";" :: rest) fun b' => b'.unplaced = (Body.newtype target default).unplaced := by
  have hwords : bodyWords form (.newtype target default) ++ ";" :: rest =
      "=" :: (typeWords target ++ (defaultWords form default ++ ";" :: rest)) := by
    simp [bodyWords]
  rw [hwords, List.length_cons] at hfuel
  rw [hwords]
  refine (parses_expect _ _).bind fun _ _ => ?_
  refine (parses_typeExpr hb.1 ?_ (by omega)).bind fun target' htarget => ?_
  · cases default <;> simp [defaultWords]
  rw [List.length_append] at hfuel
  have hrest : ∀ default', default' = default →
      Parses (pure (Body.newtype target' default')) (";" :: rest) (";" :: rest) fun b' =>
        b'.unplaced = (Body.newtype target default).unplaced := by
    rintro _ rfl
    refine .pure ?_
    rw [Body.unplaced, Body.unplaced, htarget]
  cases default with
  | none => exact .passed_cons (by decide) ((Parses.pure (P := (· = none)) rfl).bind hrest)
  | some l =>
    rw [defaultWords, List.cons_append, List.length_cons] at hfuel
    refine .taken (.bind (.map (Q := (· = some l)) (parses_literal (hb.2 l rfl) ?_) ?_) hrest)
    · omega
    rintro _ rfl
    rfl

theorem parses_body {b : Body} (hb : b.WellFormed (Writable form))
    (hfuel : (bodyWords form b ++ ";" :: rest).length ≤ fuel) :
    Parses (body fuel (kindOf b)) (bodyWords form b ++ ";" :: rest) (";" :: rest) fun b' =>
      b'.unplaced = b.unplaced := by
  have hbraces : ∀ (words : Member → List String) (ms : List Member),
      "\x7b" :: (ms.flatMap words ++ ["\x7d"]) ++ ";" :: rest =
        "\x7b" :: (ms.flatMap words ++ "\x7d" :: ";" :: rest) := by
    intro words ms
    simp
  cases b with
  | struct ms =>
    rw [bodyWords, hbraces] at hfuel ⊢
    refine (parses_members (fun m hm rest hlength => ?_) (fun m _ => ⟨_, rfl⟩) hfuel).bind ?_
    · exact parses_member (hb m hm) (fun h => nomatch h) hlength
    · intro ms' hms
      exact .pure (congrArg Body.struct hms)
  | union ms =>
    rw [bodyWords, hbraces] at hfuel ⊢
    refine (parses_members (fun m hm rest hlength => ?_) (fun m _ => ⟨_, rfl⟩) hfuel).bind ?_
    · exact parses_member (hb m hm).1 (fun _ => (hb m hm).2) hlength
    · intro ms' hms
      exact .pure (congrArg Body.union hms)
  | enum ms =>
    rw [bodyWords, hbraces] at hfuel ⊢
    refine (parses_members (fun m hm rest hlength => ?_) (fun m _ => ⟨_, rfl⟩) hfuel).bind ?_
    · exact parses_label (hb m hm).1 (hb m hm).2 hlength
    · intro ms' hms
      exact .pure (congrArg Body.enum hms)
  | «alias» target =>
    rw [bodyWords, List.cons_append] at hfuel ⊢
    rw [List.length_cons] at hfuel
    refine (parses_expect _ _).bind fun _ _ => ?_
    refine (parses_typeExpr hb (by simp) (by omega)).bind fun target' htarget => .pure ?_
    rw [Body.unplaced, Body.unplaced, htarget]
  | newtype target default => exact parses_newtype hb hfuel

theorem parses_keyword (b : Body) (rest : List String) :
    Parses keyword (keywordOf b :: rest) rest (·.1 = kindOf b) := by
  rw [keyword]
  refine (parses_peek_cons _ _).bind ?_
  rintro _ ⟨t, rfl, ht⟩
  have hkeyword : keyword? t = some (kindOf b) := by
    rw [keyword?, ht]
    cases b <;> rfl
  dsimp only
  rw [hkeyword, ht]
  exact (parses_eat _ _).bind fun _ _ => .pure rfl

theorem isName_keywordOf (b : Body) : isName (keywordOf b) := by
  have hall : ∀ w ∈ ["struct", "union", "enum", "type", "newtype"], isName w := by decide
  apply hall
  cases b <;> simp [keywordOf]

theorem parses_decl {d : Decl} (hd : d.WellFormed (Writable form))
    (hfuel : (declWords form d ++ rest).length ≤ fuel) :
    Parses (decl fuel) (declWords form d ++ rest) rest fun d' => d'.unplaced = d.unplaced := by
  have hwords : declWords form d ++ rest = d.annotations.flatMap (annotationWords form) ++
      (keywordOf d.body :: d.name ::
        (paramWords d.typeParams ++ (bodyWords form d.body ++ ";" :: rest))) := by
    simp [declWords]
  rw [hwords] at hfuel ⊢
  rw [decl]
  refine (parses_annotations hd.annotations ?_ hfuel).bind ?_
  · rintro _ ⟨⟩
    exact isName_keywordOf _
  rintro _ rfl
  rw [List.length_append, List.length_cons, List.length_cons] at hfuel
  refine (parses_keyword d.body _).bind ?_
  rintro ⟨kind, position⟩ rfl
  refine (parses_expectName hd.name _).bind fun name htext => ?_
  rw [List.length_append] at hfuel
  have hrest : ∀ params, params = d.typeParams → Parses (do
      let body ← body fuel (kindOf d.body)
      expect ";" "\";\""
      return ⟨name.text, params, d.annotations, body, position⟩)
      (bodyWords form d.body ++ ";" :: rest) rest fun d' : Decl => d'.unplaced = d.unplaced := by
    rintro _ rfl
    refine (parses_body hd.body (by omega)).bind fun b hb => ?_
    refine (parses_expect _ _).bind fun _ _ => .pure ?_
    rw [Decl.unplaced, Decl.unplaced, htext, hb]
  by_cases hkind : kindOf d.body = .enum
  · have hnone : d.typeParams = [] := by
      cases hbody : d.body with
      | enum ms => exact hd.enumParams ms hbody
      | _ =>
        rw [hbody] at hkind
        cases hkind
    rw [hnone] at hrest ⊢
    dsimp only
    rw [if_pos hkind]
    exact (Parses.pure (P := (· = [])) rfl).bind hrest
  · dsimp only
    rw [if_neg hkind]
    refine (parses_typeParams hd.typeParams ?_ (by rw [List.length_append]; omega)).bind hrest
    cases d.body <;> simp [bodyWords]

/-- The first word of a declaration is none that could stand in its place. -/
theorem declWords_eq_cons (form : Double → String) (d : Decl) :
    ∃ w ws, declWords form d = w :: ws ∧ w ≠ "\x7d" ∧ w ≠ "import" := by
  have hall : ∀ w ∈ ["@", "struct", "union", "enum", "type", "newtype"],
      w ≠ "\x7d" ∧ w ≠ "import" := by decide
  rw [declWords]
  cases d.annotations with
  | nil =>
    refine ⟨_, _, rfl, hall _ ?_⟩
    cases d.body <;> simp [keywordOf]
  | cons a as => exact ⟨"@", _, rfl, hall _ (by decide)⟩

theorem parses_module {m : Module} (hm : m.WellFormed (Writable form))
    (hfuel : (m.words form).length ≤ fuel) :
    Parses (module fuel) (m.words form) [] fun m' => m'.unplaced = m.unplaced := by
  have hwords : m.words form = m.annotations.flatMap (annotationWords form) ++ ("module" ::
      (nameWords m.name ++ ("\x7b" :: (m.imports.flatMap importWords ++
        (m.decls.flatMap (declWords form) ++ "\x7d" :: [";"]))))) := rfl
  rw [hwords] at hfuel ⊢
  rw [module]
  refine (parses_annotations hm.annotations (by rintro _ ⟨⟩; decide) hfuel).bind ?_
  rintro _ rfl
  rw [List.length_append, List.length_cons] at hfuel
  refine (parses_expect _ _).bind fun _ _ => ?_
  refine (parses_dottedName hm.name (by simp) (by omega)).bind ?_
  rintro ⟨name, position⟩ rfl
  rw [List.length_append, List.length_cons] at hfuel
  refine (parses_expect _ _).bind fun _ _ => ?_
  refine (parses_imports hm.imports ?_ (by omega) (by omega)).bind fun is his => ?_
  · cases m.decls with
    | nil =>
      rintro _ ⟨⟩
      decide
    | cons d ds =>
      obtain ⟨w, ws, hw, -, hne⟩ := declWords_eq_cons form d
      rw [List.flatMap_cons, hw]
      rintro _ ⟨⟩
      exact hne
  rw [List.length_append] at hfuel
  refine (parses_many Decl.unplaced fuel ?_ ?_ [";"] (by omega) (by omega)).bind fun ds hds => ?_
  · exact fun d hd rest hlength => parses_decl (hm.decls d hd) hlength
  · intro d _
    obtain ⟨w, ws, hw, hne, -⟩ := declWords_eq_cons form d
    exact ⟨w, ws, hw, hne⟩
  refine (parses_eat ";" []).bind fun _ _ => (parses_peek []).bind ?_
  intro next hnext
  have hnone : next = none := Option.map_eq_none_iff.mp hnext
  rw [hnone]
  refine .pure ?_
  rw [Module.unplaced, Module.unplaced, his, hds]

end

end Parser

/-! ### The words of a module -/

theorem forall_mem_intercalate {α : Type} {P : α → Prop} {sep : List α} {ls : List (List α)}
    (hsep : ∀ a ∈ sep, P a) (hls : ∀ l ∈ ls, ∀ a ∈ l, P a) : ∀ a ∈ sep.intercalate ls, P a := by
  induction ls with
  | nil => exact fun _ h => nomatch h
  | cons l ls ih =>
    rw [List.forall_mem_cons] at hls
    cases ls with
    | nil =>
      rw [List.intercalate_singleton]
      exact hls.1
    | cons l' ls =>
      rw [List.intercalate_cons_cons, List.forall_mem_append, List.forall_mem_append]
      exact ⟨⟨hls.1, hsep⟩, ih hls.2⟩

theorem isWord_enclosed {opening closing : String} {items : List (List String)}
    (hopening : isMark opening) (hclosing : isMark closing)
    (hitems : ∀ item ∈ items, ∀ w ∈ item, IsWord w) :
    ∀ w ∈ enclosed opening closing items, IsWord w := by
  rw [enclosed, List.forall_mem_cons, List.forall_mem_append, List.forall_mem_singleton]
  have hcomma : ∀ w ∈ [","], IsWord w := List.forall_mem_singleton.mpr (.mark (by decide))
  exact ⟨.mark hopening, forall_mem_intercalate hcomma hitems, .mark hclosing⟩

theorem IsDotted.isWord {name : String} (h : IsDotted name) : ∀ w ∈ nameWords name, IsWord w := by
  obtain ⟨first, parts, hparts, -, hwords⟩ := h.nameWords_eq
  rw [List.forall_mem_cons] at hparts
  rw [hwords, List.forall_mem_cons, pointed, List.forall_mem_flatMap]
  refine ⟨.name hparts.1, fun part hpart => ?_⟩
  rw [List.forall_mem_cons, List.forall_mem_singleton]
  exact ⟨.mark (by decide), .name (hparts.2 part hpart)⟩

theorem Writable.isWord {l : Literal} (h : Writable form l) :
    ∀ w ∈ literalWords form l, IsWord w := by
  induction h with
  | null => exact List.forall_mem_singleton.mpr (.name (by decide))
  | @integer i =>
    have hword := IsWord.number (Parser.scan?_toString i) (Parser.hasValue_ofInt i)
    exact List.forall_mem_singleton.mpr hword
  | double h =>
    obtain ⟨n, hscan, -, hvalue, -⟩ := h
    exact List.forall_mem_singleton.mpr (.number hscan hvalue)
  | string s => exact List.forall_mem_singleton.mpr (.quoted s)
  | boolean b =>
    refine List.forall_mem_singleton.mpr (.name ?_)
    cases b <;> decide
  | array _ ih =>
    rw [literalWords, itemWords_eq_map]
    refine isWord_enclosed (by decide) (by decide) ?_
    rw [List.forall_mem_map]
    exact ih
  | object _ ih =>
    rw [literalWords, entryWords_eq_map]
    refine isWord_enclosed (by decide) (by decide) ?_
    rw [List.forall_mem_map]
    intro e he
    rw [List.forall_mem_cons, List.forall_mem_cons]
    exact ⟨.quoted e.1, .mark (by decide), ih e he⟩

theorem TypeExpr.Named.isWord {t : TypeExpr} (h : t.Named) : ∀ w ∈ typeWords t, IsWord w := by
  induction h with
  | @mk name args position hname _ ih =>
    rw [typeWords, argWords_eq_map, List.forall_mem_append]
    refine ⟨hname.isWord, ?_⟩
    split
    · exact fun _ h => nomatch h
    · refine isWord_enclosed (by decide) (by decide) ?_
      rw [List.forall_mem_map]
      exact ih

theorem isWord_paramWords {params : List String} (h : ∀ p ∈ params, isName p) :
    ∀ w ∈ paramWords params, IsWord w := by
  rw [paramWords]
  split
  · exact fun _ h => nomatch h
  · refine isWord_enclosed (by decide) (by decide) ?_
    rw [List.forall_mem_map]
    exact fun p hp => List.forall_mem_singleton.mpr (.name (h p hp))

theorem isWord_annotations {as : List AnnotationEntry}
    (h : ∀ a ∈ as, a.WellFormed (Writable form)) :
    ∀ w ∈ as.flatMap (annotationWords form), IsWord w := by
  rw [List.forall_mem_flatMap]
  intro a ha
  rw [annotationWords, List.forall_mem_cons, List.forall_mem_append]
  exact ⟨.mark (by decide), (h a ha).name.isWord, (h a ha).value.isWord⟩

theorem isWord_defaultWords {default : Option Literal} (h : ∀ l ∈ default, Writable form l) :
    ∀ w ∈ defaultWords form default, IsWord w := by
  cases default with
  | none => exact fun _ h => nomatch h
  | some l => exact List.forall_mem_cons.mpr ⟨.mark (by decide), (h l rfl).isWord⟩

theorem Import.WellFormed.isWord {i : Import} (h : i.WellFormed) :
    ∀ w ∈ importWords i, IsWord w := by
  rw [importWords, List.forall_mem_cons, List.forall_mem_append]
  refine ⟨.name (by decide), h.module.isWord, ?_⟩
  simp only [List.forall_mem_cons, List.not_mem_nil, false_implies, implies_true, and_true]
  refine ⟨.mark (by decide), ?_, .mark (by decide)⟩
  cases hkind : i.kind with
  | all => exact .mark (by decide)
  | name name => exact .name (h.name name hkind)

theorem isWord_memberWords {m : Member} (h : m.WellFormed (Writable form)) :
    ∀ w ∈ memberWords form m, IsWord w := by
  rw [memberWords, List.forall_mem_append, List.forall_mem_append, List.forall_mem_cons,
    List.forall_mem_append, List.forall_mem_singleton]
  exact ⟨isWord_annotations (Parser.wellFormed_writtenAnnotations h), h.type.isWord, .name h.name,
    isWord_defaultWords h.default, .mark (by decide)⟩

theorem isWord_labelWords {m : Member} (h : m.WellFormed (Writable form)) :
    ∀ w ∈ labelWords form m, IsWord w := by
  rw [labelWords, List.forall_mem_append, List.forall_mem_cons, List.forall_mem_singleton]
  exact ⟨isWord_annotations (Parser.wellFormed_writtenAnnotations h), .name h.name,
    .mark (by decide)⟩

theorem isWord_braced {words : Member → List String} {ms : List Member}
    (h : ∀ m ∈ ms, ∀ w ∈ words m, IsWord w) :
    ∀ w ∈ "\x7b" :: (ms.flatMap words ++ ["\x7d"]), IsWord w := by
  rw [List.forall_mem_cons, List.forall_mem_append, List.forall_mem_flatMap,
    List.forall_mem_singleton]
  exact ⟨.mark (by decide), h, .mark (by decide)⟩

theorem isWord_bodyWords {b : Body} (h : b.WellFormed (Writable form)) :
    ∀ w ∈ bodyWords form b, IsWord w := by
  cases b with
  | struct ms => exact isWord_braced fun m hm => isWord_memberWords (h m hm)
  | union ms => exact isWord_braced fun m hm => isWord_memberWords (h m hm).1
  | enum ms => exact isWord_braced fun m hm => isWord_labelWords (h m hm).1
  | «alias» target => exact List.forall_mem_cons.mpr ⟨.mark (by decide), TypeExpr.Named.isWord h⟩
  | newtype target default =>
    rw [bodyWords, List.forall_mem_cons, List.forall_mem_append]
    exact ⟨.mark (by decide), h.1.isWord, isWord_defaultWords h.2⟩

theorem isWord_declWords {d : Decl} (h : d.WellFormed (Writable form)) :
    ∀ w ∈ declWords form d, IsWord w := by
  rw [declWords, List.forall_mem_append, List.forall_mem_cons, List.forall_mem_cons,
    List.forall_mem_append, List.forall_mem_append, List.forall_mem_singleton]
  exact ⟨isWord_annotations h.annotations, .name (Parser.isName_keywordOf d.body), .name h.name,
    isWord_paramWords h.typeParams, isWord_bodyWords h.body, .mark (by decide)⟩

theorem isWord_words {m : Module} (h : m.WellFormed (Writable form)) :
    ∀ w ∈ m.words form, IsWord w := by
  have himports : ∀ w ∈ m.imports.flatMap importWords, IsWord w :=
    List.forall_mem_flatMap.mpr fun i hi => (h.imports i hi).isWord
  have hdecls : ∀ w ∈ m.decls.flatMap (declWords form), IsWord w :=
    List.forall_mem_flatMap.mpr fun d hd => isWord_declWords (h.decls d hd)
  rw [Module.words, List.forall_mem_append, List.forall_mem_cons, List.forall_mem_append,
    List.forall_mem_cons, List.forall_mem_append, List.forall_mem_append, List.forall_mem_cons,
    List.forall_mem_singleton]
  exact ⟨isWord_annotations h.annotations, .name (by decide), h.name.isWord, .mark (by decide),
    himports, hdecls, .mark (by decide), .mark (by decide)⟩

/-! ### Reading what was written -/

/-- The literals that are written in a module. -/
def Module.literals (m : Module) : List Literal :=
  m.annotations.map (·.value) ++ m.decls.flatMap Decl.literals

/-- The floating point numbers that are written in a module. -/
def Module.doubles (m : Module) : List Double := m.literals.flatMap Literal.doubles

section

variable {P Q : Literal → Prop}

theorem Member.WellFormed.imp {m : Member} (h : m.WellFormed P)
    (hPQ : ∀ l ∈ m.literals, P l → Q l) : m.WellFormed Q := by
  rw [Member.literals, List.forall_mem_append, List.forall_mem_map] at hPQ
  refine ⟨h.name, h.type, fun l hl => ?_, fun a ha => ⟨(h.annotations a ha).name, ?_⟩⟩
  · exact hPQ.2 l (Option.mem_toList.mpr hl) (h.default l hl)
  · exact hPQ.1 a ha (h.annotations a ha).value

theorem Decl.WellFormed.imp {d : Decl} (h : d.WellFormed P)
    (hPQ : ∀ l ∈ d.literals, P l → Q l) : d.WellFormed Q := by
  rw [Decl.literals] at hPQ
  simp only [List.forall_mem_append, List.forall_mem_map, List.forall_mem_flatMap] at hPQ
  obtain ⟨⟨hannotations, hmembers⟩, hnewtype⟩ := hPQ
  refine ⟨h.name, h.typeParams, h.enumParams, fun a ha => ⟨(h.annotations a ha).name, ?_⟩, ?_⟩
  · exact hannotations a ha (h.annotations a ha).value
  have hbody := h.body
  rw [Decl.members] at hmembers
  cases hb : d.body with
  | struct ms =>
    rw [hb] at hbody hmembers
    exact fun m hm => (hbody m hm).imp (hmembers m hm)
  | union ms =>
    rw [hb] at hbody hmembers
    exact fun m hm => ⟨(hbody m hm).1.imp (hmembers m hm), (hbody m hm).2⟩
  | enum ms =>
    rw [hb] at hbody hmembers
    exact fun m hm => ⟨(hbody m hm).1.imp (hmembers m hm), (hbody m hm).2⟩
  | «alias» target =>
    rw [hb] at hbody
    exact hbody
  | newtype target default =>
    rw [hb] at hbody hnewtype
    exact ⟨hbody.1, fun l hl => hnewtype l (Option.mem_toList.mpr hl) (hbody.2 l hl)⟩

theorem Module.WellFormed.imp {m : Module} (h : m.WellFormed P)
    (hPQ : ∀ l ∈ m.literals, P l → Q l) : m.WellFormed Q := by
  rw [Module.literals, List.forall_mem_append, List.forall_mem_map] at hPQ
  refine ⟨h.name, h.imports, fun d hd => ?_, fun a ha => ⟨(h.annotations a ha).name, ?_⟩⟩
  · exact (h.decls d hd).imp (List.forall_mem_flatMap.mp hPQ.2 d hd)
  · exact hPQ.1 a ha (h.annotations a ha).value

end

/-- A module that was read once can be written if its floating point numbers can. -/
theorem writable_of_parse {tokens : List Token} {m : Module} (h : parse tokens = .ok m)
    (hform : ∀ d ∈ m.doubles, d.IsWrittenAs (form d)) : m.WellFormed (Writable form) :=
  (wellFormed_of_parse h).imp fun l hl hrange =>
    hrange.writable (List.forall_mem_flatMap.mp hform l hl)

/-- Writing a module and reading it again changes nothing but the places: whatever the tokens that
a module was read from, its text is scanned and parsed to the same module if the texts of its
floating point numbers have their values. -/
theorem ofText_render {tokens : List Token} {m : Module} (h : parse tokens = .ok m)
    (hform : ∀ d ∈ m.doubles, d.IsWrittenAs (form d)) (label : String) :
    ∃ m', ofText label (m.render form) = .ok m' ∧ m'.unplaced = m.unplaced := by
  have hm := writable_of_parse h hform
  obtain ⟨tokens', hscan, htexts⟩ := scan_spaced (isWord_words hm)
  have hfuel : (m.words form).length ≤ tokens'.list.length + 1 := by
    rw [← htexts, List.length_map]
    omega
  obtain ⟨m', rest, hrun, -, hm'⟩ := Parser.parses_module hm hfuel tokens'.list htexts
  refine ⟨m', ?_, hm'⟩
  rw [ofText, Module.render, hscan]
  dsimp only
  rw [parse, hrun]
  rfl

/-- The tokens of a module, not as it is written: an annotation has no value, one serialized name is
not given, and a key and a number have other forms. -/
def paletteTokens : List Token :=
  ["module", "art", "\x7b", "import", "ink", ".", "Ink", ";", "@", "Mixed", "struct", "Shade", "<",
    "T", ">", "\x7b", "Map", "<", "T", ",", "List", "<", "ink", ".", "Ink", ">", ">", "mix", "=",
    "\x7b", "\"a\\u0062\"", ":", "-0e7", ",", "\"ab\"", ":", "[", "]", "\x7d", ";", "\x7d", ";",
    "enum", "Tone", "\x7b", "@", "SerializedName", "\"\"", "@", "SerializedName", "true", "dark",
    ";", "\x7d", ";", "\x7d"].map fun text => ⟨text, .start⟩

/-- The zero with a minus sign. -/
def negativeZero : Double := ⟨true, 0, Nat.zero_le _⟩

/-- The module that `paletteTokens` is read as. -/
def palette : Module :=
  ⟨"art", [⟨"ink", .name "Ink", .start⟩],
    [⟨"Shade", ["T"], [⟨"Mixed", .null⟩], .struct
      [⟨"mix", "mix",
        .mk "Map" [.mk "T" [] .start, .mk "List" [.mk "ink.Ink" [] .start] .start] .start,
        some (.object [("ab", .double negativeZero), ("ab", .array [])]), [], .start⟩], .start⟩,
    ⟨"Tone", [], [], .enum
      [⟨"dark", "", .mk "Void" [] .start, none, [⟨"SerializedName", .boolean true⟩], .start⟩],
      .start⟩], []⟩

theorem isWrittenAs_negativeZero : negativeZero.IsWrittenAs (Layout.source.text negativeZero) := by
  have htext : Layout.source.text negativeZero = "-0.0" := by decide +kernel
  rw [htext]
  exact ⟨⟨true, ['0'], ['0'], [], []⟩, by decide, by decide, by decide, by decide +kernel⟩

/-- The module is read again from the text that it is written with. -/
theorem palette_render :
    (parse paletteTokens = .ok palette ∧
      ∀ d ∈ palette.doubles, d.IsWrittenAs (Layout.source.text d)) ∧
    ∃ m', ofText "art" (palette.render Layout.source.text) = .ok m' ∧
      m'.unplaced = palette.unplaced := by
  have hparse : parse paletteTokens = .ok palette := by cbv
  have hform : ∀ d ∈ palette.doubles, d.IsWrittenAs (Layout.source.text d) :=
    List.forall_mem_singleton.mpr isWrittenAs_negativeZero
  exact ⟨⟨hparse, hform⟩, ofText_render hparse hform "art"⟩

end Adl.Source
