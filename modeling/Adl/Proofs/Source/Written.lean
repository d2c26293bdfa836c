import Adl.Proofs.Token.Lossless

/-!
# Written — modules as texts

A module is written as a list of words, one for each token (`Module.words`), and these are put into
a text with as few blanks as their borders allow (`spaced`).  Floating point numbers are written by
a parameter, which is only asked for the texts that occur: they have to be numbers with a fraction
or an exponent that have the right value (`Double.IsWrittenAs`).
-/

namespace Adl

/-! ### Numbers -/

/-- The text is a number, but no integer, and has this value. -/
def Double.IsWrittenAs (d : Double) (text : String) : Prop :=
  ∃ n, Numeral.scan? Text.isDigit text.toList = some (n, []) ∧ n.isInteger = false ∧
    n.hasValue = true ∧ n.toDouble = d

namespace Literal

mutual

/-- The floating point numbers in a literal. -/
def doubles : Literal → List Double
  | null => []
  | integer _ => []
  | double d => [d]
  | string _ => []
  | boolean _ => []
  | array items => itemDoubles items
  | object entries => entryDoubles entries

/-- The floating point numbers in a list of literals. -/
def itemDoubles : List Literal → List Double
  | [] => []
  | item :: items => doubles item ++ itemDoubles items

/-- The floating point numbers in a list of entries. -/
def entryDoubles : List (String × Literal) → List Double
  | [] => []
  | (_, value) :: entries => doubles value ++ entryDoubles entries

end

end Literal

namespace Source

/-! ### Words -/

/-- Whether a text is an identifier. -/
def isName (text : String) : Bool :=
  match text.toList with
  | c :: cs => Text.isNameStart c && cs.all Text.isNameChar
  | [] => false

/-- Whether a text is a punctuation mark. -/
def isMark (text : String) : Bool :=
  match text.toList with
  | [c] => Lexeme.isPunctuation c
  | _ => false

/-- Items between brackets, with commas between them. -/
def enclosed (opening closing : String) (items : List (List String)) : List String :=
  opening :: ([","].intercalate items ++ [closing])

/-- The names that a dotted name is made of. -/
def partsOf (name : String) : List String := (name.toList.splitOn '.').map String.ofList

/-- The words of a dotted name. -/
def nameWords (name : String) : List String := (partsOf name).intersperse "."

section

variable (form : Double → String)

mutual

/-- The words of a literal. -/
def literalWords : Literal → List String
  | .null => ["null"]
  | .integer i => [toString i]
  | .double d => [form d]
  | .string s => [Text.quote s]
  | .boolean b => [if b then "true" else "false"]
  | .array items => enclosed "[" "]" (itemWords items)
  | .object entries => enclosed "\x7b" "\x7d" (entryWords entries)

/-- The words of each literal of a list. -/
def itemWords : List Literal → List (List String)
  | [] => []
  | item :: items => literalWords item :: itemWords items

/-- The words of each entry of a list. -/
def entryWords : List (String × Literal) → List (List String)
  | [] => []
  | (key, value) :: entries => (Text.quote key :: ":" :: literalWords value) :: entryWords entries

end

mutual

/-- The words of a type: without arguments it is only a name. -/
def typeWords : TypeExpr → List String
  | .mk name args _ =>
    nameWords name ++ if args.isEmpty then [] else enclosed "<" ">" (argWords args)

/-- The words of each type of a list. -/
def argWords : List TypeExpr → List (List String)
  | [] => []
  | t :: ts => typeWords t :: argWords ts

end

/-- The words of the type parameters of a declaration. -/
def paramWords (params : List String) : List String :=
  if params.isEmpty then [] else enclosed "<" ">" (params.map ([·]))

/-- The words of an annotation; its value is written in any case. -/
def annotationWords (a : AnnotationEntry) : List String :=
  "@" :: (nameWords a.name ++ literalWords form a.value)

/-- The words of an import. -/
def importWords (i : Import) : List String :=
  "import" :: (nameWords i.module ++
    [".", match i.kind with | .all => "*" | .name name => name, ";"])

/-- The words of a default. -/
def defaultWords : Option Literal → List String
  | none => []
  | some l => "=" :: literalWords form l

/-- The annotations of a member as they are written: the serialized name is the first one. -/
def writtenAnnotations (m : Member) : List AnnotationEntry :=
  ⟨"SerializedName", .string m.serializedName⟩ :: m.annotations

/-- The words of a field or an alternative. -/
def memberWords (m : Member) : List String :=
  (writtenAnnotations m).flatMap (annotationWords form) ++
    (typeWords m.type ++ m.name :: (defaultWords form m.default ++ [";"]))

/-- The words of a label. -/
def labelWords (m : Member) : List String :=
  (writtenAnnotations m).flatMap (annotationWords form) ++ [m.name, ";"]

/-- The keyword of a declaration. -/
def keywordOf : Body → String
  | .struct _ => "struct"
  | .union _ => "union"
  | .enum _ => "enum"
  | .alias _ => "type"
  | .newtype _ _ => "newtype"

/-- The words of the body of a declaration. -/
def bodyWords : Body → List String
  | .struct members => "\x7b" :: (members.flatMap (memberWords form) ++ ["\x7d"])
  | .union members => "\x7b" :: (members.flatMap (memberWords form) ++ ["\x7d"])
  | .enum members => "\x7b" :: (members.flatMap (labelWords form) ++ ["\x7d"])
  | .alias target => "=" :: typeWords target
  | .newtype target default => "=" :: (typeWords target ++ defaultWords form default)

/-- The words of a declaration. -/
def declWords (d : Decl) : List String :=
  d.annotations.flatMap (annotationWords form) ++
    (keywordOf d.body :: d.name :: (paramWords d.typeParams ++ (bodyWords form d.body ++ [";"])))

/-- The words of a module. -/
def Module.words (m : Module) : List String :=
  m.annotations.flatMap (annotationWords form) ++
    ("module" :: (nameWords m.name ++ "\x7b" ::
      (m.imports.flatMap importWords ++ (m.decls.flatMap (declWords form) ++ ["\x7d", ";"]))))

end

/-! ### Texts -/

/-- Whether two words may stand side by side without a blank: one of them is a mark, but a point
touches only names. -/
def touches (v w : String) : Bool := isMark v || (isMark w && (isName v || w != "."))

/-- The blanks behind a word in front of other words. -/
def gapBefore (v : String) : List String → List Char
  | [] => []
  | w :: _ => if touches v w then [] else [' ']

/-- The words in a row, with blanks where they are needed. -/
def spaced : List String → List Char
  | [] => []
  | w :: ws => w.toList ++ (gapBefore w ws ++ spaced ws)

/-- The text of a module. -/
def Module.render (form : Double → String) (m : Module) : String :=
  String.ofList (spaced (m.words form))

/-! ### Words that are lexemes -/

/-- A text that is a lexeme by itself and is no comment. -/
inductive IsWord : String → Prop
  | name {w : String} (h : isName w) : IsWord w
  | mark {w : String} (h : isMark w) : IsWord w
  | quoted (s : String) : IsWord (Text.quote s)
  | number {w : String} {n : Numeral} (h : Numeral.scan? Text.isDigit w.toList = some (n, []))
      (hvalue : n.hasValue) : IsWord w

theorem isName_iff {w : String} :
    isName w ↔ ∃ c cs, w.toList = c :: cs ∧ Text.isNameStart c ∧ ∀ d ∈ cs, Text.isNameChar d := by
  unfold isName
  split
  · next c cs h => simp [h]
  · next h => simp [h]

theorem isMark_iff {w : String} : isMark w ↔ ∃ c, w.toList = [c] ∧ Lexeme.isPunctuation c := by
  unfold isMark
  split
  · next c h => simp [h]
  · next h =>
    simp only [Bool.false_eq_true, false_iff, not_exists, not_and]
    exact fun c hc => absurd hc (h c)

/-- The first character of a number is a minus sign or a digit. -/
theorem head_of_scan? {c : Char} {cs : List Char} {n : Numeral} {rest : List Char}
    (h : Numeral.scan? Text.isDigit (c :: cs) = some (n, rest)) (hvalue : n.hasValue) :
    c = '-' ∨ Text.isAsciiDigit c := by
  by_cases hc : c = '-'
  · exact .inl hc
  have hsign : Numeral.scanSign (c :: cs) = (false, c :: cs) := by
    rw [Numeral.scanSign]
    exact fun _ h => hc (List.cons.inj h).1
  rw [Numeral.scan?, hsign] at h
  dsimp only at h
  split at h
  · cases h
  next hdigits =>
  obtain ⟨rfl, -⟩ := Prod.mk.inj (Option.some.inj h)
  simp only [Numeral.hasValue, Bool.and_eq_true, List.all_eq_true] at hvalue
  have hdigit : Text.isDigit c := by
    by_contra hdigit
    exact hdigits (by simp [hdigit])
  exact .inr (hvalue.1.1 c (by simp [hdigit]))

/-- What a word does not start with. -/
theorem IsWord.head {w : String} (h : IsWord w) :
    ∃ c cs, w.toList = c :: cs ∧ Text.isBlank c = false ∧ c ≠ '/' := by
  cases h with
  | name h =>
    obtain ⟨c, cs, hw, hc, -⟩ := isName_iff.mp h
    refine ⟨c, cs, hw, Lexeme.not_isBlank_of_isNameStart hc, ?_⟩
    rintro rfl
    exact absurd hc (by decide)
  | mark h =>
    obtain ⟨c, hw, hc⟩ := isMark_iff.mp h
    refine ⟨c, [], hw, ?_, ?_⟩
    · by_contra hblank
      rw [Bool.not_eq_false] at hblank
      exact absurd hc (by simp [Lexeme.not_isPunctuation_of_isBlank hblank])
    · rintro rfl
      exact absurd hc (by decide)
  | quoted s => exact ⟨'"', _, String.toList_ofList, by decide, by decide⟩
  | @number w n h hvalue =>
    cases hw : w.toList with
    | nil =>
      rw [hw] at h
      cases h
    | cons c cs =>
      rw [hw] at h
      obtain ⟨-, -, hblank, -, hslash⟩ := Lexeme.classes_of_number (head_of_scan? h hvalue)
      exact ⟨c, cs, rfl, hblank, hslash⟩

/-! ### Words side by side -/

/-- A mark neither goes on with a word nor with a number, unless it is a point. -/
theorem not_isWord_of_isPunctuation {c : Char} (h : Lexeme.isPunctuation c) :
    Text.isWord c = false ∧ Text.isDigit c = false ∧ c ∉ ['e', 'E', '+', '-'] := by
  have hnot := Lexeme.of_isPunctuation
    (p := fun c => !Text.isWord c && !Text.isDigit c && !(['e', 'E', '+', '-'].contains c)) h
    (by decide +kernel)
  simp only [Bool.and_eq_true, Bool.not_eq_true', List.contains_eq_mem, decide_eq_false_iff_not]
    at hnot
  exact ⟨hnot.1.1, hnot.1.2, hnot.2⟩

/-- What stands behind a word does not go on with it. -/
structure Ends (w : String) (rest : List Char) : Prop where
  name : isName w → ∀ c ∈ rest.head?, ¬ Text.isWord c
  number : ¬ isName w → ¬ isMark w → Numeral.Closed Text.isDigit rest

theorem ends_nil (w : String) : Ends w [] := ⟨fun _ _ h => (nomatch h), fun _ _ _ h => (nomatch h)⟩

theorem ends_blank (w : String) (rest : List Char) : Ends w (' ' :: rest) := by
  have hblank : Text.isWord ' ' = false ∧ Text.isDigit ' ' = false ∧
      ' ' ∉ ['.', 'e', 'E', '+', '-'] := by decide +kernel
  constructor
  · rintro - _ ⟨⟩
    simp [hblank.1]
  · rintro - - _ ⟨⟩
    exact hblank.2

theorem ends_mark {v w : String} (hw : isMark w) (hv : isName v ∨ w ≠ ".") (rest : List Char) :
    Ends v (w.toList ++ rest) := by
  obtain ⟨c, hc, hmark⟩ := isMark_iff.mp hw
  obtain ⟨hword, hdigit, hpart⟩ := not_isWord_of_isPunctuation hmark
  rw [hc]
  constructor
  · rintro - _ ⟨⟩
    simp [hword]
  · rintro hname - _ ⟨⟩
    refine ⟨hdigit, ?_⟩
    rw [List.mem_cons, not_or]
    refine ⟨?_, hpart⟩
    rintro rfl
    exact (hv.resolve_left hname) (String.toList_inj.mp hc)

theorem ends_gapBefore {v : String} (ws : List String) (hv : ¬ isMark v) :
    Ends v (gapBefore v ws ++ spaced ws) := by
  cases ws with
  | nil => exact ends_nil v
  | cons w ws =>
    rw [gapBefore, spaced]
    by_cases h : touches v w
    · rw [if_pos h, List.nil_append]
      simp only [touches, Bool.or_eq_true, Bool.and_eq_true, bne_iff_ne] at h
      obtain ⟨hw, hname⟩ := h.resolve_left hv
      exact ends_mark hw hname _
    · rw [if_neg h]
      exact ends_blank v _

/-- A word is cut off in front of what does not go on with it. -/
theorem IsWord.lexeme? {w : String} (h : IsWord w) {prev : Option Char} {rest : List Char}
    (hprev : isName w → ∀ c ∈ prev, ¬ Text.isWord c) (hrest : ¬ isMark w → Ends w rest) :
    Lexeme.lexeme? prev (w.toList ++ rest) = some (w.toList, rest) := by
  by_cases hmark : isMark w
  · obtain ⟨c, hw, hc⟩ := isMark_iff.mp hmark
    rw [hw]
    exact Lexeme.lexeme?_mark hc rest
  have hends := hrest hmark
  cases h with
  | name h =>
    obtain ⟨c, cs, hw, hc, hcs⟩ := isName_iff.mp h
    rw [hw]
    exact Lexeme.lexeme?_name hc hcs (hprev h) (hends.name h)
  | mark h => exact absurd h hmark
  | quoted s =>
    rw [Text.quote, String.toList_ofList]
    exact Lexeme.lexeme?_quote s.toList rest
  | @number w n h hvalue =>
    have hchars := Numeral.scan?_append h
    rw [List.append_nil] at hchars
    cases hw : w.toList with
    | nil =>
      rw [hw] at h
      cases h
    | cons c cs =>
      rw [hw] at h hchars
      have hhead := head_of_scan? h hvalue
      have hname : ¬ isName w := by
        intro hname
        obtain ⟨c', cs', hw', hc', -⟩ := isName_iff.mp hname
        rw [hw] at hw'
        obtain ⟨rfl, -⟩ := List.cons.inj hw'
        exact absurd hc' (by simp [(Lexeme.classes_of_number hhead).1])
      have hscan := Numeral.scan?_closed (hends.number hname hmark) h
      rw [← hchars]
      rw [List.cons_append] at hscan
      rw [hchars]
      exact (Lexeme.lexeme?_number hhead hscan).trans (by rw [hchars])

/-! ### Scanning -/

open Token (Cut kept)

theorem isDropped_word {w : String} (h : IsWord w) : Lexeme.isDropped w.toList = false := by
  obtain ⟨c, cs, hw, hblank, hslash⟩ := h.head
  simp [Lexeme.isDropped, hw, hblank, hslash]

theorem head_spaced {words : List String} (hwords : ∀ w ∈ words, IsWord w) :
    ∀ c ∈ (spaced words).head?, ¬ Text.isBlank c := by
  cases words with
  | nil => exact fun _ h => nomatch h
  | cons w ws =>
    obtain ⟨c, cs, hw, hblank, -⟩ := (hwords w List.mem_cons_self).head
    rw [spaced, hw]
    rintro _ ⟨⟩
    simp [hblank]

theorem gapBefore_cases (w : String) (ws : List String) :
    gapBefore w ws = [] ∨ gapBefore w ws = [' '] := by
  cases ws with
  | nil => exact .inl rfl
  | cons v ws => exact (ite_eq_or_eq _ _ _)

/-- A blank between words is cut off and dropped. -/
theorem exists_cut_gap {gap before rest : List Char} {lexemes : List (List Char)}
    (hgap : gap = [] ∨ gap = [' ']) (hrest : ∀ c ∈ rest.head?, ¬ Text.isBlank c)
    (h : Cut (before ++ gap) rest lexemes []) :
    ∃ lexemes', Cut before (gap ++ rest) lexemes' [] ∧
      kept before lexemes' = kept (before ++ gap) lexemes := by
  rcases hgap with rfl | rfl
  · rw [List.append_nil] at h ⊢
    exact ⟨lexemes, h, rfl⟩
  · have hnone : ∀ c ∈ ([] : List Char), Text.isBlank c := fun _ h => nomatch h
    obtain ⟨htake, hdrop⟩ := takeWhile_append_eq hnone hrest
    rw [List.nil_append] at htake hdrop
    have hlexeme : Lexeme.lexeme? before.getLast? (' ' :: rest) =
        some (' ' :: rest.takeWhile Text.isBlank, rest.dropWhile Text.isBlank) :=
      Lexeme.lexeme?_blank (by decide) rest
    rw [htake, hdrop] at hlexeme
    exact ⟨[' '] :: lexemes, .cons hlexeme h, rfl⟩

/-- No name follows a word character. -/
theorem not_isWord_before {w : String} {ws : List String} (before : List Char) :
    ∀ v ∈ ws.head?, isName v →
      ∀ c ∈ (before ++ w.toList ++ gapBefore w ws).getLast?, ¬ Text.isWord c := by
  cases ws with
  | nil => exact fun _ h => nomatch h
  | cons v ws =>
    rintro _ ⟨⟩ hname c hc
    rw [gapBefore] at hc
    split at hc
    · next htouches =>
      have hmark : isMark v = false := by
        obtain ⟨d, ds, hv, hd, -⟩ := isName_iff.mp hname
        by_contra hmark
        rw [Bool.not_eq_false] at hmark
        obtain ⟨e, hv', he⟩ := isMark_iff.mp hmark
        rw [hv'] at hv
        obtain ⟨rfl, -⟩ := List.cons.inj hv
        exact absurd hd (by simp [Lexeme.not_isNameStart_of_isPunctuation he])
      rw [touches, hmark, Bool.false_and, Bool.or_false] at htouches
      obtain ⟨d, hw, hd⟩ := isMark_iff.mp htouches
      rw [List.append_nil, hw, List.getLast?_concat] at hc
      obtain rfl := Option.some.inj hc
      simp [(not_isWord_of_isPunctuation hd).1]
    · rw [List.getLast?_concat] at hc
      obtain rfl := Option.some.inj hc
      exact by decide +kernel

/-- Words in a row are cut apart again. -/
theorem exists_cut_spaced {words : List String} (hwords : ∀ w ∈ words, IsWord w)
    (before : List Char)
    (hbefore : ∀ w ∈ words.head?, isName w → ∀ c ∈ before.getLast?, ¬ Text.isWord c) :
    ∃ lexemes, Cut before (spaced words) lexemes [] ∧
      (kept before lexemes).map Token.text = words := by
  induction words generalizing before with
  | nil => exact ⟨[], .nil _ _, rfl⟩
  | cons w ws ih =>
    rw [List.forall_mem_cons] at hwords
    obtain ⟨hw, hws⟩ := hwords
    obtain ⟨lexemes, hcut, htexts⟩ := ih hws _ (not_isWord_before (w := w) before)
    obtain ⟨lexemes', hcut', hkept⟩ :=
      exists_cut_gap (gapBefore_cases w ws) (head_spaced hws) hcut
    have hlexeme := hw.lexeme? (hbefore w rfl) (ends_gapBefore ws)
    refine ⟨w.toList :: lexemes', .cons hlexeme hcut', ?_⟩
    rw [kept, isDropped_word hw, if_neg Bool.false_ne_true, List.map_cons, String.ofList_toList,
      hkept, htexts]

/-- The tokens of words in a row are these words. -/
theorem scan_spaced {words : List String} (hwords : ∀ w ∈ words, IsWord w) :
    ∃ tokens, Token.scan (String.ofList (spaced words)) = .ok tokens ∧
      tokens.list.map Token.text = words := by
  obtain ⟨lexemes, hcut, htexts⟩ :=
    exists_cut_spaced hwords [] (fun _ _ _ _ h => nomatch h)
  refine ⟨_, Token.scan_of_cut ?_, htexts⟩
  rw [String.toList_ofList]
  exact hcut

end Source

end Adl
