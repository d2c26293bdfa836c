import Adl.Proofs.Number.Numeral
import Adl.Proofs.Text.Quoted
import Adl.Token.Lexeme

/-!
# Lexeme — what the first character of a text decides

The first character of a text tells the class of the lexeme there, since no character starts
lexemes of two classes.  For each class one equation says what is cut off: an identifier, a
punctuation mark, blanks, a quoted text, a comment, or a number.
-/

namespace Adl.Lexeme

variable {prev : Option Char} {c : Char} {cs rest : List Char}

/-! ### Classes of characters -/

theorem toNat_of_isNameStart (h : Text.isNameStart c) :
    (65 ≤ c.toNat ∧ c.toNat ≤ 90) ∨ (97 ≤ c.toNat ∧ c.toNat ≤ 122) ∨ c.toNat = 95 := by
  simp only [Text.isNameStart, Text.isAsciiLetter, Bool.or_eq_true, Bool.and_eq_true,
    decide_eq_true_eq, beq_iff_eq] at h
  rcases h with (h | h) | rfl
  · exact .inl h
  · exact .inr (.inl h)
  · exact .inr (.inr rfl)

/-- What holds of each single character that is a lexeme. -/
theorem of_isPunctuation {p : Char → Bool} (h : isPunctuation c)
    (hall : ['\x7b', '\x7d', '<', '>', '(', ')', '[', ']', ',', ';', '=', '@', '.', ':',
      '*'].all p) : p c :=
  List.all_eq_true.mp hall c (List.contains_iff_mem.mp h)

theorem not_isNameStart_of_isPunctuation (h : isPunctuation c) : Text.isNameStart c = false := by
  have hnot := of_isPunctuation (p := fun c => !Text.isNameStart c) h (by decide)
  simpa using hnot

theorem not_isPunctuation_of_isBlank (h : Text.isBlank c) : isPunctuation c = false := by
  rw [← Bool.not_eq_true]
  intro hc
  have hnot := of_isPunctuation (p := fun c => !Text.isBlank c) hc (by decide)
  rw [h] at hnot
  cases hnot

theorem not_isBlank_of_isNameStart (h : Text.isNameStart c) : Text.isBlank c = false := by
  have hrange := toNat_of_isNameStart h
  simp only [Text.isBlank, Text.inRanges, Text.blankRanges, List.any_cons, List.any_nil,
    Bool.or_false, Bool.or_eq_false_iff, Bool.and_eq_false_iff, decide_eq_false_iff_not]
  omega

theorem not_isNameStart_of_isBlank (h : Text.isBlank c) : Text.isNameStart c = false := by
  by_contra hc
  rw [Bool.not_eq_false] at hc
  exact absurd h (by simp [not_isBlank_of_isNameStart hc])

/-- A character that starts a number starts no other lexeme. -/
theorem classes_of_number (h : c = '-' ∨ Text.isAsciiDigit c) :
    Text.isNameStart c = false ∧ isPunctuation c = false ∧ Text.isBlank c = false ∧ c ≠ '"' ∧
      c ≠ '/' := by
  rcases h with rfl | h
  · decide
  simp only [Text.isAsciiDigit, Bool.and_eq_true, decide_eq_true_eq] at h
  have hall : ∀ n < 58, 48 ≤ n → Text.isNameStart (Char.ofNat n) = false ∧
      isPunctuation (Char.ofNat n) = false ∧ Text.isBlank (Char.ofNat n) = false ∧
      Char.ofNat n ≠ '"' ∧ Char.ofNat n ≠ '/' := by decide
  simpa using hall c.toNat (by omega) h.1

/-! ### One equation for each class -/

/-- An identifier is cut off between characters that are in no word. -/
theorem lexeme?_name (hc : Text.isNameStart c) (hcs : ∀ d ∈ cs, Text.isNameChar d)
    (hprev : ∀ d ∈ prev, ¬ Text.isWord d) (hrest : ∀ d ∈ rest.head?, ¬ Text.isWord d) :
    lexeme? prev (c :: (cs ++ rest)) = some (c :: cs, rest) := by
  have hchar : ∀ d ∈ rest.head?, ¬ Text.isNameChar d :=
    fun d hd h => hrest d hd (Text.isWord_of_isNameChar h)
  obtain ⟨htake, hdrop⟩ := takeWhile_append_eq hcs hchar
  have hout : (prev.any Text.isWord || rest.head?.any Text.isWord) = false := by
    rw [Bool.or_eq_false_iff, Option.any_eq_false, Option.any_eq_false]
    exact ⟨fun d hd => by simpa using hprev d hd, fun d hd => by simpa using hrest d hd⟩
  rw [lexeme?, if_pos hc, hdrop, hout, htake]
  rfl

theorem lexeme?_mark (hc : isPunctuation c) (cs : List Char) :
    lexeme? prev (c :: cs) = some ([c], cs) := by
  rw [lexeme?, not_isNameStart_of_isPunctuation hc, if_neg Bool.false_ne_true, if_pos hc]

theorem lexeme?_blank (hc : Text.isBlank c) (cs : List Char) :
    lexeme? prev (c :: cs) =
      some (c :: cs.takeWhile Text.isBlank, cs.dropWhile Text.isBlank) := by
  rw [lexeme?, not_isNameStart_of_isBlank hc, if_neg Bool.false_ne_true,
    not_isPunctuation_of_isBlank hc, if_neg Bool.false_ne_true, if_pos hc]

theorem lexeme?_slash (cs : List Char) :
    lexeme? prev ('/' :: cs) =
      if cs.head? = some '/' then some ('/' :: cs.takeWhile (· != '\n'), cs.dropWhile (· != '\n'))
      else none := by
  rfl

/-- A character that neither ends a quoted text nor escapes the next one is part of it. -/
theorem scanQuoted_plain (hquote : c ≠ '"') (hback : c ≠ '\\') (hline : c ≠ '\n')
    (cs : List Char) : scanQuoted (c :: cs) = (scanQuoted cs).map fun x => (c :: x.1, x.2) := by
  rw [scanQuoted, if_neg (by simp [hline, hback])]
  · exact hquote
  · exact fun _ _ h => absurd h hback

theorem scanQuoted_escape (hline : c ≠ '\n') (cs : List Char) :
    scanQuoted ('\\' :: c :: cs) = (scanQuoted cs).map fun x => ('\\' :: c :: x.1, x.2) := by
  rw [scanQuoted, if_neg hline]

/-- The digits of a unit are part of a quoted text. -/
theorem scanQuoted_digits {cs : List Char} (h : ∀ c ∈ cs, Text.hexValue? c ≠ none)
    (rest : List Char) :
    scanQuoted (cs ++ rest) = (scanQuoted rest).map fun x => (cs ++ x.1, x.2) := by
  have plain {d e : Char} (hd : Text.hexValue? d ≠ none) (he : Text.hexValue? e = none) : d ≠ e :=
    fun hde => hd (hde ▸ he)
  induction cs with
  | nil => simp
  | cons c cs ih =>
    rw [List.forall_mem_cons] at h
    rw [List.cons_append, scanQuoted_plain (plain h.1 rfl) (plain h.1 rfl) (plain h.1 rfl),
      ih h.2, Option.map_map]
    rfl

theorem scanQuoted_unit {a b c d : Char} {u : Nat} (h : Text.unit? a b c d = some u)
    (cs : List Char) : scanQuoted ('\\' :: 'u' :: a :: b :: c :: d :: cs) =
      (scanQuoted cs).map fun x => ('\\' :: 'u' :: a :: b :: c :: d :: x.1, x.2) := by
  have hdigits : scanQuoted ([a, b, c, d] ++ cs) = _ :=
    scanQuoted_digits (fun _ he => Text.hexValue?_ne_none h he) cs
  simp only [List.cons_append, List.nil_append] at hdigits
  rw [scanQuoted_escape (by decide), hdigits, Option.map_map]
  rfl

/-- Each form in which a character may be written is part of a quoted text. -/
theorem scanQuoted_piece {form : List Char} (h : Text.Piece form c) (cs : List Char) :
    scanQuoted (form ++ cs) = (scanQuoted cs).map fun x => (form ++ x.1, x.2) := by
  cases h with
  | plain hcontrol hquote hback =>
    have hline : c ≠ '\n' := by
      rintro rfl
      exact hcontrol (by decide)
    exact scanQuoted_plain hquote hback hline cs
  | @short d _ h =>
    have hline : d ≠ '\n' := by
      rintro rfl
      exact absurd h (Option.some_ne_none _).symm
    exact scanQuoted_escape hline cs
  | unit hu => exact scanQuoted_unit hu cs
  | pair hu _ _ hv =>
    simp only [List.cons_append, List.nil_append]
    rw [scanQuoted_unit hu, scanQuoted_unit hv, Option.map_map]
    rfl

/-- A text that denotes characters is cut off together with the quote behind it. -/
theorem scanQuoted_denoted {body : List Char} (h : Text.Denotation body cs)
    (rest : List Char) : scanQuoted (body ++ '"' :: rest) = some (body ++ ['"'], rest) := by
  induction h with
  | nil => rfl
  | cons hform _ ih => rw [List.append_assoc, scanQuoted_piece hform, ih, Option.map_some,
      List.append_assoc]

theorem lexeme?_denoted {body : List Char} (h : Text.Denotation body cs) (rest : List Char) :
    lexeme? prev ('"' :: (body ++ '"' :: rest)) = some ('"' :: (body ++ ['"']), rest) := by
  show (scanQuoted (body ++ '"' :: rest)).map (fun x => ('"' :: x.1, x.2)) = _
  rw [scanQuoted_denoted h]
  rfl

theorem lexeme?_quote (s : List Char) (rest : List Char) :
    lexeme? prev (Text.quoteChars s ++ rest) = some (Text.quoteChars s, rest) := by
  rw [Text.quoteChars, List.cons_append, List.append_assoc, List.singleton_append]
  exact lexeme?_denoted (Text.denotation_flatMap s) rest

/-- A number is cut off as it is scanned. -/
theorem lexeme?_number {n : Numeral} (hc : c = '-' ∨ Text.isAsciiDigit c)
    (h : Numeral.scan? Text.isDigit (c :: cs) = some (n, rest)) :
    lexeme? prev (c :: cs) = some (n.chars, rest) := by
  obtain ⟨hname, hmark, hblank, hquote, hslash⟩ := classes_of_number hc
  simp only [lexeme?, hname, hmark, hblank, Bool.false_eq_true, if_false, hquote, hslash, h,
    Option.map_some]

end Adl.Lexeme
