import Adl.Number.Numeral
import Adl.Text.Blank
import Adl.Text.Word

/-!
# Lexeme — the pieces of a schema text

`lexeme?` cuts the next lexeme off a text: a comment, a quoted text, a number, a punctuation mark,
an identifier, or blanks.

* `lexeme?_append`: a lexeme and the rest make up the text.
* `lexeme?_ne_nil`: a lexeme is not empty.
-/

namespace Adl.Lexeme

/-! ### Lexemes -/

/-- The single characters that are lexemes. -/
def isPunctuation (c : Char) : Bool :=
  ['\x7b', '\x7d', '<', '>', '(', ')', '[', ']', ',', ';', '=', '@', '.', ':', '*'].contains c

/-- A quoted text behind its opening quote: up to the next quote without a backslash, on one
line. -/
def scanQuoted : List Char → Option (List Char × List Char)
  | [] => none
  | '"' :: rest => some (['"'], rest)
  | '\\' :: c :: rest =>
    if c = '\n' then none else (scanQuoted rest).map fun (s, r) => ('\\' :: c :: s, r)
  | c :: rest =>
    if c = '\n' ∨ c = '\\' then none else (scanQuoted rest).map fun (s, r) => (c :: s, r)

/-- The lexeme at the head of a text and the rest; `prev` is the character before the text.  An
identifier is a whole word: no word character touches it on either side. -/
def lexeme? (prev : Option Char) : List Char → Option (List Char × List Char)
  | [] => none
  | c :: cs =>
    if Text.isNameStart c then
      if prev.any Text.isWord || (cs.dropWhile Text.isNameChar).head?.any Text.isWord then none
      else some (c :: cs.takeWhile Text.isNameChar, cs.dropWhile Text.isNameChar)
    else if isPunctuation c then some ([c], cs)
    else if Text.isBlank c then some (c :: cs.takeWhile Text.isBlank, cs.dropWhile Text.isBlank)
    else if c = '"' then (scanQuoted cs).map fun (s, r) => ('"' :: s, r)
    else if c = '/' then
      if cs.head? = some '/' then
        some (c :: cs.takeWhile (· != '\n'), cs.dropWhile (· != '\n'))
      else none
    else (Numeral.scan? Text.isDigit (c :: cs)).map fun (n, rest) => (n.chars, rest)

/-- Whether a lexeme is a comment that documents what follows it. -/
def isDoc : List Char → Bool
  | '/' :: '/' :: '/' :: _ => true
  | _ => false

/-- Whether a lexeme means nothing to the grammar: blanks, and comments that document nothing. -/
def isDropped (lexeme : List Char) : Bool :=
  match lexeme with
  | [] => true
  | c :: _ => Text.isBlank c || (c == '/' && !isDoc lexeme)

/-! ### A lexeme and the rest make up the text -/

theorem scanQuoted_append {cs s r : List Char} (h : scanQuoted cs = some (s, r)) : s ++ r = cs := by
  fun_induction scanQuoted cs generalizing s r with
  | case1 => simp at h
  | case2 rest => simp only [Option.some.injEq, Prod.mk.injEq] at h; simp [← h.1, ← h.2]
  | case3 => simp at h
  | case4 c rest _ ih =>
    obtain ⟨⟨s', r'⟩, h', he⟩ := Option.map_eq_some_iff.1 h
    simp only [Prod.mk.injEq] at he
    simp [← he.1, ← he.2, ih h']
  | case5 => simp at h
  | case6 c rest _ _ _ ih =>
    obtain ⟨⟨s', r'⟩, h', he⟩ := Option.map_eq_some_iff.1 h
    simp only [Prod.mk.injEq] at he
    simp [← he.1, ← he.2, ih h']

theorem lexeme?_append {prev : Option Char} {cs lex rest : List Char}
    (h : lexeme? prev cs = some (lex, rest)) : lex ++ rest = cs := by
  unfold lexeme? at h
  split at h
  · simp at h
  · rename_i c cs
    split at h
    · split at h
      · simp at h
      · simp only [Option.some.injEq, Prod.mk.injEq] at h; simp [← h.1, ← h.2]
    · split at h
      · simp only [Option.some.injEq, Prod.mk.injEq] at h; simp [← h.1, ← h.2]
      · split at h
        · simp only [Option.some.injEq, Prod.mk.injEq] at h; simp [← h.1, ← h.2]
        · split at h
          · rename_i hq
            obtain ⟨⟨s, r⟩, h', he⟩ := Option.map_eq_some_iff.1 h
            simp only [Prod.mk.injEq] at he
            simp [← he.1, ← he.2, hq, scanQuoted_append h']
          · split at h
            · split at h
              · simp only [Option.some.injEq, Prod.mk.injEq] at h; simp [← h.1, ← h.2]
              · simp at h
            · obtain ⟨⟨n, r⟩, h', he⟩ := Option.map_eq_some_iff.1 h
              simp only [Prod.mk.injEq] at he
              rw [← he.1, ← he.2]
              exact Numeral.scan?_append h'

theorem lexeme?_ne_nil {prev : Option Char} {cs lex rest : List Char}
    (h : lexeme? prev cs = some (lex, rest)) : lex ≠ [] := by
  unfold lexeme? at h
  split at h
  · simp at h
  · split at h
    · split at h
      · simp at h
      · simp only [Option.some.injEq, Prod.mk.injEq] at h; simp [← h.1]
    · split at h
      · simp only [Option.some.injEq, Prod.mk.injEq] at h; simp [← h.1]
      · split at h
        · simp only [Option.some.injEq, Prod.mk.injEq] at h; simp [← h.1]
        · split at h
          · obtain ⟨⟨s, r⟩, h', he⟩ := Option.map_eq_some_iff.1 h
            simp only [Prod.mk.injEq] at he
            simp [← he.1]
          · split at h
            · split at h
              · simp only [Option.some.injEq, Prod.mk.injEq] at h; simp [← h.1]
              · simp at h
            · obtain ⟨⟨n, r⟩, h', he⟩ := Option.map_eq_some_iff.1 h
              simp only [Prod.mk.injEq] at he
              rw [← he.1]
              exact Numeral.scan?_ne_nil h'

theorem length_rest_lt {prev : Option Char} {cs lex rest : List Char}
    (h : lexeme? prev cs = some (lex, rest)) : rest.length < cs.length := by
  have hp := List.length_pos_iff.2 (lexeme?_ne_nil h)
  have ha := congrArg List.length (lexeme?_append h)
  simp only [List.length_append] at ha
  omega

end Adl.Lexeme
