import Adl.Proofs.Source.Taken
import Adl.Proofs.Token.Spacing

/-!
# Strings — quoted texts as tokens and as literals

Three readers see a quoted text: the scanner cuts it off up to the first quote that no backslash
stands before, the parser takes it for a string literal, and the decoder takes the characters that
it denotes up to the first quote that belongs to none of them.  They agree: a token is read as a
string if and only if it consists of quotes around a text that denotes the string
(`readsAs_iff_of_scan`), and each such text is one token by itself (`scan_between`).
-/

namespace Adl

namespace Text

variable {body cs : List Char}

/-- A text between quotes. -/
def between (body : List Char) : String := String.ofList ('"' :: (body ++ ['"']))

theorem quote_eq_between (s : String) : quote s = between (s.toList.flatMap escapeChar) := rfl

theorem toList_between (body : List Char) : (between body).toList = '"' :: (body ++ ['"']) :=
  String.toList_ofList

/-- No form of a character contains a line break. -/
theorem Piece.not_mem_lineBreak {form : List Char} {c : Char} (h : Piece form c) :
    '\n' ∉ form := by
  have hunit {a b c d : Char} {u : ℕ} (h : unit? a b c d = some u) :
      '\n' ∉ ['\\', 'u', a, b, c, d] := by
    have hdigits : '\n' ∉ [a, b, c, d] := fun hmem => hexValue?_ne_none h hmem rfl
    simpa using hdigits
  cases h with
  | plain hcontrol =>
    rw [List.mem_singleton]
    rintro rfl
    exact hcontrol (by decide)
  | @short d _ h =>
    have hd : '\n' ≠ d := by
      rintro rfl
      exact absurd h (Option.some_ne_none _).symm
    simp [hd]
  | unit hu => exact hunit hu
  | pair hu _ _ hv =>
    intro hmem
    rcases (List.mem_append (s := ['\\', 'u', _, _, _, _])).mp hmem with hmem | hmem
    · exact hunit hu hmem
    · exact hunit hv hmem

theorem Denotation.not_mem_lineBreak (h : Denotation body cs) : '\n' ∉ body := by
  induction h with
  | nil => exact List.not_mem_nil
  | cons hform _ ih =>
    rw [List.mem_append, not_or]
    exact ⟨hform.not_mem_lineBreak, ih⟩

theorem unquote_between {s : String} (h : Denotation body s.toList) :
    unquote (between body) = .ok s := by
  rw [unquote, toList_between, List.drop_one, List.tail_cons, unquoteRest_denoted h]
  exact congrArg Except.ok String.ofList_toList

/-- The decoder stops where the scanner does. -/
theorem exists_between_of_unquote {w s : String} {rest : List Char}
    (hquoted : w.toList = '"' :: rest) (hscan : Lexeme.scanQuoted rest = some (rest, []))
    (h : unquote w = .ok s) : ∃ body, w = between body ∧ Denotation body s.toList := by
  rw [unquote, hquoted, List.drop_one, List.tail_cons] at h
  cases hread : unquoteRest 1 rest with
  | error e =>
    rw [hread] at h
    cases h
  | ok x =>
    obtain ⟨cs, left⟩ := x
    rw [hread] at h
    cases h
    obtain ⟨body, rfl, hbody⟩ := unquoteRest_eq_ok_iff.mp hread
    rw [Lexeme.scanQuoted_denoted hbody] at hscan
    obtain ⟨-, rfl⟩ := Prod.mk.inj (Option.some.inj hscan)
    refine ⟨body, ?_, by rwa [String.toList_ofList]⟩
    rw [between, ← hquoted, String.ofList_toList]

end Text

/-- Behind a text without line breaks the first line goes on. -/
theorem Position.behind_of_not_mem {cs : List Char} (h : '\n' ∉ cs) :
    behind cs = ⟨1, cs.length + 1⟩ := by
  have hwhile : cs.rtakeWhile (· != '\n') = cs := by
    rw [List.rtakeWhile_eq_self_iff]
    intro c hc
    rw [bne_iff_ne]
    rintro rfl
    exact h hc
  rw [behind, hwhile, List.count_eq_zero_of_not_mem h, Nat.add_comm 1 cs.length]

namespace Token

variable {body cs : List Char} {t : Token}

/-- A text between quotes that denotes characters is one token. -/
theorem scan_between (h : Text.Denotation body cs) : scan (Text.between body) =
    .ok ⟨[⟨Text.between body, .start⟩], ⟨1, (Text.between body).length + 1⟩⟩ := by
  have hlexeme : Lexeme.lexeme? none ('"' :: (body ++ ['"'])) = some ('"' :: (body ++ ['"']), []) :=
    Lexeme.lexeme?_denoted h []
  have hcut : Cut [] (Text.between body).toList [(Text.between body).toList] [] := by
    rw [Text.toList_between]
    exact .cons hlexeme (.nil _ _)
  have hline : '\n' ∉ (Text.between body).toList := by
    simp [Text.toList_between, h.not_mem_lineBreak]
  have hdropped : Lexeme.isDropped (Text.between body).toList = false := by
    rw [Text.toList_between]
    rfl
  rw [scan_of_cut hcut, kept, hdropped, if_neg Bool.false_ne_true, kept, String.ofList_toList,
    Position.behind_of_not_mem hline]
  rfl

/-- A quoted token ends where the scanner stops in its text. -/
theorem IsToken.scanQuoted {w : String} {rest : List Char} (h : IsToken w)
    (hquoted : w.toList = '"' :: rest) : Lexeme.scanQuoted rest = some (rest, []) := by
  obtain ⟨prev, cs, left, hlexeme, -⟩ := h
  rw [hquoted] at hlexeme
  obtain rfl := Lexeme.lexeme?_append hlexeme
  obtain ⟨⟨s, r⟩, hscan, he⟩ := Option.map_eq_some_iff.mp
    (show (Lexeme.scanQuoted (rest ++ left)).map (fun x => ('"' :: x.1, x.2)) = _ from hlexeme)
  cases he
  have hagain := Lexeme.scanQuoted_again hscan []
  rwa [List.append_nil] at hagain

end Token

namespace Source

namespace Parser

variable {t : Token} {s : String}

/-- The token is read as the string, whatever stands behind it. -/
def ReadsAs (t : Token) (s : String) : Prop :=
  ∀ fuel rest, literal (fuel + 1) (t :: rest) = .ok (.string s, rest)

theorem readsAs_of_quotes (h : Quotes t.text s) : ReadsAs t s := by
  intro fuel rest
  obtain ⟨hquoted, htext⟩ := quotes_iff_isQuoted.mp h
  rw [literal]
  refine bind_eq_ok_iff.mpr ⟨some t, t :: rest, rfl, ?_⟩
  dsimp only
  rw [if_pos hquoted]
  refine bind_eq_ok_iff.mpr ⟨true, rest, by rw [eat, if_pos rfl], ?_⟩
  exact bind_eq_ok_iff.mpr ⟨s, rest, by rw [unquoted, htext]; rfl, rfl⟩

/-- A string is read from one token, which quotes it. -/
theorem quotes_of_literal {fuel : ℕ} {rest left : List Token}
    (h : literal fuel (t :: rest) = .ok (.string s, left)) : left = rest ∧ Quotes t.text s := by
  obtain ⟨us, hsplit, hspells⟩ := exists_taken (fun _ => takes_literal fuel) h
  generalize hwords : us.map Token.text = words at hspells
  cases hspells with
  | string hquotes =>
    obtain ⟨t', us, rfl, rfl, hus⟩ := List.map_eq_cons_iff.mp hwords
    rw [List.map_eq_nil_iff.mp hus, List.singleton_append] at hsplit
    obtain ⟨rfl, rfl⟩ := List.cons.inj hsplit
    exact ⟨rfl, hquotes⟩

theorem readsAs_iff_quotes : ReadsAs t s ↔ Quotes t.text s :=
  ⟨fun h => (quotes_of_literal (h 0 [])).2, readsAs_of_quotes⟩

end Parser

variable {body : List Char} {s : String}

theorem quotes_between (h : Text.Denotation body s.toList) : Quotes (Text.between body) s :=
  ⟨by rw [Text.toList_between]; rfl, Text.unquote_between h⟩

theorem quotes_iff_of_isToken {w : String} (h : Token.IsToken w) :
    Quotes w s ↔ ∃ body, w = Text.between body ∧ Text.Denotation body s.toList := by
  constructor
  · rintro ⟨hhead, htext⟩
    obtain ⟨rest, hquoted⟩ := List.head?_eq_some_iff.mp hhead
    exact Text.exists_between_of_unquote hquoted (h.scanQuoted hquoted) htext
  · rintro ⟨body, rfl, hbody⟩
    exact quotes_between hbody

/-- A token of a text is read as a string if and only if it denotes the string between quotes. -/
theorem readsAs_iff_of_scan {text : String} {tokens : Tokens} (h : Token.scan text = .ok tokens) :
    ∀ t ∈ tokens.list, Parser.ReadsAs t s ↔
      ∃ body, t.text = Text.between body ∧ Text.Denotation body s.toList := by
  intro t ht
  obtain ⟨lexemes, hcut, hlist⟩ := Token.exists_cut_of_scan h
  rw [hlist] at ht
  exact Parser.readsAs_iff_quotes.trans
    (quotes_iff_of_isToken (Token.isToken_of_mem_kept hcut t ht))

/-- **Quoting agrees with reading.**  The quoted text of a string is one token, which is read as the
string, and so is each text between quotes that denotes the string.  If a token is read as the
string, nothing but the token is taken, and the quoted text of the string is read in its place; and
the tokens of any text that are read as the string are the quoted texts that denote it. -/
theorem quotedString_laws (s : String) :
    (Token.scan (Text.quote s) =
        .ok ⟨[⟨Text.quote s, .start⟩], ⟨1, (Text.quote s).length + 1⟩⟩ ∧
      ∀ place, Parser.ReadsAs ⟨Text.quote s, place⟩ s) ∧
    (∀ body, Text.Denotation body s.toList →
      Token.scan (Text.between body) =
          .ok ⟨[⟨Text.between body, .start⟩], ⟨1, (Text.between body).length + 1⟩⟩ ∧
        ∀ place, Parser.ReadsAs ⟨Text.between body, place⟩ s) ∧
    (∀ fuel t rest left, Parser.literal fuel (t :: rest) = .ok (.string s, left) →
      left = rest ∧ Parser.ReadsAs t s ∧ Parser.ReadsAs ⟨Text.quote s, t.position⟩ s) ∧
    ∀ text tokens, Token.scan text = .ok tokens → ∀ t ∈ tokens.list,
      Parser.ReadsAs t s ↔ ∃ body, t.text = Text.between body ∧ Text.Denotation body s.toList := by
  have hspelled (body : List Char) (h : Text.Denotation body s.toList) :
      Token.scan (Text.between body) =
          .ok ⟨[⟨Text.between body, .start⟩], ⟨1, (Text.between body).length + 1⟩⟩ ∧
        ∀ place, Parser.ReadsAs ⟨Text.between body, place⟩ s :=
    ⟨Token.scan_between h, fun _ => Parser.readsAs_of_quotes (quotes_between h)⟩
  have hquote := hspelled _ (Text.denotation_flatMap s.toList)
  rw [← Text.quote_eq_between] at hquote
  refine ⟨hquote, hspelled, fun fuel t rest left h => ?_, fun _ _ => readsAs_iff_of_scan⟩
  obtain ⟨rfl, hquotes⟩ := Parser.quotes_of_literal h
  exact ⟨rfl, Parser.readsAs_of_quotes hquotes, hquote.2 t.position⟩

/-- A letter and a smiling face by the digits of their units, and an escaped slash. -/
def escapedText : List Char := "\\u0041\\ud83d\\uDE00\\/".toList

theorem denotation_escapedText : Text.Denotation escapedText "A😀/".toList := by
  have hslash : Text.Denotation (['\\', '/'] ++ []) ['/'] := .cons (.short (by decide)) .nil
  have hleading : Text.unit? 'd' '8' '3' 'd' = some 0xD83D := by decide
  have htrailing : Text.unit? 'D' 'E' '0' '0' = some 0xDE00 := by decide
  have hface := Text.Denotation.cons (.pair hleading rfl rfl htrailing rfl) hslash
  have hletter : Text.unit? '0' '0' '4' '1' = some 0x41 := by decide
  exact .cons (.unit hletter rfl rfl) hface

/-- The escaped text is one token, read as the string, as is its quoted text. -/
theorem escapedText_quotedString :
    Text.Denotation escapedText "A😀/".toList ∧
      Token.scan "\"\\u0041\\ud83d\\uDE00\\/\"" =
        .ok ⟨[⟨"\"\\u0041\\ud83d\\uDE00\\/\"", .start⟩], ⟨1, 23⟩⟩ ∧
      Parser.ReadsAs ⟨"\"\\u0041\\ud83d\\uDE00\\/\"", .start⟩ "A😀/" ∧
      Token.scan "\"A😀/\"" = .ok ⟨[⟨"\"A😀/\"", .start⟩], ⟨1, 6⟩⟩ ∧
      Parser.ReadsAs ⟨"\"A😀/\"", .start⟩ "A😀/" := by
  obtain ⟨⟨hquote, hquoteReads⟩, hspelled, -⟩ := quotedString_laws "A😀/"
  obtain ⟨hscan, hreads⟩ := hspelled escapedText denotation_escapedText
  exact ⟨denotation_escapedText, hscan, hreads .start, hquote, hquoteReads .start⟩

end Source

end Adl
