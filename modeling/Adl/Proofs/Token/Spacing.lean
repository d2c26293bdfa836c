import Adl.Proofs.Token.Lossless

/-!
# Spacing — the tokens of a text with other blanks between them

What is cut off a text as a token is cut off again wherever no word character stands before it and a
line ends behind it (`lexeme?_again`).  So the tokens of a text are scanned again, in the same order
and with the same texts, from any text that has them one after the other with line breaks between
them (`Spread`), whatever white space and comments stand among these (`scan_spread`).
-/

namespace Adl

namespace Lexeme

variable {prev prev' : Option Char} {cs lexeme rest rest' : List Char}

/-! ### Lexemes in other places -/

/-- A quoted text ends at its closing quote, whatever stands behind it. -/
theorem scanQuoted_again {s r : List Char} (h : scanQuoted cs = some (s, r)) (rest : List Char) :
    scanQuoted (s ++ rest) = some (s, rest) := by
  fun_induction scanQuoted cs generalizing s r with
  | case1 => cases h
  | case2 rest =>
    obtain ⟨rfl, -⟩ := Prod.mk.inj (Option.some.inj h)
    rfl
  | case3 => cases h
  | case4 c cs hc ih =>
    obtain ⟨⟨s', r'⟩, h', he⟩ := Option.map_eq_some_iff.mp h
    obtain ⟨rfl, -⟩ := Prod.mk.inj he
    rw [List.cons_append, List.cons_append, scanQuoted, if_neg hc, ih h']
    rfl
  | case5 => cases h
  | case6 c cs hquote hback hc ih =>
    obtain ⟨⟨s', r'⟩, h', he⟩ := Option.map_eq_some_iff.mp h
    obtain ⟨rfl, -⟩ := Prod.mk.inj he
    obtain ⟨hline, hback⟩ := not_or.mp hc
    rw [List.cons_append, scanQuoted_plain hquote hback hline, ih h']
    rfl

/-- A line break goes on with no lexeme that is kept. -/
theorem lineBreak_ends : Text.isWord '\n' = false ∧ Text.isDigit '\n' = false := by decide +kernel

/-- A number is scanned again in front of the end of a line. -/
theorem scanNumber_again {n : Numeral} (h : Numeral.scan? Text.isDigit cs = some (n, rest))
    (hrest : ∀ d ∈ rest'.head?, d = '\n') :
    Numeral.scan? Text.isDigit (n.chars ++ rest') = some (n, rest') := by
  have hclosed : Numeral.Closed Text.isDigit rest' := by
    intro d hd
    rw [hrest d hd]
    exact ⟨lineBreak_ends.2, by decide⟩
  have hdigit : ∀ c ∈ ['.', 'e', 'E', '+', '-'], Text.isDigit c = false := by
    simp only [List.forall_mem_cons, List.not_mem_nil, false_imp_iff, implies_true, and_true]
    decide +kernel
  exact Numeral.scan?_closed hclosed (Numeral.scan?_chars_of_scan? hdigit h)

/-- A lexeme that is kept is cut off again between what ends words and the end of a line. -/
theorem lexeme?_again (h : lexeme? prev cs = some (lexeme, rest)) (hkept : isDropped lexeme = false)
    (hprev : ∀ d ∈ prev', ¬ Text.isWord d) (hrest : ∀ d ∈ rest'.head?, d = '\n') :
    lexeme? prev' (lexeme ++ rest') = some (lexeme, rest') := by
  cases cs with
  | nil => cases h
  | cons c cs =>
  by_cases hname : Text.isNameStart c
  · rw [lexeme?, if_pos hname] at h
    split at h
    · cases h
    · obtain ⟨rfl, -⟩ := Prod.mk.inj (Option.some.inj h)
      refine lexeme?_name hname (fun d hd => List.mem_takeWhile_imp hd) hprev fun d hd => ?_
      rw [hrest d hd, lineBreak_ends.1]
      exact Bool.false_ne_true
  by_cases hmark : isPunctuation c
  · rw [lexeme?_mark hmark] at h
    obtain ⟨rfl, -⟩ := Prod.mk.inj (Option.some.inj h)
    exact lexeme?_mark hmark rest'
  by_cases hblank : Text.isBlank c
  · rw [lexeme?_blank hblank] at h
    obtain ⟨rfl, -⟩ := Prod.mk.inj (Option.some.inj h)
    simp [isDropped, hblank] at hkept
  by_cases hquote : c = '"'
  · subst hquote
    obtain ⟨⟨s, r⟩, h', he⟩ := Option.map_eq_some_iff.mp
      (show (scanQuoted cs).map (fun x => ('"' :: x.1, x.2)) = some (lexeme, rest) from h)
    obtain ⟨rfl, -⟩ := Prod.mk.inj he
    show (scanQuoted (s ++ rest')).map (fun x => ('"' :: x.1, x.2)) = _
    rw [scanQuoted_again h']
    rfl
  by_cases hslash : c = '/'
  · subst hslash
    rw [lexeme?_slash] at h
    split at h
    · next hhead =>
      obtain ⟨rfl, -⟩ := Prod.mk.inj (Option.some.inj h)
      obtain ⟨cs, rfl⟩ := List.head?_eq_some_iff.mp hhead
      have hline : ∀ d ∈ ('/' :: cs).takeWhile (· != '\n'), d != '\n' :=
        fun d hd => List.mem_takeWhile_imp (p := (· != '\n')) hd
      obtain ⟨htake, hdrop⟩ := takeWhile_append_eq hline fun d hd => by simp [hrest d hd]
      rw [List.cons_append, lexeme?_slash, htake, hdrop, List.takeWhile_cons_of_pos (by decide)]
      exact if_pos rfl
    · cases h
  · simp only [lexeme?, hname, hmark, hblank, hquote, hslash, if_false, Bool.false_eq_true] at h
    obtain ⟨⟨n, r⟩, hscan, he⟩ := Option.map_eq_some_iff.mp h
    obtain ⟨rfl, -⟩ := Prod.mk.inj he
    have hagain := scanNumber_again hscan hrest
    obtain ⟨d, chars, hchars⟩ := List.exists_cons_of_ne_nil (Numeral.scan?_ne_nil hscan)
    have happend := Numeral.scan?_append hscan
    rw [hchars, List.cons_append] at happend
    obtain ⟨rfl, -⟩ := List.cons.inj happend
    rw [hchars, List.cons_append] at hagain ⊢
    simp only [lexeme?, hname, hmark, hblank, hquote, hslash, if_false, Bool.false_eq_true, hagain,
      Option.map_some, hchars]

end Lexeme

namespace Token

open Lexeme (lexeme? isDropped)

/-! ### Fillers -/

/-- White space and comments that document nothing, each comment up to the end of its line. -/
inductive Filler : List Char → Prop
  | nil : Filler []
  | blank {c : Char} {cs : List Char} (hc : Text.isBlank c) (h : Filler cs) : Filler (c :: cs)
  | comment {text cs : List Char} (hline : '\n' ∉ text) (hdoc : text.head? ≠ some '/')
      (h : Filler ('\n' :: cs)) : Filler ('/' :: '/' :: (text ++ '\n' :: cs))

/-- A filler that begins and ends with a line break. -/
structure Separates (gap : List Char) : Prop where
  filler : Filler gap
  head : gap.head? = some '\n'
  last : gap.getLast? = some '\n'

variable {before gap rest cs : List Char} {lexemes : List (List Char)} {w : String}
  {words : List String}

theorem separates_lineBreak : Separates ['\n'] :=
  ⟨.blank (by decide) .nil, rfl, rfl⟩

theorem Filler.dropWhile (h : Filler gap) : Filler (gap.dropWhile Text.isBlank) := by
  induction h with
  | nil => exact .nil
  | blank hc _ ih => rwa [List.dropWhile_cons_of_pos hc]
  | comment hline hdoc h =>
    rw [List.dropWhile_cons_of_neg (by decide)]
    exact .comment hline hdoc h

theorem lexeme?_comment {prev : Option Char} {text : List Char} (hline : '\n' ∉ text) :
    lexeme? prev ('/' :: '/' :: (text ++ '\n' :: rest)) =
      some ('/' :: '/' :: text, '\n' :: rest) := by
  have htext : ∀ d ∈ '/' :: text, d != '\n' := by
    refine List.forall_mem_cons.mpr ⟨by decide, fun d hd => ?_⟩
    rw [bne_iff_ne]
    rintro rfl
    exact hline hd
  have hend : ∀ d ∈ ('\n' :: rest).head?, ¬ d != '\n' := by simp
  obtain ⟨htake, hdrop⟩ := takeWhile_append_eq htext hend
  rw [List.cons_append] at htake hdrop
  rw [Lexeme.lexeme?_slash, List.head?_cons, if_pos rfl, htake, hdrop]

theorem isDropped_comment {text : List Char} (hdoc : text.head? ≠ some '/') :
    isDropped ('/' :: '/' :: text) := by
  have hnot : Lexeme.isDoc ('/' :: '/' :: text) = false := by
    unfold Lexeme.isDoc
    split
    · next heq =>
      cases heq
      exact absurd rfl hdoc
    · rfl
  simp [isDropped, hnot]

/-- The blanks at the front are one lexeme, where no other blank follows them. -/
theorem lexeme?_blanks {prev : Option Char} {c : Char} (hc : Text.isBlank c)
    (hrest : ∀ d ∈ rest.head?, ¬ Text.isBlank d) (gap : List Char) :
    lexeme? prev (c :: gap ++ rest) =
      some (c :: gap.takeWhile Text.isBlank, gap.dropWhile Text.isBlank ++ rest) := by
  have hsplit := List.takeWhile_append_dropWhile (p := Text.isBlank) (l := gap)
  have hhead : ∀ d ∈ (gap.dropWhile Text.isBlank ++ rest).head?, ¬ Text.isBlank d := by
    intro d hd
    have hdrop := List.head?_dropWhile_not Text.isBlank gap
    cases hb : gap.dropWhile Text.isBlank with
    | nil => exact hrest d (by rwa [hb] at hd)
    | cons e es =>
      rw [hb] at hd hdrop
      cases hd
      simpa using hdrop
  obtain ⟨htake, hdrop⟩ := takeWhile_append_eq
    (fun d hd => List.mem_takeWhile_imp (p := Text.isBlank) (l := gap) hd) hhead
  rw [← List.append_assoc, hsplit] at htake hdrop
  rw [List.cons_append, Lexeme.lexeme?_blank hc, htake, hdrop]

/-- A filler in front of what is no blank is cut off and dropped. -/
theorem exists_cut_filler (hgap : Filler gap) (hrest : ∀ c ∈ rest.head?, ¬ Text.isBlank c)
    (h : Cut (before ++ gap) rest lexemes []) :
    ∃ lexemes', Cut before (gap ++ rest) lexemes' [] ∧
      kept before lexemes' = kept (before ++ gap) lexemes := by
  induction hlen : gap.length using Nat.strongRecOn generalizing before gap with
  | ind n ih =>
    subst hlen
    cases hgap with
    | nil =>
      rw [List.append_nil] at h ⊢
      exact ⟨lexemes, h, rfl⟩
    | @blank c gap hc hgap =>
      -- the induction goes on behind all the blanks at the front
      have hshorter : (gap.dropWhile Text.isBlank).length < (c :: gap).length :=
        Nat.lt_succ_of_le (List.dropWhile_sublist _).length_le
      have hbefore : before ++ c :: gap =
          before ++ (c :: gap.takeWhile Text.isBlank) ++ gap.dropWhile Text.isBlank := by
        rw [List.append_assoc, List.cons_append, List.takeWhile_append_dropWhile]
      rw [hbefore] at h ⊢
      obtain ⟨lexemes', hcut, hkept⟩ := ih _ hshorter hgap.dropWhile h rfl
      refine ⟨_ :: lexemes', .cons (lexeme?_blanks hc hrest gap) hcut, ?_⟩
      rw [kept, if_pos (by simp [isDropped, hc]), hkept]
    | @comment text gap hline hdoc hgap =>
      have hlexeme : lexeme? before.getLast? (('/' :: '/' :: (text ++ '\n' :: gap)) ++ rest) =
          some ('/' :: '/' :: text, ('\n' :: gap) ++ rest) := by
        rw [List.cons_append, List.cons_append, List.append_assoc, List.cons_append]
        exact lexeme?_comment hline
      have hshorter : ('\n' :: gap).length < ('/' :: '/' :: (text ++ '\n' :: gap)).length := by
        simp only [List.length_cons, List.length_append]
        omega
      have hbefore : before ++ '/' :: '/' :: (text ++ '\n' :: gap) =
          before ++ ('/' :: '/' :: text) ++ '\n' :: gap := by simp
      rw [hbefore] at h ⊢
      obtain ⟨lexemes', hcut, hkept⟩ := ih _ hshorter hgap h rfl
      refine ⟨_ :: lexemes', .cons hlexeme hcut, ?_⟩
      rw [kept, if_pos (isDropped_comment hdoc), hkept]

/-! ### Words in a row -/

/-- A text that is cut off some text as a token. -/
def IsToken (w : String) : Prop :=
  ∃ prev cs rest, lexeme? prev cs = some (w.toList, rest) ∧ isDropped w.toList = false

/-- The words in a row, with separators between them. -/
inductive Spread : List String → List Char → Prop
  | nil : Spread [] []
  | single (w : String) : Spread [w] w.toList
  | cons {v w : String} {words : List String} {gap cs : List Char} (hgap : Separates gap)
      (h : Spread (w :: words) cs) : Spread (v :: w :: words) (v.toList ++ (gap ++ cs))

theorem spread_intercalate (words : List String) :
    Spread words ("\n".intercalate words).toList := by
  induction words with
  | nil => exact .nil
  | cons w words ih =>
    cases words with
    | nil =>
      rw [String.intercalate_singleton]
      exact .single w
    | cons v words =>
      rw [String.intercalate_cons_cons, String.toList_append, String.toList_append,
        List.append_assoc]
      exact .cons separates_lineBreak ih

theorem IsToken.head (h : IsToken w) : ∃ c cs, w.toList = c :: cs ∧ ¬ Text.isBlank c := by
  obtain ⟨prev, cs, rest, hlexeme, hkept⟩ := h
  obtain ⟨c, cs, hw⟩ := List.exists_cons_of_ne_nil (Lexeme.lexeme?_ne_nil hlexeme)
  rw [hw, isDropped, Bool.or_eq_false_iff] at hkept
  exact ⟨c, cs, hw, by simp [hkept.1]⟩

theorem Spread.head (h : Spread words cs) (hwords : ∀ w ∈ words, IsToken w) :
    ∀ c ∈ cs.head?, ¬ Text.isBlank c := by
  have hfirst {w : String} (hw : IsToken w) (rest : List Char) :
      ∀ c ∈ (w.toList ++ rest).head?, ¬ Text.isBlank c := by
    obtain ⟨c, cs, hlist, hc⟩ := hw.head
    rw [hlist]
    rintro _ ⟨⟩
    exact hc
  cases h with
  | nil => exact fun _ h => nomatch h
  | single w =>
    have hw := hfirst (hwords w List.mem_cons_self) []
    rwa [List.append_nil] at hw
  | cons => exact hfirst (hwords _ List.mem_cons_self) _

/-- Words with separators between them are cut apart again. -/
theorem exists_cut_spread (h : Spread words cs) (hwords : ∀ w ∈ words, IsToken w)
    (hbefore : ∀ c ∈ before.getLast?, ¬ Text.isWord c) :
    ∃ lexemes, Cut before cs lexemes [] ∧ (kept before lexemes).map Token.text = words := by
  have hkept {w : String} (hw : IsToken w) (before : List Char) (lexemes : List (List Char)) :
      (kept before (w.toList :: lexemes)).map Token.text =
        w :: (kept (before ++ w.toList) lexemes).map Token.text := by
    obtain ⟨-, -, -, -, hnot⟩ := hw
    rw [kept, hnot, if_neg Bool.false_ne_true, List.map_cons, String.ofList_toList]
  induction h generalizing before with
  | nil => exact ⟨[], .nil _ _, rfl⟩
  | single w =>
    have hw := hwords w List.mem_cons_self
    obtain ⟨prev, cs, rest, hlexeme, hnot⟩ := id hw
    have hagain : lexeme? before.getLast? (w.toList ++ []) = some (w.toList, []) := by
      refine Lexeme.lexeme?_again hlexeme hnot hbefore fun d hd => ?_
      cases hd
    rw [List.append_nil] at hagain
    exact ⟨[w.toList], .cons hagain (.nil _ _), by rw [hkept hw]; rfl⟩
  | @cons v w words gap cs hgap hspread ih =>
    obtain ⟨hv, hwords⟩ := List.forall_mem_cons.mp hwords
    obtain ⟨prev, cs', rest, hlexeme, hnot⟩ := id hv
    have hlast : ∀ c ∈ (before ++ v.toList ++ gap).getLast?, ¬ Text.isWord c := by
      intro c hc
      rw [List.getLast?_append, hgap.last] at hc
      cases hc
      simp [Lexeme.lineBreak_ends.1]
    obtain ⟨lexemes, hcut, htexts⟩ := ih hwords hlast
    obtain ⟨lexemes', hcut', hfiller⟩ :=
      exists_cut_filler hgap.filler (hspread.head hwords) hcut
    have hline : ∀ d ∈ (gap ++ cs).head?, d = '\n' := by
      intro d hd
      rw [List.head?_append, hgap.head] at hd
      cases hd
      rfl
    refine ⟨v.toList :: lexemes', .cons (Lexeme.lexeme?_again hlexeme hnot hbefore hline) hcut', ?_⟩
    rw [hkept hv, hfiller, htexts]

theorem isToken_of_mem_kept {cs : List Char} (h : Cut before cs lexemes rest) :
    ∀ t ∈ kept before lexemes, IsToken t.text := by
  induction h with
  | nil => exact fun _ h => nomatch h
  | @cons before cs lexeme cs' rest lexemes hlexeme _ ih =>
    rw [kept]
    split
    · exact ih
    · next hnot =>
      refine List.forall_mem_cons.mpr ⟨⟨before.getLast?, cs, cs', ?_⟩, ih⟩
      rw [String.toList_ofList]
      exact ⟨hlexeme, Bool.eq_false_iff.mpr hnot⟩

/-- A scan that succeeds has cut the whole text into lexemes. -/
theorem exists_cut_of_scan {text : String} {tokens : Tokens} (h : scan text = .ok tokens) :
    ∃ lexemes, Cut [] text.toList lexemes [] ∧ tokens.list = kept [] lexemes := by
  obtain ⟨lexemes, rest, hcut, hrest⟩ := exists_cut [] text.toList
  by_cases hne : rest = []
  · subst hne
    rw [scan_of_cut hcut] at h
    cases h
    exact ⟨lexemes, hcut, rfl⟩
  · have hscan := scanFrom_cut hcut
    rw [scanFrom_gap _ hne (hrest hne)] at hscan
    cases hscan.symm.trans h

/-- The texts of the tokens of a text are scanned again from any text that has them one after the
other, with separators between them. -/
theorem scan_spread {text : String} {tokens : Tokens} (h : scan text = .ok tokens)
    (hspread : Spread (tokens.list.map Token.text) cs) :
    ∃ tokens', scan (String.ofList cs) = .ok tokens' ∧
      tokens'.list.map Token.text = tokens.list.map Token.text := by
  obtain ⟨lexemes, hcut, hlist⟩ := exists_cut_of_scan h
  have hwords : ∀ w ∈ tokens.list.map Token.text, IsToken w := by
    rw [hlist]
    exact List.forall_mem_map.mpr (isToken_of_mem_kept hcut)
  have hstart : ∀ c ∈ ([] : List Char).getLast?, ¬ Text.isWord c := fun _ h => nomatch h
  obtain ⟨lexemes', hcut', htexts⟩ := exists_cut_spread hspread hwords hstart
  refine ⟨_, scan_of_cut ?_, htexts⟩
  rw [String.toList_ofList]
  exact hcut'

end Token

end Adl
