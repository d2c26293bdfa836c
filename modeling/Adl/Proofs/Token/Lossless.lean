import Adl.Error
import Adl.Proofs.Token.Lexeme
import Mathlib.Data.List.DropRight

/-!
# Lossless — tokens and the text that they are cut from

The lexemes of a text are cut off one after the other (`Cut`), and the tokens are those that are
kept, each at the place behind the text before it.  A place counts the line breaks before it and the
characters behind the last of them (`Position.behind`), which is where the scanner steps to
(`Position.behind_append`).  A scan succeeds exactly if the lexemes make up the whole text
(`scan_of_cut`, `scan_lossless`), and else it stops in front of the first character that no lexeme
covers.
-/

namespace Adl

/-! ### Positions -/

/-- The place behind a text: one line for each line break, one column for each character behind the
last line break. -/
def Position.behind (before : List Char) : Position :=
  ⟨1 + before.count '\n', 1 + (before.rtakeWhile (· != '\n')).length⟩

theorem Position.behind_concat (before : List Char) (c : Char) :
    behind (before ++ [c]) = (behind before).step c := by
  unfold behind step
  rw [List.rtakeWhile_concat]
  by_cases h : c = '\n'
  · subst h
    simp [Nat.add_assoc]
  · simp [h]
    omega

theorem Position.behind_append (before cs : List Char) :
    behind (before ++ cs) = (behind before).after cs := by
  induction cs generalizing before with
  | nil => rw [List.append_nil]; rfl
  | cons c cs ih => rw [List.append_cons, ih, behind_concat]; rfl

/-- The tokens of a text and the empty token at its end. -/
def Tokens.closed (tokens : Tokens) : List Token := tokens.list ++ [⟨"", tokens.stop⟩]

namespace Token

open Lexeme (lexeme? isDropped)

/-! ### Lexemes in a row -/

/-- The lexemes are cut off the text `cs` behind `before` one after the other, and `rest` is
left. -/
inductive Cut : List Char → List Char → List (List Char) → List Char → Prop
  | nil (before rest : List Char) : Cut before rest [] rest
  | cons {before cs lexeme cs' rest : List Char} {lexemes : List (List Char)}
      (h : lexeme? before.getLast? cs = some (lexeme, cs'))
      (hcut : Cut (before ++ lexeme) cs' lexemes rest) : Cut before cs (lexeme :: lexemes) rest

/-- The tokens that are kept of lexemes behind `before`. -/
def kept (before : List Char) : List (List Char) → List Token
  | [] => []
  | lexeme :: lexemes =>
    if isDropped lexeme then kept (before ++ lexeme) lexemes
    else ⟨String.ofList lexeme, .behind before⟩ :: kept (before ++ lexeme) lexemes

variable {before cs rest gap : List Char} {lexemes : List (List Char)}

/-- Nothing is lost. -/
theorem Cut.append (h : Cut before cs lexemes rest) : lexemes.flatten ++ rest = cs := by
  induction h with
  | nil => rfl
  | cons h _ ih => rw [List.flatten_cons, List.append_assoc, ih, Lexeme.lexeme?_append h]

theorem Cut.ne_nil (h : Cut before cs lexemes rest) : ∀ lexeme ∈ lexemes, lexeme ≠ [] := by
  induction h with
  | nil => simp
  | cons h _ ih => exact List.forall_mem_cons.mpr ⟨Lexeme.lexeme?_ne_nil h, ih⟩

theorem Cut.nil_iff : Cut before cs [] rest ↔ cs = rest := by
  constructor
  · rintro ⟨⟩
    rfl
  · rintro rfl
    exact .nil _ _

theorem Cut.cons_iff {lexeme : List Char} : Cut before cs (lexeme :: lexemes) rest ↔
    lexeme? before.getLast? cs = some (lexeme, cs.drop lexeme.length) ∧
      Cut (before ++ lexeme) (cs.drop lexeme.length) lexemes rest := by
  constructor
  · rintro (_ | ⟨h, hcut⟩)
    obtain rfl := Lexeme.lexeme?_append h
    rw [List.drop_left]
    exact ⟨h, hcut⟩
  · exact fun ⟨h, hcut⟩ => .cons h hcut

/-- Cuts are decided lexeme by lexeme. -/
instance decidableCut : (before cs : List Char) → (lexemes : List (List Char)) →
    (rest : List Char) → Decidable (Cut before cs lexemes rest)
  | _, cs, [], rest => decidable_of_iff (cs = rest) Cut.nil_iff.symm
  | before, cs, lexeme :: lexemes, rest =>
    have := decidableCut (before ++ lexeme) (cs.drop lexeme.length) lexemes rest
    decidable_of_iff _ Cut.cons_iff.symm

/-- The character before a text is the last one of the lexeme before it. -/
theorem getLast?_append_lexeme {lexeme cs' : List Char} {prev : Option Char}
    (h : lexeme? prev cs = some (lexeme, cs')) :
    (before ++ lexeme).getLast? = lexeme.getLast? :=
  List.getLast?_append_of_ne_nil _ (Lexeme.lexeme?_ne_nil h)

theorem text_ne_of_mem_kept {t : Token} (h : ∀ lexeme ∈ lexemes, lexeme ≠ [])
    (ht : t ∈ kept before lexemes) : t.text ≠ "" := by
  induction lexemes generalizing before with
  | nil => cases ht
  | cons lexeme lexemes ih =>
    rw [List.forall_mem_cons] at h
    rw [kept] at ht
    split at ht
    · exact ih h.2 ht
    · rcases List.mem_cons.mp ht with rfl | ht
      · intro htext
        have hlist := congrArg String.toList htext
        rw [String.toList_ofList] at hlist
        exact h.1 hlist
      · exact ih h.2 ht

/-! ### Lexemes that are dropped -/

/-- A comment that documents nothing. -/
structure IsComment (lexeme : List Char) : Prop where
  slashes : ['/', '/'] <+: lexeme
  not_doc : ¬ ['/', '/', '/'] <+: lexeme

theorem isDoc_iff {lexeme : List Char} : Lexeme.isDoc lexeme ↔ ['/', '/', '/'] <+: lexeme := by
  unfold Lexeme.isDoc
  split
  · simp
  · next h =>
    simp only [Bool.false_eq_true, false_iff]
    rintro ⟨cs, rfl⟩
    exact h cs rfl

/-- What is dropped of a text are blanks and comments that document nothing. -/
theorem isDropped_iff {prev : Option Char} {lexeme cs' : List Char}
    (h : lexeme? prev cs = some (lexeme, cs')) :
    isDropped lexeme ↔ (∀ c ∈ lexeme, Text.isBlank c) ∨ IsComment lexeme := by
  obtain ⟨c, lexeme, rfl⟩ := List.exists_cons_of_ne_nil (Lexeme.lexeme?_ne_nil h)
  have hcs := Lexeme.lexeme?_append h
  rw [List.cons_append] at hcs
  subst hcs
  rw [isDropped, Bool.or_eq_true, Bool.and_eq_true, beq_iff_eq, Bool.not_eq_true',
    ← Bool.not_eq_true, isDoc_iff]
  constructor
  · rintro (hblank | ⟨rfl, hdoc⟩)
    · rw [Lexeme.lexeme?_blank hblank] at h
      obtain ⟨hlexeme, -⟩ := Prod.mk.inj (Option.some.inj h)
      refine .inl fun d hd => ?_
      rw [← hlexeme] at hd
      rcases List.mem_cons.mp hd with rfl | hd
      · exact hblank
      · exact List.mem_takeWhile_imp hd
    · refine .inr ⟨?_, hdoc⟩
      rw [Lexeme.lexeme?_slash] at h
      split at h
      · next hslash =>
        obtain ⟨hlexeme, -⟩ := Prod.mk.inj (Option.some.inj h)
        obtain ⟨cs, hcs⟩ := List.head?_eq_some_iff.mp hslash
        rw [← hlexeme, hcs, List.takeWhile_cons_of_pos (by decide)]
        exact ⟨_, rfl⟩
      · cases h
  · rintro (hblank | hcomment)
    · exact .inl (hblank c List.mem_cons_self)
    · obtain ⟨_, hslashes⟩ := hcomment.slashes
      exact .inr ⟨(List.cons.inj hslashes).1.symm, hcomment.not_doc⟩

theorem Cut.isDropped_iff (h : Cut before cs lexemes rest) : ∀ lexeme ∈ lexemes,
    isDropped lexeme ↔ (∀ c ∈ lexeme, Text.isBlank c) ∨ IsComment lexeme := by
  induction h with
  | nil => simp
  | cons h _ ih => exact List.forall_mem_cons.mpr ⟨Token.isDropped_iff h, ih⟩

/-! ### Gaps -/

/-- No lexeme starts at a character of `gap`, which stands between `before` and `rest`, but one does
at `rest` unless this is the end of the text. -/
structure IsGap (before gap rest : List Char) : Prop where
  ne_nil : gap ≠ []
  no_lexeme : ∀ skipped left, gap = skipped ++ left → left ≠ [] →
    lexeme? (before ++ skipped).getLast? (left ++ rest) = none
  lexeme : rest ≠ [] → (lexeme? (before ++ gap).getLast? rest).isSome

theorem isGap_singleton {c : Char} (h : lexeme? before.getLast? (c :: rest) = none)
    (hrest : rest ≠ [] → (lexeme? (some c) rest).isSome) : IsGap before [c] rest := by
  refine ⟨List.cons_ne_nil _ _, fun skipped left heq hleft => ?_, ?_⟩
  · obtain ⟨rfl, rfl⟩ : skipped = [] ∧ left = [c] := by
      cases skipped with
      | nil => exact ⟨rfl, heq.symm⟩
      | cons d skipped =>
        have hnil := (List.append_eq_nil_iff.mp (List.cons.inj heq).2.symm).2
        exact absurd hnil hleft
    rw [List.append_nil]
    exact h
  · rw [List.getLast?_concat]
    exact hrest

theorem IsGap.cons {c : Char} (h : lexeme? before.getLast? (c :: (gap ++ rest)) = none)
    (hgap : IsGap (before ++ [c]) gap rest) : IsGap before (c :: gap) rest := by
  refine ⟨List.cons_ne_nil _ _, fun skipped left heq hleft => ?_, ?_⟩
  · cases skipped with
    | nil =>
      rw [List.nil_append] at heq
      rw [List.append_nil, ← heq]
      exact h
    | cons d skipped =>
      obtain ⟨rfl, htail⟩ := List.cons.inj heq
      rw [List.append_cons]
      exact hgap.no_lexeme skipped left htail hleft
  · rw [List.append_cons]
    exact hgap.lexeme

/-- What the scanner reports is the gap in front of which it stops. -/
theorem isGap_gap (hne : cs ≠ []) (h : lexeme? before.getLast? cs = none) :
    ∃ rest, Token.gap cs ++ rest = cs ∧ IsGap before (Token.gap cs) rest := by
  induction cs generalizing before with
  | nil => exact absurd rfl hne
  | cons c cs ih =>
    by_cases hsome : (lexeme? (some c) cs).isSome
    · rw [Token.gap, if_pos hsome]
      exact ⟨cs, rfl, isGap_singleton h fun _ => hsome⟩
    · rw [Token.gap, if_neg hsome]
      by_cases hcs : cs = []
      · subst hcs
        exact ⟨[], rfl, isGap_singleton h fun hne => absurd rfl hne⟩
      · rw [Option.not_isSome_iff_eq_none, ← List.getLast?_concat (l := before)] at hsome
        obtain ⟨rest, hrest, hgap⟩ := ih hcs hsome
        exact ⟨rest, by rw [List.cons_append, hrest], .cons (by rwa [hrest]) hgap⟩

/-! ### The scan -/

theorem scanFrom_nil (prev : Option Char) (p : Position) : scanFrom prev p [] = .ok ⟨[], p⟩ := by
  rw [scanFrom]
  exact if_pos rfl

/-- Where a lexeme is cut off, the scan goes on behind it. -/
theorem scanFrom_lexeme {prev : Option Char} {lexeme cs' : List Char} (p : Position)
    (h : lexeme? prev cs = some (lexeme, cs')) :
    scanFrom prev p cs =
      match scanFrom lexeme.getLast? (p.after lexeme) cs' with
      | .error e => .error e
      | .ok tokens =>
        if isDropped lexeme then .ok tokens
        else .ok ⟨⟨String.ofList lexeme, p⟩ :: tokens.list, tokens.stop⟩ := by
  have hne : cs.isEmpty = false := by
    rw [List.isEmpty_eq_false_iff, ← Lexeme.lexeme?_append h]
    exact fun hnil => Lexeme.lexeme?_ne_nil h (List.append_eq_nil_iff.mp hnil).1
  rw [scanFrom, hne, if_neg Bool.false_ne_true]
  split
  · next hnone =>
    rw [h] at hnone
    cases hnone
  · next hsome =>
    rw [h] at hsome
    cases hsome
    rfl

theorem scanFrom_gap {prev : Option Char} (p : Position) (hne : cs ≠ [])
    (h : lexeme? prev cs = none) :
    scanFrom prev p cs = .error ⟨String.ofList (Token.gap cs), p⟩ := by
  rw [scanFrom, List.isEmpty_eq_false_iff.mpr hne, if_neg Bool.false_ne_true]
  split
  · rfl
  · next hsome =>
    rw [h] at hsome
    cases hsome

/-- The scan goes through the lexemes of a text. -/
theorem scanFrom_cut (h : Cut before cs lexemes rest) :
    scanFrom before.getLast? (.behind before) cs =
      (scanFrom (before ++ lexemes.flatten).getLast? (.behind (before ++ lexemes.flatten)) rest).map
        fun tokens => ⟨kept before lexemes ++ tokens.list, tokens.stop⟩ := by
  induction h with
  | nil before rest =>
    rw [List.flatten_nil, List.append_nil]
    cases scanFrom before.getLast? (.behind before) rest <;> rfl
  | @cons before cs lexeme cs' rest lexemes hlexeme _ ih =>
    rw [getLast?_append_lexeme hlexeme, Position.behind_append] at ih
    rw [scanFrom_lexeme _ hlexeme, ih, List.flatten_cons, ← List.append_assoc, kept]
    cases scanFrom (before ++ lexeme ++ lexemes.flatten).getLast?
        (.behind (before ++ lexeme ++ lexemes.flatten)) rest with
    | error e => rfl
    | ok tokens =>
      dsimp only [Except.map]
      split <;> rfl

/-- Where lexemes make up a text, the scan gives the tokens that are kept of them. -/
theorem scan_of_cut {text : String} (h : Cut [] text.toList lexemes []) :
    scan text = .ok ⟨kept [] lexemes, .behind text.toList⟩ := by
  have hflatten := h.append
  rw [List.append_nil] at hflatten
  have hscan := scanFrom_cut h
  rw [hflatten, List.nil_append, scanFrom_nil, Except.map, List.append_nil] at hscan
  exact hscan

/-- A text is cut into lexemes up to its end, or up to a place where no lexeme starts. -/
theorem exists_cut (before cs : List Char) :
    ∃ lexemes rest, Cut before cs lexemes rest ∧
      (rest ≠ [] → lexeme? (before ++ lexemes.flatten).getLast? rest = none) := by
  induction hlen : cs.length using Nat.strongRecOn generalizing before cs with
  | ind n ih =>
    subst hlen
    cases h : lexeme? before.getLast? cs with
    | none =>
      refine ⟨[], cs, .nil before cs, fun _ => ?_⟩
      rw [List.flatten_nil, List.append_nil]
      exact h
    | some found =>
      obtain ⟨lexeme, cs'⟩ := found
      obtain ⟨lexemes, rest, hcut, hrest⟩ :=
        ih cs'.length (Lexeme.length_rest_lt h) (before ++ lexeme) cs' rfl
      refine ⟨lexeme :: lexemes, rest, .cons h hcut, ?_⟩
      rw [List.flatten_cons, ← List.append_assoc]
      exact hrest

/-- Tokens and what is dropped make up the text.  A scan that succeeds has cut the whole text into
lexemes and keeps all but the blanks and the comments that document nothing; the places count the
text before a token, and only the last token is empty.  Else the error is at the first character
that no lexeme covers, and its message quotes the text up to the next lexeme. -/
theorem scan_lossless (label text : String) :
    match scan text with
    | .ok tokens => ∃ lexemes,
        lexemes.flatten = text.toList ∧ Cut [] text.toList lexemes [] ∧
        (∀ lexeme ∈ lexemes,
          isDropped lexeme ↔ (∀ c ∈ lexeme, Text.isBlank c) ∨ IsComment lexeme) ∧
        tokens.closed = kept [] lexemes ++ [⟨"", .behind text.toList⟩] ∧
        ∀ t ∈ kept [] lexemes, t.text ≠ ""
    | .error e => ∃ lexemes gap rest,
        lexemes.flatten ++ (gap ++ rest) = text.toList ∧
        Cut [] text.toList lexemes (gap ++ rest) ∧ IsGap lexemes.flatten gap rest ∧
        e = ⟨String.ofList gap, .behind lexemes.flatten⟩ ∧
        Source.ofText label text = .error (.form label e.position (.scan e.text)) ∧
        (FormFault.scan e.text).message = "Syntax error: " ++ Text.quote (String.ofList gap) := by
  obtain ⟨lexemes, rest, hcut, hrest⟩ := exists_cut [] text.toList
  rw [List.nil_append] at hrest
  by_cases hne : rest = []
  · subst hne
    have hflatten := hcut.append
    rw [List.append_nil] at hflatten
    rw [scan_of_cut hcut]
    exact ⟨lexemes, hflatten, hcut, hcut.isDropped_iff, rfl,
      fun t ht => text_ne_of_mem_kept hcut.ne_nil ht⟩
  · obtain ⟨rest', happend, hgap⟩ := isGap_gap hne (hrest hne)
    have hscan : scan text = .error ⟨String.ofList (Token.gap rest), .behind lexemes.flatten⟩ := by
      have h := scanFrom_cut hcut
      rw [List.nil_append, scanFrom_gap _ hne (hrest hne)] at h
      exact h
    rw [hscan]
    refine ⟨lexemes, Token.gap rest, rest', ?_, ?_, hgap, rfl, ?_, rfl⟩
    · rw [happend, hcut.append]
    · rw [happend]
      exact hcut
    · rw [Source.ofText, hscan]

end Token

end Adl
