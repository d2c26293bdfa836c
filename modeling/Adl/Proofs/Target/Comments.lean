import Adl.Proofs.Source.Notes
import Adl.Proofs.Text.Split
import Adl.Proofs.Token.Spacing
import Adl.Target.RustText
import Adl.Target.TypeScriptText

/-!
# Comments — documentation in the texts that are written

A block comment ends at the first place where the end of one stands (`TypeScript.behindBlock`).  The
lines of a documentation comment are one block, and what is written behind them is read as it is,
exactly if the text has no such end in it; else a part of the text is left of the comment and read
as code.  Line comments end with their lines, and a line has no line break in it, so a text has no
way out of them (`documentation_comments`).  Every text that ends in a line break is the text of a
block of documentation comments (`isDocText_iff`).
-/

namespace Adl

/-! ### Block comments -/

namespace TypeScript

/-- The end of a block comment. -/
def closing : List Char := ['*', '/']

/-- What stands behind the first end of a block comment. -/
def behindBlock : List Char → Option (List Char)
  | [] => none
  | '*' :: '/' :: rest => some rest
  | _ :: cs => behindBlock cs

/-- What stands behind the block comment that a text begins with, after white space. -/
def behindComment (cs : List Char) : Option (List Char) :=
  match cs.dropWhile Text.isBlank with
  | '/' :: '*' :: inner => behindBlock inner
  | _ => none

/-- The text is white space and one block comment: the first end of a comment in it is its own. -/
def IsBlock (cs : List Char) : Prop :=
  ∃ white body, cs = white ++ '/' :: '*' :: (body ++ closing) ∧ (∀ c ∈ white, Text.isBlank c) ∧
    ¬ closing <:+: body

variable {cs body rest white : List Char}

theorem behindBlock_cons {c : Char} (h : c = '*' → cs.head? ≠ some '/') :
    behindBlock (c :: cs) = behindBlock cs := by
  refine behindBlock.eq_3 c cs fun tail hc hcs => h hc ?_
  rw [hcs, List.head?_cons]

/-- The first end of a comment is behind a text that has none. -/
theorem behindBlock_closing (h : ¬ closing <:+: body) (rest : List Char) :
    behindBlock (body ++ closing ++ rest) = some rest := by
  induction body with
  | nil => rfl
  | cons c body ih =>
    have hbody : ¬ closing <:+: body := fun hmem => h (hmem.trans (List.suffix_cons _ _).isInfix)
    rw [List.cons_append, List.cons_append, behindBlock_cons, ih hbody]
    rintro rfl hhead
    cases body with
    | nil => cases hhead
    | cons d body =>
      cases hhead
      exact h ⟨[], body, rfl⟩

/-- Where the end of a comment occurs there is a first one. -/
theorem exists_behindBlock (h : closing <:+: cs) : ∃ rest, behindBlock cs = some rest := by
  obtain ⟨before, after, rfl⟩ := h
  induction before with
  | nil => exact ⟨after, rfl⟩
  | cons c before ih =>
    by_cases hend : c = '*' ∧ (before ++ closing ++ after).head? = some '/'
    · obtain ⟨rfl, hhead⟩ := hend
      obtain ⟨tail, htail⟩ := List.head?_eq_some_iff.mp hhead
      rw [List.cons_append, List.cons_append, htail]
      exact ⟨tail, rfl⟩
    · rw [List.cons_append, List.cons_append, behindBlock_cons fun hc hhead => hend ⟨hc, hhead⟩]
      exact ih

theorem behindBlock_append (h : behindBlock cs = some rest) (more : List Char) :
    behindBlock (cs ++ more) = some (rest ++ more) := by
  fun_induction behindBlock cs with
  | case1 => cases h
  | case2 tail =>
    cases h
    rfl
  | case3 c cs hnot ih =>
    rw [List.cons_append, behindBlock_cons, ih h]
    rintro rfl hhead
    cases cs with
    | nil => cases h
    | cons d cs =>
      cases hhead
      exact hnot cs rfl rfl

theorem behindComment_eq (hwhite : ∀ c ∈ white, Text.isBlank c) (inner : List Char) :
    behindComment (white ++ '/' :: '*' :: inner) = behindBlock inner := by
  have hslash : ∀ d ∈ ('/' :: '*' :: inner).head?, ¬ Text.isBlank d := by
    rintro _ ⟨⟩
    decide
  rw [behindComment, (takeWhile_append_eq hwhite hslash).2]
  rfl

/-! ### The block of a documentation comment -/

/-- A line within a documentation comment. -/
def starLine (indent line : String) : String :=
  if line.isEmpty then indent ++ " *" else indent ++ " * " ++ line

/-- What stands between the beginning and the end of a documentation comment. -/
def docBody (indent text : String) : List Char :=
  ['*'] ++ '\n' ::
    (((Text.lines text).map (starLine indent)).flatMap (fun line => line.toList ++ ['\n']) ++
      (indent.toList ++ [' ']))

theorem toList_intercalate_concat (lines : List String) (last : String) :
    ("\n".intercalate (lines ++ [last])).toList =
      lines.flatMap (fun line => line.toList ++ ['\n']) ++ last.toList := by
  induction lines with
  | nil => rw [List.nil_append, String.intercalate_singleton, List.flatMap_nil, List.nil_append]
  | cons line lines ih =>
    obtain ⟨next, others, hnext⟩ := List.exists_cons_of_ne_nil
      (List.append_ne_nil_of_right_ne_nil lines (List.cons_ne_nil last []))
    rw [List.cons_append, hnext, String.intercalate_cons_cons, ← hnext, String.toList_append, ih,
      String.toList_append, List.flatMap_cons, List.append_assoc, List.append_assoc,
      List.append_assoc]
    rfl

theorem toList_docLines (indent text : String) :
    ("\n".intercalate (docLines indent (some text))).toList =
      indent.toList ++ '/' :: '*' :: (docBody indent text ++ closing) := by
  have hlines : docLines indent (some text) =
      ((indent ++ "/**") :: (Text.lines text).map (starLine indent)) ++ [indent ++ " */"] := rfl
  have hopen : "/**".toList = ['/', '*', '*'] := rfl
  have hclose : " */".toList = [' ', '*', '/'] := rfl
  rw [hlines, toList_intercalate_concat, List.flatMap_cons, String.toList_append,
    String.toList_append, hopen, hclose, docBody, closing]
  simp only [List.append_assoc, List.cons_append, List.nil_append]

section

variable {indent : String}

/-- There is no star in white space. -/
theorem not_closing_infix_of_blank (h : ∀ c ∈ white, Text.isBlank c) : ¬ closing <:+: white :=
  fun hmem => absurd (h '*' (hmem.subset List.mem_cons_self)) (by decide)

theorem closing_infix_starLine_iff (h : ∀ c ∈ indent.toList, Text.isBlank c) (line : String) :
    closing <:+: (starLine indent line).toList ↔ closing <:+: line.toList := by
  have hspace : ' ' ∉ closing := by decide
  have hindent := not_closing_infix_of_blank h
  have hstar : ¬ closing <:+: ['*'] := by decide
  have hempty : " *".toList = [' ', '*'] := rfl
  have hfull : " * ".toList = [' ', '*', ' '] := rfl
  rw [starLine]
  split
  · next hline =>
    rw [String.isEmpty_iff.mp hline, String.toList_append, hempty,
      Text.infix_append_cons_iff hspace, or_iff_right hindent]
    exact iff_of_false hstar (by decide +kernel)
  · rw [String.toList_append, String.toList_append, hfull, List.append_assoc, List.cons_append,
      Text.infix_append_cons_iff hspace, or_iff_right hindent]
    show closing <:+: ['*'] ++ ' ' :: line.toList ↔ _
    rw [Text.infix_append_cons_iff hspace, or_iff_right hstar]

theorem closing_infix_flatMap_iff (lines : List String) (last : List Char) :
    closing <:+: lines.flatMap (fun line => line.toList ++ ['\n']) ++ last ↔
      (∃ line ∈ lines, closing <:+: line.toList) ∨ closing <:+: last := by
  induction lines with
  | nil => simp
  | cons line lines ih =>
    rw [List.flatMap_cons, List.append_assoc, List.append_assoc, List.singleton_append,
      Text.infix_append_cons_iff (by decide), ih, ← or_assoc,
      List.exists_mem_cons_iff (fun line : String => closing <:+: line.toList)]

/-- The end of a comment stands in a documentation comment only if it stands in the text. -/
theorem closing_infix_docBody_iff (h : ∀ c ∈ indent.toList, Text.isBlank c) (text : String) :
    closing <:+: docBody indent text ↔ closing <:+: text.toList := by
  have hlast : ¬ closing <:+: indent.toList ++ [' '] := by
    refine not_closing_infix_of_blank (List.forall_mem_append.mpr ⟨h, ?_⟩)
    exact List.forall_mem_singleton.mpr (by decide)
  have hstar : ¬ closing <:+: ['*'] := by decide
  rw [docBody, Text.infix_append_cons_iff (by decide), or_iff_right hstar,
    closing_infix_flatMap_iff, or_iff_left hlast, Text.infix_lines_iff (by decide)]
  simp only [List.mem_map, exists_exists_and_eq_and, closing_infix_starLine_iff h]

/-- The lines of a documentation comment are one block if the text has no end of a comment. -/
theorem isBlock_docLines_iff (h : ∀ c ∈ indent.toList, Text.isBlank c) (text : String) :
    IsBlock ("\n".intercalate (docLines indent (some text))).toList ↔
      ¬ closing <:+: text.toList := by
  rw [← closing_infix_docBody_iff h, toList_docLines]
  constructor
  · rintro ⟨white, body, heq, hwhite, hbody⟩ hmem
    -- both ways to read the text find the same first end of a comment
    have hread := congrArg behindComment heq
    have hclosed := behindBlock_closing hbody []
    rw [List.append_nil] at hclosed
    rw [behindComment_eq h, behindComment_eq hwhite, hclosed] at hread
    obtain ⟨rest, hrest⟩ := exists_behindBlock hmem
    rw [behindBlock_append hrest] at hread
    exact absurd (Option.some.inj hread) (List.append_ne_nil_of_right_ne_nil _ (by decide))
  · exact fun hbody => ⟨_, _, rfl, h, hbody⟩

/-- What is read behind a documentation comment is what is written there, and before it the rest of
the comment if the text has the end of one. -/
theorem exists_behindComment (h : ∀ c ∈ indent.toList, Text.isBlank c) (text : String) :
    ∃ spilled, (spilled = [] ↔ ¬ closing <:+: text.toList) ∧ ∀ rest,
      behindComment (("\n".intercalate (docLines indent (some text))).toList ++ rest) =
        some (spilled ++ rest) := by
  have hread (rest : List Char) :
      behindComment (("\n".intercalate (docLines indent (some text))).toList ++ rest) =
        behindBlock (docBody indent text ++ closing ++ rest) := by
    rw [toList_docLines, List.append_assoc, List.cons_append, List.cons_append, behindComment_eq h]
  simp only [hread, ← closing_infix_docBody_iff h text]
  by_cases hmem : closing <:+: docBody indent text
  · obtain ⟨spilled, hspilled⟩ := exists_behindBlock hmem
    have hne : spilled ++ closing ≠ [] := List.append_ne_nil_of_right_ne_nil _ (by decide)
    refine ⟨spilled ++ closing, iff_of_false hne (not_not_intro hmem), fun rest => ?_⟩
    exact behindBlock_append (behindBlock_append hspilled closing) rest
  · exact ⟨[], iff_of_true rfl hmem, behindBlock_closing hmem⟩

end

end TypeScript

/-! ### Line comments -/

namespace Rust

/-- The text is white space and one documentation comment on one line. -/
def IsDocLine (cs : List Char) : Prop :=
  ∃ white words, cs = white ++ '/' :: '/' :: '/' :: words ∧ (∀ c ∈ white, Text.isBlank c) ∧
    (∀ c ∈ words.head?, c = ' ') ∧ '\n' ∉ cs

theorem isDocLine_of_mem_docLines {indent text line : String}
    (h : ∀ c ∈ indent.toList, Text.isBlank c ∧ c ≠ '\n')
    (hline : line ∈ docLines indent (some text)) : IsDocLine line.toList := by
  obtain ⟨part, hpart, rfl⟩ := List.mem_map.mp hline
  have hindent : '\n' ∉ indent.toList := fun hmem => (h _ hmem).2 rfl
  have hslashes : '\n' ∉ ['/', '/', '/'] := by decide
  split
  · have hmark : "///".toList = ['/', '/', '/'] := rfl
    rw [String.toList_append, hmark]
    refine ⟨_, [], rfl, fun c hc => (h c hc).1, fun _ h => (nomatch h), ?_⟩
    exact fun hmem => (List.mem_append.mp hmem).elim hindent hslashes
  · have hmark : "/// ".toList = ['/', '/', '/', ' '] := rfl
    rw [String.toList_append, String.toList_append, hmark, List.append_assoc]
    refine ⟨_, ' ' :: part.toList, rfl, fun c hc => (h c hc).1, ?_, fun hmem => ?_⟩
    · rintro _ ⟨⟩
      rfl
    · rcases List.mem_append.mp hmem with hmem | hmem
      · exact hindent hmem
      · rcases List.mem_append.mp hmem with hmem | hmem
        · revert hmem
          decide
        · exact Text.notMem_of_mem_split hpart hmem

end Rust

/-! ### Texts of documentation comments -/

open Source

/-- A block of documentation comments in some text stands for the text. -/
def IsDocText (text : String) : Prop :=
  ∃ source tokens ts rest, Token.scan source = .ok tokens ∧ ts <:+ tokens.list ∧
    Parser.docs ts = .ok (some text, rest)

/-- A line of documentation as a comment. -/
def docComment (line : String) : String := "/// " ++ line

theorem toList_docComment (line : String) :
    (docComment line).toList = '/' :: '/' :: '/' :: ' ' :: line.toList := by
  have hmark : "/// ".toList = ['/', '/', '/', ' '] := rfl
  rw [docComment, String.toList_append, hmark]
  rfl

theorem isToken_docComment {line : String} (h : '\n' ∉ line.toList) :
    Token.IsToken (docComment line) := by
  have hwhole : ∀ d ∈ '/' :: '/' :: '/' :: ' ' :: line.toList, d != '\n' := by
    have hline : ∀ d ∈ line.toList, d != '\n' := fun d hd =>
      bne_iff_ne.mpr fun heq => h (heq ▸ hd)
    simpa using hline
  have hend := takeWhile_append_eq hwhole (fun _ h => nomatch h : ∀ d ∈ [].head?, ¬ d != '\n')
  rw [List.append_nil, List.takeWhile_cons_of_pos (by decide),
    List.dropWhile_cons_of_pos (by decide)] at hend
  refine ⟨none, (docComment line).toList, [], ?_, ?_⟩
  · rw [toList_docComment, Lexeme.lexeme?_slash, List.head?_cons, if_pos rfl, hend.1, hend.2]
  · rw [toList_docComment]
    rfl

/-- Comments stand for the lines that they are written for. -/
theorem docLines_of_texts_eq {ts : List Token} {lines : List String}
    (h : ts.map Token.text = lines.map docComment) :
    (∀ t ∈ ts, t.isDoc) ∧ ts.map Parser.docLine = lines := by
  induction lines generalizing ts with
  | nil =>
    rw [List.map_nil, List.map_eq_nil_iff] at h
    subst h
    exact ⟨List.forall_mem_nil _, rfl⟩
  | cons line lines ih =>
    rw [List.map_cons] at h
    obtain ⟨t, ts, rfl, ht, hts⟩ := List.map_eq_cons_iff.mp h
    obtain ⟨hdocs, hlines⟩ := ih hts
    have hlist : t.text.toList = '/' :: '/' :: '/' :: ' ' :: line.toList := by
      rw [ht, toList_docComment]
    have hdoc : t.isDoc := by
      rw [Token.isDoc, hlist]
      rfl
    have hline : Parser.docLine t = line := by
      rw [Parser.docLine, hlist]
      exact String.ofList_toList
    exact ⟨List.forall_mem_cons.mpr ⟨hdoc, hdocs⟩, by rw [List.map_cons, hline, hlines]⟩

/-- The texts of blocks of documentation comments are those that end in a line break. -/
theorem isDocText_iff (text : String) : IsDocText text ↔ text.toList.getLast? = some '\n' := by
  have hmark : "\n".toList = ['\n'] := rfl
  constructor
  · rintro ⟨source, tokens, ts, rest, -, -, hdocs⟩
    rcases Parser.docs_eq_ok hdocs with ⟨hnone, -⟩ | ⟨block, htext, -⟩
    · cases hnone
    · cases htext
      rw [Note.docText, String.toList_append, hmark, List.getLast?_concat]
  · intro hlast
    obtain ⟨cs, hcs⟩ := List.getLast?_eq_some_iff.mp hlast
    have htext : text = String.ofList cs ++ "\n" := by
      rw [← String.toList_inj, String.toList_append, String.toList_ofList, hmark, hcs]
    -- the text is written with one comment for each of its lines
    have hwords : ∀ w ∈ (Text.split '\n' (String.ofList cs)).map docComment, Token.IsToken w :=
      List.forall_mem_map.mpr fun line hline => isToken_docComment (Text.notMem_of_mem_split hline)
    have hstart : ∀ c ∈ ([] : List Char).getLast?, ¬ Text.isWord c := by
      intro c hc
      cases hc
    obtain ⟨lexemes, hcut, htexts⟩ :=
      Token.exists_cut_spread (Token.spread_intercalate _) hwords hstart
    obtain ⟨hdocs, hlines⟩ := docLines_of_texts_eq htexts
    refine ⟨_, _, _, [], Token.scan_of_cut hcut, List.suffix_refl _, ?_⟩
    have hne : (Text.split '\n' (String.ofList cs)).isEmpty = false :=
      List.isEmpty_eq_false_iff.mpr (Text.split_ne_nil _ _)
    rw [Parser.docs, List.takeWhile_eq_self_iff.mpr hdocs, List.dropWhile_eq_nil_iff.mpr hdocs,
      hlines, hne, Text.intercalate_split hmark, htext]
    rfl

/-! ### Main statement -/

/-- **Documentation in the texts that are written.**  For every text and every indentation, the
lines of its documentation comment in TypeScript are one block comment, behind which everything is
read as it is, if and only if the end of a comment does not occur in the text; else part of the
comment is read as code.  In Rust they are line comments, each on one line.  Any text that ends in a
line break can be the text of a block of documentation comments. -/
theorem documentation_comments {indent : String}
    (h : ∀ c ∈ indent.toList, Text.isBlank c ∧ c ≠ '\n') (text : String) :
    (TypeScript.IsBlock ("\n".intercalate (TypeScript.docLines indent (some text))).toList ↔
      ¬ TypeScript.closing <:+: text.toList) ∧
    (∃ spilled, (spilled = [] ↔ ¬ TypeScript.closing <:+: text.toList) ∧ ∀ rest,
      TypeScript.behindComment
        (("\n".intercalate (TypeScript.docLines indent (some text))).toList ++ rest) =
          some (spilled ++ rest)) ∧
    (∀ line ∈ Rust.docLines indent (some text), Rust.IsDocLine line.toList) ∧
    (IsDocText text ↔ text.toList.getLast? = some '\n') := by
  have hblank : ∀ c ∈ indent.toList, Text.isBlank c := fun c hc => (h c hc).1
  exact ⟨TypeScript.isBlock_docLines_iff hblank text, TypeScript.exists_behindComment hblank text,
    fun _ hline => Rust.isDocLine_of_mem_docLines h hline, isDocText_iff text⟩

/-- A text with the end of a comment in it. -/
def spillingText : String := "Ends */ here.\n"

/-- A comment can have the text, and in TypeScript the text ends the comment. -/
theorem spillingText_comments :
    IsDocText spillingText ∧
    ¬ TypeScript.IsBlock ("\n".intercalate (TypeScript.docLines "  " (some spillingText))).toList ∧
    TypeScript.IsBlock ("\n".intercalate (TypeScript.docLines "  " (some "Fine.\n"))).toList ∧
    ∀ line ∈ Rust.docLines "  " (some spillingText), Rust.IsDocLine line.toList := by
  have hindent : ∀ c ∈ "  ".toList, Text.isBlank c ∧ c ≠ '\n' := by
    intro c hc
    obtain rfl : c = ' ' := by simpa using hc
    decide
  obtain ⟨hblock, -, hlines, hdoc⟩ := documentation_comments hindent spillingText
  obtain ⟨hfine, -⟩ := documentation_comments hindent "Fine.\n"
  refine ⟨hdoc.mpr (by decide +kernel), ?_, hfine.mpr (by decide +kernel), hlines⟩
  rw [hblock, not_not]
  decide +kernel

end Adl
