import Adl.Text.Split
import Mathlib.Data.List.Basic
import Mathlib.Data.List.TakeWhile

/-!
# Split — parts between separators, taken apart and put together

The parts of two texts with a separator between them are those of the one followed by those of the
other (`split_append`).  So writing the separator between texts that do not have it and splitting
again gives them back (`split_intercalate`), as splitting a text and writing the separator between
its parts gives back the text (`intercalate_split`).  What does not have the separator occurs in a
text exactly if it occurs in one of the parts (`infix_lines_iff`).
-/

namespace Adl.Text

variable {sep : Char} {mark s : String} {parts : List String}

/-! ### Characters -/

theorem splitChars_append (sep : Char) (cs ds : List Char) :
    splitChars sep (cs ++ sep :: ds) = splitChars sep cs ++ splitChars sep ds := by
  induction cs with
  | nil =>
    obtain ⟨part, parts, h, hc⟩ := splitChars_cons sep sep ds
    rw [List.nil_append, hc, if_pos rfl, h]
    rfl
  | cons c cs ih =>
    obtain ⟨part, parts, h, hc⟩ := splitChars_cons sep c cs
    obtain ⟨part', parts', h', hc'⟩ := splitChars_cons sep c (cs ++ sep :: ds)
    rw [ih, h, List.cons_append, List.cons.injEq] at h'
    obtain ⟨rfl, rfl⟩ := h'
    rw [List.cons_append, hc', hc]
    split <;> rfl

theorem splitChars_of_notMem {cs : List Char} (h : sep ∉ cs) : splitChars sep cs = [cs] := by
  induction cs with
  | nil => rfl
  | cons c cs ih =>
    rw [List.mem_cons, not_or] at h
    rw [splitChars, if_neg (Ne.symm h.1), ih h.2]

/-- What does not have a character does not reach over it. -/
theorem infix_append_cons_iff {word cs ds : List Char} (h : sep ∉ word) :
    word <:+: cs ++ sep :: ds ↔ word <:+: cs ∨ word <:+: ds := by
  constructor
  · rintro ⟨before, after, heq⟩
    rw [List.append_assoc] at heq
    rcases List.append_eq_append_iff.mp heq with ⟨mid, rfl, hmid⟩ | ⟨mid, rfl, hmid⟩
    · rcases List.append_eq_append_iff.mp hmid with ⟨tail, rfl, -⟩ | ⟨tail, rfl, htail⟩
      · exact .inl ⟨before, tail, List.append_assoc ..⟩
      · cases tail with
        | nil => exact .inl ⟨before, [], by rw [List.append_nil, List.append_nil]⟩
        | cons c tail =>
          obtain ⟨rfl, -⟩ := List.cons.inj htail
          exact absurd (List.mem_append_right _ List.mem_cons_self) h
    · cases mid with
      | nil => cases word with
        | nil => exact .inl List.nil_infix
        | cons c word =>
          obtain ⟨rfl, -⟩ := List.cons.inj hmid
          exact absurd List.mem_cons_self h
      | cons c mid =>
        obtain ⟨rfl, rfl⟩ := List.cons.inj hmid
        exact .inr ⟨mid, after, List.append_assoc ..⟩
  · rintro (hword | hword)
    · exact hword.trans (List.prefix_append _ _).isInfix
    · exact hword.trans ((List.suffix_cons _ _).trans (List.suffix_append _ _)).isInfix

theorem infix_intercalate_iff {word : List Char} (h : sep ∉ word) {parts : List (List Char)}
    (hne : parts ≠ []) :
    word <:+: [sep].intercalate parts ↔ ∃ part ∈ parts, word <:+: part := by
  induction parts with
  | nil => exact absurd rfl hne
  | cons part parts ih =>
    cases parts with
    | nil => simp
    | cons next parts =>
      rw [List.intercalate_cons_cons, List.append_assoc, List.singleton_append,
        infix_append_cons_iff h, ih (List.cons_ne_nil _ _), ← List.exists_mem_cons_iff]

theorem exists_eq_trimEndChars_append (c : Char) (cs : List Char) :
    ∃ n, cs = trimEndChars c cs ++ List.replicate n c := by
  refine ⟨(cs.reverse.takeWhile (· = c)).length, ?_⟩
  have hall : ∀ d ∈ (cs.reverse.takeWhile (· = c)).reverse, d = c := by
    intro d hd
    have hc := List.mem_takeWhile_imp (List.mem_reverse.mp hd)
    exact of_decide_eq_true hc
  have hsplit := List.takeWhile_append_dropWhile (p := (· = c)) (l := cs.reverse)
  rw [← List.length_reverse, ← List.eq_replicate_of_mem hall, trimEndChars,
    ← List.reverse_append, hsplit, List.reverse_reverse]

/-! ### Texts -/

theorem split_ne_nil (sep : Char) (s : String) : split sep s ≠ [] := by
  rw [split, Ne, List.map_eq_nil_iff]
  cases h : s.toList with
  | nil => exact List.cons_ne_nil _ _
  | cons c cs =>
    obtain ⟨part, parts, -, hc⟩ := splitChars_cons sep c cs
    rw [hc]
    split <;> exact List.cons_ne_nil _ _

/-- A text without separators has one part. -/
theorem split_of_notMem (h : sep ∉ s.toList) : split sep s = [s] := by
  rw [split, splitChars_of_notMem h, List.map_singleton, String.ofList_toList]

theorem split_append (hmark : mark.toList = [sep]) (s rest : String) :
    split sep (s ++ mark ++ rest) = split sep s ++ split sep rest := by
  simp only [split, String.toList_append, hmark, List.append_assoc, List.singleton_append,
    splitChars_append, List.map_append]

/-- Texts without separators are the parts of what is written with separators between them. -/
theorem split_intercalate (hmark : mark.toList = [sep]) (hne : parts ≠ [])
    (h : ∀ part ∈ parts, sep ∉ part.toList) : split sep (mark.intercalate parts) = parts := by
  induction parts with
  | nil => exact absurd rfl hne
  | cons part parts ih =>
    obtain ⟨hpart, hparts⟩ := List.forall_mem_cons.mp h
    cases parts with
    | nil => rw [String.intercalate_singleton, split_of_notMem hpart]
    | cons next parts =>
      rw [String.intercalate_cons_cons, split_append hmark, split_of_notMem hpart,
        ih (List.cons_ne_nil _ _) hparts, List.singleton_append]

theorem map_toList_split (sep : Char) (s : String) :
    (split sep s).map String.toList = splitChars sep s.toList := by
  rw [split, List.map_map]
  exact (List.map_congr_left fun cs _ => String.toList_ofList).trans (List.map_id _)

/-- The parts of a text with separators between them are the text. -/
theorem intercalate_split (hmark : mark.toList = [sep]) (s : String) :
    mark.intercalate (split sep s) = s := by
  rw [← String.toList_inj, String.toList_intercalate, hmark, map_toList_split,
    intercalate_splitChars]

theorem notMem_of_mem_split {part : String} (h : part ∈ split sep s) : sep ∉ part.toList := by
  have hpart := List.mem_map_of_mem (f := String.toList) h
  rw [map_toList_split] at hpart
  exact fun hmem => (mem_of_mem_splitChars hpart hmem).2 rfl

/-- What does not have the separator occurs in a text if it occurs in a part. -/
theorem infix_split_iff {word : List Char} (h : sep ∉ word) (s : String) :
    word <:+: s.toList ↔ ∃ part ∈ split sep s, word <:+: part.toList := by
  have hne : splitChars sep s.toList ≠ [] := by
    rw [← map_toList_split, Ne, List.map_eq_nil_iff]
    exact split_ne_nil sep s
  rw [← intercalate_splitChars sep s.toList, infix_intercalate_iff h hne, ← map_toList_split]
  simp only [List.mem_map, exists_exists_and_eq_and]

theorem infix_trimEnd_iff {word : List Char} (h : sep ∉ word) (s : String) :
    word <:+: (trimEnd sep s).toList ↔ word <:+: s.toList := by
  obtain ⟨n, heq⟩ := exists_eq_trimEndChars_append sep s.toList
  rw [trimEnd, String.toList_ofList]
  refine Iff.trans ?_ (iff_of_eq (congrArg _ heq.symm))
  cases n with
  | zero => rw [List.replicate_zero, List.append_nil]
  | succ n =>
    rw [List.replicate_succ, infix_append_cons_iff h, iff_self_or]
    intro hword
    cases word with
    | nil => exact List.nil_infix
    | cons c word =>
      have hc : c ∈ List.replicate n sep := hword.subset List.mem_cons_self
      rw [List.eq_of_mem_replicate hc] at h
      exact absurd List.mem_cons_self h

/-- What has no line break occurs in a text if it occurs in a line. -/
theorem infix_lines_iff {word : List Char} (h : '\n' ∉ word) (s : String) :
    word <:+: s.toList ↔ ∃ line ∈ lines s, word <:+: line.toList := by
  rw [lines, ← infix_split_iff h, infix_trimEnd_iff h]

/-- A text that does not end in a character loses none of them at its end. -/
theorem trimEnd_of_getLast? {c : Char} (h : s.toList.getLast? ≠ some c) : trimEnd c s = s := by
  rw [← List.head?_reverse] at h
  have hdrop : s.toList.reverse.dropWhile (· = c) = s.toList.reverse := by
    cases hcs : s.toList.reverse with
    | nil => rfl
    | cons d ds =>
      rw [hcs, List.head?_cons, Ne, Option.some.injEq] at h
      rw [List.dropWhile_cons_of_neg (by simpa using h)]
  rw [trimEnd, trimEndChars, hdrop, List.reverse_reverse, String.ofList_toList]

end Adl.Text
