/-!
# Split — the parts of a text between separators

A text with `n` separators has `n + 1` parts, some of which may be empty; writing the separator
between the parts gives the text back.
-/

namespace Adl.Text

/-- The parts of a list of characters between occurrences of a separator, empty parts included. -/
def splitChars (sep : Char) : List Char → List (List Char)
  | [] => [[]]
  | c :: cs =>
    if c = sep then [] :: splitChars sep cs
    else
      match splitChars sep cs with
      | part :: parts => (c :: part) :: parts
      | [] => [[c]]

@[simp] theorem splitChars_nil (sep : Char) : splitChars sep [] = [[]] := rfl

theorem splitChars_cons (sep c : Char) (cs : List Char) :
    ∃ part parts, splitChars sep cs = part :: parts ∧
      splitChars sep (c :: cs) = if c = sep then [] :: part :: parts else (c :: part) :: parts := by
  induction cs generalizing c with
  | nil => exact ⟨[], [], rfl, by simp [splitChars]⟩
  | cons b cs ih =>
    obtain ⟨part, parts, -, h⟩ := ih b
    by_cases hb : b = sep
    · rw [if_pos hb] at h
      exact ⟨[], part :: parts, h, by rw [splitChars, h]⟩
    · rw [if_neg hb] at h
      exact ⟨b :: part, parts, h, by rw [splitChars, h]⟩

/-- Writing another character between the parts puts it in the place of the separators. -/
theorem intercalate_splitChars_other (sep other : Char) (cs : List Char) :
    [other].intercalate (splitChars sep cs) = cs.map fun c => if c = sep then other else c := by
  induction cs with
  | nil => rfl
  | cons c cs ih =>
    obtain ⟨part, parts, h, hc⟩ := splitChars_cons sep c cs
    rw [h] at ih
    rw [hc, List.map_cons, ← ih]
    split
    · simp [List.intercalate]
    · cases parts <;> simp [List.intercalate]

/-- Writing the separator between the parts gives the text back. -/
theorem intercalate_splitChars (sep : Char) (cs : List Char) :
    [sep].intercalate (splitChars sep cs) = cs := by
  have hsame : ∀ c ∈ cs, (if c = sep then sep else c) = c := by
    intro c _
    split
    · next hs => exact hs.symm
    · rfl
  rw [intercalate_splitChars_other, List.map_congr_left hsame, List.map_id']

/-- The parts together are what is left of the text without the separators. -/
theorem flatten_splitChars (sep : Char) (cs : List Char) :
    (splitChars sep cs).flatten = cs.filter (· ≠ sep) := by
  induction cs with
  | nil => rfl
  | cons c cs ih =>
    obtain ⟨part, parts, h, hc⟩ := splitChars_cons sep c cs
    rw [h] at ih
    rw [hc]
    split
    · next hs => simpa [hs] using ih
    · next hs => simpa [hs] using ih

/-- The parts are made of the characters of the text other than the separator. -/
theorem mem_of_mem_splitChars {sep c : Char} {cs part : List Char}
    (h : part ∈ splitChars sep cs) (hc : c ∈ part) : c ∈ cs ∧ c ≠ sep := by
  have hmem := List.mem_flatten_of_mem h hc
  rwa [flatten_splitChars, List.mem_filter, decide_eq_true_eq] at hmem

/-- The parts of a text between occurrences of a separator, empty parts included. -/
def split (sep : Char) (s : String) : List String :=
  (splitChars sep s.toList).map String.ofList

/-- A list of characters without the occurrences of `c` at its end. -/
def trimEndChars (c : Char) (cs : List Char) : List Char :=
  (cs.reverse.dropWhile (· = c)).reverse

/-- A text without the occurrences of `c` at its end. -/
def trimEnd (c : Char) (s : String) : String := String.ofList (trimEndChars c s.toList)

/-- The lines of a text; line breaks at its end do not count. -/
def lines (s : String) : List String := split '\n' (trimEnd '\n' s)

end Adl.Text
