import Adl.Target.RustText
import Mathlib.Data.List.Infix
import Mathlib.Order.MinMax

/-!
# RawStrings — raw string literals that end where they should

A raw string literal ends at the first quote with as many hash signs behind it as the literal begins
with (`readRaw?`), so a text can end it early in one way only: it has a quote with that many hash
signs in it (`readRaw?_rawCharsWith_iff`).  The literal that is written has more than follow any
quote of the text, and no literal with fewer of them, but at least one, could be read back
(`rawString_laws`).
-/

namespace Adl.Rust

/-! ### Reading -/

/-- A number of hash signs. -/
abbrev hashes (n : Nat) : List Char := List.replicate n '#'

/-- What stands before the first quote with `n` hash signs behind it, and what stands behind
these. -/
def rawBody? (n : Nat) : List Char → Option (List Char × List Char)
  | [] => none
  | c :: cs =>
    if c = '"' ∧ hashes n <+: cs then some ([], cs.drop n)
    else (rawBody? n cs).map fun (body, rest) => (c :: body, rest)

/-- A raw string literal at the beginning of a text: the number of its hash signs, the text that it
stands for, and what follows the literal. -/
def readRaw? : List Char → Option (Nat × List Char × List Char)
  | 'r' :: cs =>
    let n := (cs.takeWhile (· = '#')).length
    match cs.dropWhile (· = '#') with
    | '"' :: inner => (rawBody? n inner).map fun (body, rest) => (n, body, rest)
    | _ => none
  | _ => none

/-- The characters of a literal with `n` hash signs at its ends. -/
def rawCharsWith (n : Nat) (cs : List Char) : List Char :=
  'r' :: (hashes n ++ '"' :: (cs ++ '"' :: hashes n))

theorem rawChars_eq (cs : List Char) : rawChars cs = rawCharsWith (hashCount cs) cs := rfl

/-- A quote with `n` hash signs behind it. -/
def closing (n : Nat) : List Char := '"' :: hashes n

variable {n : Nat} {c : Char} {cs rest : List Char} {run : Option Nat}

/-! ### The first end of a literal -/

/-- A quote is no hash sign. -/
theorem hashes_prefix_append_iff :
    hashes n <+: cs ++ '"' :: rest ↔ hashes n <+: cs := by
  induction n generalizing cs with
  | zero => simp
  | succ n ih =>
    cases cs with
    | nil => simp [List.replicate_succ]
    | cons d cs => simp [List.replicate_succ, List.cons_prefix_cons, ih]

/-- The end of a literal occurs at the beginning of a text or behind its first character. -/
theorem closing_infix_cons_iff :
    closing n <:+: c :: cs ↔ (c = '"' ∧ hashes n <+: cs) ∨ closing n <:+: cs := by
  rw [List.infix_cons_iff, closing, List.cons_prefix_cons, eq_comm (a := '"')]

/-- A literal with the text `cs` is read up to its own end if and only if no other end occurs
in `cs`. -/
theorem rawBody?_closing_iff (rest : List Char) :
    rawBody? n (cs ++ closing n ++ rest) = some (cs, rest) ↔ ¬ closing n <:+: cs := by
  induction cs with
  | nil => simp [rawBody?, closing]
  | cons c cs ih =>
    have hstarts : hashes n <+: cs ++ closing n ++ rest ↔ hashes n <+: cs := by
      rw [List.append_assoc]
      exact hashes_prefix_append_iff
    rw [closing_infix_cons_iff, List.cons_append, List.cons_append, rawBody?]
    simp only [hstarts]
    by_cases hend : c = '"' ∧ hashes n <+: cs
    · simp [hend]
    · rw [if_neg hend, or_iff_right hend, ← ih]
      simp

/-- All hash signs before the first quote belong to the beginning of a literal. -/
theorem readRaw?_eq (n : Nat) (inner : List Char) :
    readRaw? ('r' :: (hashes n ++ '"' :: inner)) =
      (rawBody? n inner).map fun (body, rest) => (n, body, rest) := by
  have htake : (hashes n ++ '"' :: inner).takeWhile (· = '#') = hashes n := by simp
  have hdrop : (hashes n ++ '"' :: inner).dropWhile (· = '#') = '"' :: inner := by simp
  rw [readRaw?, htake, hdrop, List.length_replicate]
  rfl

/-- A literal is read back if its text does not end it early. -/
theorem readRaw?_rawCharsWith_iff (rest : List Char) :
    readRaw? (rawCharsWith n cs ++ rest) = some (n, cs, rest) ↔ ¬ closing n <:+: cs := by
  have happend : rawCharsWith n cs ++ rest =
      'r' :: (hashes n ++ '"' :: (cs ++ closing n ++ rest)) := by
    simp [rawCharsWith, closing]
  rw [← rawBody?_closing_iff rest, happend, readRaw?_eq]
  simp

/-! ### The longest run of hash signs -/

/-- The run of `k` hash signs that was met before a text is `n` long somewhere in it. -/
def Continues (n k : Nat) (cs : List Char) : Prop :=
  ∃ j, 0 < j ∧ n ≤ k + j ∧ hashes j <+: cs

theorem continues_hash_iff {k : Nat} :
    Continues n k ('#' :: cs) ↔ n ≤ k + 1 ∨ Continues n (k + 1) cs := by
  constructor
  · rintro ⟨j, hj, hle, hstarts⟩
    obtain ⟨j, rfl⟩ : ∃ i, j = i + 1 := ⟨j - 1, by omega⟩
    rw [hashes, List.replicate_succ, List.cons_prefix_cons] at hstarts
    by_cases hzero : j = 0
    · exact .inl (by omega)
    · exact .inr ⟨j, by omega, by omega, hstarts.2⟩
  · rintro (hle | ⟨j, hj, hle, hstarts⟩)
    · exact ⟨1, Nat.one_pos, hle, by simp⟩
    · refine ⟨j + 1, by omega, by omega, ?_⟩
      rw [hashes, List.replicate_succ, List.cons_prefix_cons]
      exact ⟨rfl, hstarts⟩

theorem not_continues_of_ne {k : Nat} (hc : c ≠ '#') : ¬ Continues n k (c :: cs) := by
  rintro ⟨j, hj, -, hstarts⟩
  obtain ⟨j, rfl⟩ : ∃ i, j = i + 1 := ⟨j - 1, by omega⟩
  rw [hashes, List.replicate_succ, List.cons_prefix_cons] at hstarts
  exact hc hstarts.1.symm

/-- The run behind a quote. -/
theorem continues_zero_iff (hn : 0 < n) : Continues n 0 cs ↔ hashes n <+: cs := by
  constructor
  · rintro ⟨j, -, hle, hstarts⟩
    rw [Nat.zero_add] at hle
    refine List.IsPrefix.trans ?_ hstarts
    exact ⟨hashes (j - n), by rw [hashes, hashes, List.replicate_append_replicate]; congr 1; omega⟩
  · exact fun hstarts => ⟨n, hn, by omega, hstarts⟩

/-- A run of `n` hash signs continues one that was met before, or it stands behind a quote.  The
induction is on the text, with the run before it. -/
theorem le_longestRun_iff (hn : 0 < n) :
    n ≤ longestRun run cs ↔ (∃ k, run = some k ∧ Continues n k cs) ∨ closing n <:+: cs := by
  induction cs generalizing run with
  | nil =>
    have hcontinues : ∀ k, ¬ Continues n k [] := by
      rintro k ⟨j, hj, -, hstarts⟩
      rw [List.prefix_nil, List.replicate_eq_nil_iff] at hstarts
      omega
    have hzero : ¬ n ≤ 0 := Nat.not_le_of_lt hn
    simp [longestRun, closing, hcontinues, hzero]
  | cons c cs ih =>
    rw [longestRun, closing_infix_cons_iff]
    by_cases hquote : c = '"'
    · subst hquote
      have hne : ∀ k, ¬ Continues n k ('"' :: cs) := fun k => not_continues_of_ne (by decide)
      rw [if_pos rfl, Option.getD_some, Nat.zero_max, ih]
      simp [hne, continues_zero_iff hn]
    · rw [if_neg hquote]
      by_cases hhash : c = '#'
      · subst hhash
        rw [if_pos rfl]
        cases run with
        | none =>
          rw [Option.map_none, Option.getD_none, Nat.zero_max, ih]
          simp
        | some k =>
          rw [Option.map_some, Option.getD_some, le_max_iff, ih]
          simp [continues_hash_iff, or_assoc]
      · have hne : ∀ k, ¬ Continues n k (c :: cs) := fun k => not_continues_of_ne hhash
        rw [if_neg hhash, Option.getD_none, Nat.zero_max, ih]
        simp [hne, hquote]

/-- The end of a literal with `n` hash signs occurs in a text unless `n` is greater than all its
runs. -/
theorem closing_infix_iff (hn : 0 < n) : closing n <:+: cs ↔ n < hashCount cs := by
  rw [hashCount, Nat.lt_succ_iff, le_longestRun_iff hn]
  simp

/-! ### Main statement -/

/-- **Raw strings cannot be left early.**  Whatever follows the literal of a text, reading it ends
at the end of the literal and gives the text.  Of all literals of the text with at least one hash
sign, those are read back that have as many as this one or more. -/
theorem rawString_laws (text : String) :
    0 < hashCount text.toList ∧
    (∀ rest, readRaw? ((rawString text).toList ++ rest) =
      some (hashCount text.toList, text.toList, rest)) ∧
    ∀ n rest, 0 < n →
      (readRaw? (rawCharsWith n text.toList ++ rest) = some (n, text.toList, rest) ↔
        hashCount text.toList ≤ n) := by
  have hread : ∀ n rest, 0 < n →
      (readRaw? (rawCharsWith n text.toList ++ rest) = some (n, text.toList, rest) ↔
        hashCount text.toList ≤ n) := by
    intro n rest hn
    rw [readRaw?_rawCharsWith_iff, closing_infix_iff hn, not_lt]
  have hpos : 0 < hashCount text.toList := Nat.succ_pos _
  refine ⟨hpos, fun rest => ?_, hread⟩
  rw [rawString, String.toList_ofList, rawChars_eq]
  exact (hread _ rest hpos).mpr le_rfl

/-- A text with a hash sign behind a quote. -/
def taggedText : String := "a\"#b\""

/-- Its literal has two hash signs; with one it would end behind the quote in the middle. -/
theorem taggedText_rawString :
    readRaw? ((rawString taggedText).toList ++ [';']) = some (2, taggedText.toList, [';']) ∧
      0 < 1 ∧ readRaw? (rawCharsWith 1 taggedText.toList ++ [';']) ≠
        some (1, taggedText.toList, [';']) := by
  obtain ⟨-, hown, hread⟩ := rawString_laws taggedText
  have hcount : hashCount taggedText.toList = 2 := by decide +kernel
  rw [hcount] at hown hread
  refine ⟨hown [';'], Nat.one_pos, ?_⟩
  rw [Ne, hread 1 [';'] Nat.one_pos]
  omega

end Adl.Rust
