import Adl.Number.Layout
import Adl.Number.Numeral
import Mathlib.Data.List.Basic
import Mathlib.Data.List.TakeWhile

/-!
# Numeral — written numbers in front of other text

A number ends where none of its parts can go on (`Closed`), so what is cut off a number alone is
also cut off it in front of such a text (`scan?_closed`), and what is cut off any text is a number
alone (`scan?_chars_of_scan?`).  The decimal digits of an integer make up a number that has this
integer as its value (`scan?_ofInt`).  Of the texts of floating point numbers only the characters
are known here (`isNumberChar_of_mem_text`).
-/

namespace Adl

/-- A part of a list whose elements pass a test is cut off in front of what does not. -/
theorem takeWhile_append_eq {α : Type} {p : α → Bool} {as rest : List α} (h : ∀ a ∈ as, p a)
    (hrest : ∀ a ∈ rest.head?, ¬ p a) :
    (as ++ rest).takeWhile p = as ∧ (as ++ rest).dropWhile p = rest := by
  have hall : rest.takeWhile p = [] ∧ rest.dropWhile p = rest := by
    cases rest with
    | nil => exact ⟨rfl, rfl⟩
    | cons a rest =>
      exact ⟨List.takeWhile_cons_of_neg (hrest a rfl), List.dropWhile_cons_of_neg (hrest a rfl)⟩
  rw [List.takeWhile_append_of_pos h, List.dropWhile_append_of_pos h, hall.1, hall.2]
  exact ⟨List.append_nil _, rfl⟩

namespace Numeral

/-! ### Numbers in front of a text -/

/-- Nothing at the start of a text goes on with a number. -/
def Closed (digit : Char → Bool) (rest : List Char) : Prop :=
  ∀ c ∈ rest.head?, digit c = false ∧ c ∉ ['.', 'e', 'E', '+', '-']

section

variable {digit : Char → Bool} {rest : List Char}

theorem takeWhile_closed (h : Closed digit rest) (cs : List Char) :
    (cs ++ rest).takeWhile digit = cs.takeWhile digit := by
  induction cs with
  | nil =>
    cases rest with
    | nil => rfl
    | cons c rest =>
      rw [List.nil_append, List.takeWhile_cons_of_neg (by simp [(h c rfl).1])]
      rfl
  | cons c cs ih => rw [List.cons_append, List.takeWhile_cons, List.takeWhile_cons, ih]

theorem dropWhile_closed (h : Closed digit rest) (cs : List Char) :
    (cs ++ rest).dropWhile digit = cs.dropWhile digit ++ rest := by
  induction cs with
  | nil =>
    cases rest with
    | nil => rfl
    | cons c rest =>
      rw [List.nil_append, List.dropWhile_cons_of_neg (by simp [(h c rfl).1])]
      rfl
  | cons c cs ih =>
    rw [List.cons_append, List.dropWhile_cons, List.dropWhile_cons, ih]
    split <;> rfl

/-- A text that does not start with a part of a number does not either in front of such a text. -/
theorem Closed.append_ne (h : Closed digit rest) {c : Char} (hc : c ∈ ['.', 'e', 'E', '+', '-'])
    {cs : List Char} (hcs : ∀ t, cs = c :: t → False) : ∀ t, cs ++ rest = c :: t → False := by
  intro t ht
  cases cs with
  | nil =>
    rw [List.nil_append] at ht
    exact (h c (by rw [ht]; rfl)).2 hc
  | cons d ds => exact hcs ds (by rw [(List.cons.inj ht).1])

theorem scanFraction_closed (h : Closed digit rest) (cs : List Char) :
    scanFraction digit (cs ++ rest) =
      ((scanFraction digit cs).1, (scanFraction digit cs).2 ++ rest) := by
  fun_cases scanFraction digit cs with
  | case1 cs hempty =>
    rw [List.cons_append, scanFraction, takeWhile_closed h, if_pos hempty]
  | case2 cs hempty =>
    rw [List.cons_append, scanFraction, takeWhile_closed h, dropWhile_closed h, if_neg hempty]
  | case3 cs hpoint =>
    rw [scanFraction]
    exact h.append_ne (by decide) hpoint

theorem scanMark_closed (h : Closed digit rest) (cs : List Char) :
    scanMark (cs ++ rest) = ((scanMark cs).1, (scanMark cs).2 ++ rest) := by
  fun_cases scanMark cs with
  | case1 => rfl
  | case2 => rfl
  | case3 cs hplus hminus =>
    rw [List.cons_append, scanMark]
    · exact h.append_ne (by decide) hplus
    · exact h.append_ne (by decide) hminus
  | case4 => rfl
  | case5 => rfl
  | case6 cs hplus hminus =>
    rw [List.cons_append, scanMark]
    · exact h.append_ne (by decide) hplus
    · exact h.append_ne (by decide) hminus
  | case7 cs _ _ he _ _ hE =>
    have he := h.append_ne (by decide) he
    have hE := h.append_ne (by decide) hE
    rw [scanMark]
    exacts [fun _ => he _, fun _ => he _, he, fun _ => hE _, fun _ => hE _, hE]

theorem scanPower_closed (h : Closed digit rest) (cs : List Char) :
    scanPower digit (cs ++ rest) = ((scanPower digit cs).1, (scanPower digit cs).2 ++ rest) := by
  rw [scanPower, scanPower, scanMark_closed h]
  generalize scanMark cs = m
  obtain ⟨mark, cs'⟩ := m
  cases mark with
  | nil => rfl
  | cons c mark =>
    dsimp only
    rw [takeWhile_closed h, dropWhile_closed h]
    split <;> rfl

/-- What is cut off a text is also cut off it in front of a text that does not go on with it. -/
theorem scan?_closed (h : Closed digit rest) {cs : List Char} {n : Numeral}
    (hscan : scan? digit cs = some (n, [])) : scan? digit (cs ++ rest) = some (n, rest) := by
  have hsign : scanSign (cs ++ rest) = ((scanSign cs).1, (scanSign cs).2 ++ rest) := by
    fun_cases scanSign cs with
    | case1 => rfl
    | case2 cs hminus =>
      rw [scanSign]
      exact h.append_ne (by decide) hminus
  rw [scan?] at hscan ⊢
  rw [hsign]
  dsimp only at hscan ⊢
  rw [takeWhile_closed h, dropWhile_closed h, scanFraction_closed h, scanPower_closed h]
  split at hscan
  · cases hscan
  · next hdigits =>
    rw [if_neg hdigits]
    simp only [Option.some.injEq, Prod.mk.injEq] at hscan ⊢
    obtain ⟨hn, hrest⟩ := hscan
    exact ⟨hn, by rw [hrest, List.nil_append]⟩

end

/-! ### Numbers by themselves -/

/-- The letters of an exponent with their signs. -/
def marks : List (List Char) :=
  [['e'], ['e', '+'], ['e', '-'], ['E'], ['E', '+'], ['E', '-']]

/-- The parts of a numeral are digits in their places. -/
structure Shaped (digit : Char → Bool) (n : Numeral) : Prop where
  whole_ne : n.whole ≠ []
  whole : ∀ c ∈ n.whole, digit c
  fraction : ∀ c ∈ n.fraction, digit c
  exponent : n.mark = [] ∧ n.power = [] ∨
    n.mark ∈ marks ∧ n.power ≠ [] ∧ ∀ c ∈ n.power, digit c

section

variable {digit : Char → Bool} {cs rest : List Char} {n : Numeral}

theorem scanMark_mem (cs : List Char) : (scanMark cs).1 = [] ∨ (scanMark cs).1 ∈ marks := by
  fun_cases scanMark cs <;> simp [marks]

/-- What is cut off a text has the parts of a numeral. -/
theorem shaped_of_scan? (h : scan? digit cs = some (n, rest)) : n.Shaped digit := by
  have hdigits (cs : List Char) : ∀ c ∈ cs.takeWhile digit, digit c :=
    fun c hc => List.mem_takeWhile_imp hc
  have hfraction (cs : List Char) : ∀ c ∈ (scanFraction digit cs).1, digit c := by
    fun_cases scanFraction digit cs with
    | case1 => exact fun _ h => absurd h List.not_mem_nil
    | case2 cs => exact hdigits cs
    | case3 => exact fun _ h => absurd h List.not_mem_nil
  have hpower (cs : List Char) : (scanPower digit cs).1 = ([], []) ∨
      (scanPower digit cs).1.1 ∈ marks ∧ (scanPower digit cs).1.2 ≠ [] ∧
        ∀ c ∈ (scanPower digit cs).1.2, digit c := by
    have hmark := scanMark_mem cs
    rw [scanPower]
    generalize scanMark cs = m at hmark
    obtain ⟨mark, cs'⟩ := m
    cases mark with
    | nil => exact .inl rfl
    | cons c mark =>
      dsimp only
      split
      · exact .inl rfl
      · next hne =>
        exact .inr ⟨hmark.resolve_left (List.cons_ne_nil c mark), by simpa using hne, hdigits cs'⟩
  rw [scan?] at h
  dsimp only at h
  split at h
  · cases h
  · next hne =>
    obtain ⟨rfl, -⟩ := Prod.mk.inj (Option.some.inj h)
    refine ⟨by simpa using hne, hdigits _, hfraction _, ?_⟩
    exact (hpower _).imp_left fun h => Prod.mk.inj h

variable (hdigit : ∀ c ∈ ['.', 'e', 'E', '+', '-'], digit c = false)

include hdigit

/-- An exponent starts with its letter. -/
theorem Shaped.head_exponent (h : n.Shaped digit) :
    ∀ c ∈ (n.mark ++ n.power).head?, ¬ digit c ∧ c ≠ '.' := by
  rcases h.exponent with ⟨hmark, hpower⟩ | ⟨hmark, -⟩
  · rw [hmark, hpower]
    exact fun _ h => nomatch h
  · have hletter : n.mark.head? = some 'e' ∨ n.mark.head? = some 'E' := by
      have hall : ∀ mark ∈ marks, mark.head? = some 'e' ∨ mark.head? = some 'E' := by decide
      exact hall _ hmark
    intro c hc
    rw [List.head?_append] at hc
    rcases hletter with hl | hl <;> rw [hl] at hc <;> cases hc
    · exact ⟨by simp [hdigit], by decide⟩
    · exact ⟨by simp [hdigit], by decide⟩

theorem scanMark_append_digits {mark power : List Char} (hmark : mark ∈ marks) (hne : power ≠ [])
    (hpower : ∀ c ∈ power, digit c) : scanMark (mark ++ power) = (mark, power) := by
  obtain ⟨c, power, rfl⟩ := List.exists_cons_of_ne_nil hne
  have hc := hpower c List.mem_cons_self
  have hplus : c ≠ '+' := by
    rintro rfl
    simp [hdigit] at hc
  have hminus : c ≠ '-' := by
    rintro rfl
    simp [hdigit] at hc
  simp only [marks, List.mem_cons, List.not_mem_nil, or_false] at hmark
  rcases hmark with rfl | rfl | rfl | rfl | rfl | rfl <;> simp [scanMark, hplus, hminus]

/-- The exponent is scanned to the end. -/
theorem Shaped.scanPower (h : n.Shaped digit) :
    scanPower digit (n.mark ++ n.power) = ((n.mark, n.power), []) := by
  rcases h.exponent with ⟨hmark, hpower⟩ | ⟨hmark, hpower, hdigits⟩
  · rw [hmark, hpower]
    rfl
  · have hne : n.mark ≠ [] := by
      have hall : ∀ mark ∈ marks, mark ≠ [] := by decide
      exact hall _ hmark
    have hwhile : n.power.takeWhile digit = n.power ∧ n.power.dropWhile digit = [] :=
      ⟨List.takeWhile_eq_self_iff.mpr hdigits, List.dropWhile_eq_nil_iff.mpr hdigits⟩
    rw [Numeral.scanPower, scanMark_append_digits hdigit hmark hpower hdigits]
    split
    · next heq => exact absurd (Prod.mk.inj heq).1 hne
    · next heq =>
      cases heq
      rw [hwhile.1, hwhile.2, if_neg (by simpa using hpower)]

/-- The fraction is scanned up to the exponent. -/
theorem Shaped.scanFraction (h : n.Shaped digit) :
    scanFraction digit
      ((if n.fraction.isEmpty then [] else '.' :: n.fraction) ++ (n.mark ++ n.power)) =
        (n.fraction, n.mark ++ n.power) := by
  have hhead := h.head_exponent hdigit
  by_cases hf : n.fraction.isEmpty
  · rw [if_pos hf, List.nil_append, List.isEmpty_iff.mp hf, Numeral.scanFraction]
    intro cs hcs
    rw [hcs] at hhead
    exact (hhead '.' rfl).2 rfl
  · have hwhile := takeWhile_append_eq h.fraction fun c hc => (hhead c hc).1
    rw [if_neg hf, List.cons_append, Numeral.scanFraction, hwhile.1, hwhile.2, if_neg hf]

/-- A numeral is scanned as it is written. -/
theorem Shaped.scan?_chars (h : n.Shaped digit) : scan? digit n.chars = some (n, []) := by
  have hchars : n.chars = (if n.negative then ['-'] else []) ++ (n.whole ++
      ((if n.fraction.isEmpty then [] else '.' :: n.fraction) ++ (n.mark ++ n.power))) := by
    simp only [chars, List.append_assoc]
  have htail : ∀ c ∈ ((if n.fraction.isEmpty then [] else '.' :: n.fraction) ++
      (n.mark ++ n.power)).head?, ¬ digit c := by
    split
    · exact fun c hc => (h.head_exponent hdigit c hc).1
    · rintro c ⟨⟩
      simp [hdigit]
  have hwhile := takeWhile_append_eq h.whole htail
  have hsign (cs : List Char) : scanSign ((if n.negative then ['-'] else []) ++ (n.whole ++ cs)) =
      (n.negative, n.whole ++ cs) := by
    cases hn : n.negative with
    | true => rfl
    | false =>
      rw [if_neg Bool.false_ne_true, List.nil_append, scanSign]
      intro cs' hcs
      obtain ⟨c, whole, hw⟩ := List.exists_cons_of_ne_nil h.whole_ne
      have hc := h.whole c (by rw [hw]; exact List.mem_cons_self)
      rw [hw, List.cons_append] at hcs
      rw [(List.cons.inj hcs).1, hdigit '-' (by decide)] at hc
      cases hc
  rw [hchars, scan?, hsign]
  dsimp only
  rw [hwhile.1, hwhile.2, h.scanFraction hdigit, h.scanPower hdigit,
    if_neg (by simpa using h.whole_ne)]

/-- What is cut off a text is a number by itself. -/
theorem scan?_chars_of_scan? (h : scan? digit cs = some (n, rest)) :
    scan? digit n.chars = some (n, []) :=
  (shaped_of_scan? h).scan?_chars hdigit

end

/-! ### Integers -/

/-- An integer as it is written. -/
def ofInt (i : Int) : Numeral := ⟨decide (i < 0), Nat.toDigits 10 i.natAbs, [], [], []⟩

theorem toList_toString (i : Int) : (toString i).toList = (ofInt i).chars := by
  rw [show toString i = i.repr from rfl, Int.repr_eq_if]
  by_cases h : 0 ≤ i
  · rw [if_pos h, Nat.toList_repr]
    have habs : i.toNat = i.natAbs := by omega
    simp [chars, ofInt, habs, h]
  · rw [if_neg h, String.toList_append, Nat.toList_repr]
    have habs : (-i).toNat = i.natAbs := by omega
    simp [chars, ofInt, habs, Int.not_le.mp h]

theorem isAsciiDigit_of_mem_toDigits {n : Nat} {c : Char} (h : c ∈ Nat.toDigits 10 n) :
    Text.isAsciiDigit c := by
  have hdigit := Nat.isDigit_of_mem_toDigits (by omega) (by omega) h
  rw [Char.isDigit_iff_toNat] at hdigit
  exact Bool.and_eq_true_iff.mpr ⟨decide_eq_true hdigit.1, decide_eq_true hdigit.2⟩

theorem readDigits_toDigits (n : Nat) : readDigits 0 (Nat.toDigits 10 n) = n := by
  have h := Nat.ofDigitChars_toDigits (b := 10) (n := n) (by omega) (by omega)
  rw [Nat.ofDigitChars] at h
  rw [readDigits]
  simpa [Text.digitValue, Nat.mul_comm] using h

theorem toInt_ofInt (i : Int) : (ofInt i).toInt = i := by
  rw [toInt, ofInt, readDigits_toDigits]
  by_cases h : i < 0
  · rw [if_pos (decide_eq_true h)]
    omega
  · rw [if_neg (by simpa using h)]
    omega

/-- The digits of a positive number do not start with a zero. -/
theorem head?_toDigits_ne {n : Nat} (h : 0 < n) : (Nat.toDigits 10 n).head? ≠ some '0' := by
  induction n using Nat.strongRecOn with
  | ind n ih =>
    by_cases hlt : n < 10
    · have hdigit : ∀ n < 10, 0 < n → n.digitChar ≠ '0' := by decide
      rw [Nat.toDigits_of_lt_base hlt, List.head?_cons]
      simpa using hdigit n hlt h
    · have hne : Nat.toDigits 10 (n / 10) ≠ [] := Nat.toDigits_ne_nil
      rw [Nat.toDigits_of_base_le (by omega) (by omega), List.head?_append_of_ne_nil _ hne]
      exact ih (n / 10) (by omega) (by omega)

/-- No digit stands behind a leading zero of an integer. -/
theorem length_whole_ofInt {i : Int} (h : (ofInt i).whole.head? = some '0') :
    (ofInt i).whole.length = 1 := by
  rcases Nat.eq_zero_or_pos i.natAbs with hzero | hpos
  · rw [ofInt, hzero]
    rfl
  · exact absurd h (head?_toDigits_ne hpos)

/-- An integer is cut off a text that starts with it, whatever else counts as a digit. -/
theorem scan?_toString {digit : Char → Bool} (hascii : ∀ c, Text.isAsciiDigit c → digit c)
    (hminus : digit '-' = false) (i : Int) {rest : List Char} (h : Closed digit rest) :
    scan? digit ((toString i).toList ++ rest) = some (ofInt i, rest) := by
  refine scan?_closed h ?_
  have hdigits : ∀ c ∈ Nat.toDigits 10 i.natAbs, digit c :=
    fun c hc => hascii c (isAsciiDigit_of_mem_toDigits hc)
  have hsign : scanSign (toString i).toList = (decide (i < 0), Nat.toDigits 10 i.natAbs) := by
    rw [toList_toString]
    by_cases hneg : i < 0
    · simp [chars, ofInt, hneg, scanSign]
    · have hchars : (ofInt i).chars = Nat.toDigits 10 i.natAbs := by simp [chars, ofInt, hneg]
      rw [hchars, scanSign, decide_eq_false hneg]
      intro cs hcs
      exact absurd (hdigits '-' (by rw [hcs]; exact List.mem_cons_self)) (by simp [hminus])
  rw [scan?, hsign]
  dsimp only
  rw [List.takeWhile_eq_self_iff.mpr hdigits, List.dropWhile_eq_nil_iff.mpr hdigits]
  rw [if_neg (by simp [Nat.toDigits_ne_nil])]
  rfl

theorem scan?_ofInt (i : Int) {rest : List Char} (h : Closed Text.isAsciiDigit rest) :
    scan? Text.isAsciiDigit ((toString i).toList ++ rest) = some (ofInt i, rest) :=
  scan?_toString (fun _ hc => hc) rfl i h

end Numeral

namespace Layout

/-! ### Floating point numbers -/

/-- The characters that numbers are written with. -/
def IsNumberChar (c : Char) : Prop := Text.isAsciiDigit c ∨ c ∈ ['.', 'e', '+', '-']

theorem isNumberChar_of_mem_positionalDigits {w : Bool} {digits : List Char} {e : Int} {c : Char}
    (hdigits : ∀ c ∈ digits, Text.isAsciiDigit c) (h : c ∈ positionalDigits w digits e) :
    IsNumberChar c := by
  have hpart {n : Nat} (h : c ∈ digits.take n ∨ c ∈ digits.drop n) : Text.isAsciiDigit c := by
    rcases h with h | h
    · exact hdigits c (List.mem_of_mem_take h)
    · exact hdigits c (List.mem_of_mem_drop h)
  have hzero {n : Nat} (h : c ∈ List.replicate n '0') : Text.isAsciiDigit c := by
    rw [List.eq_of_mem_replicate h]
    rfl
  unfold positionalDigits at h
  split at h
  · simp only [List.mem_cons, List.mem_append] at h
    rcases h with rfl | rfl | h | h
    · exact .inl rfl
    · exact .inr (by decide)
    · exact .inl (hzero h)
    · exact .inl (hdigits c h)
  dsimp only at h
  split at h
  · simp only [List.mem_append] at h
    rcases h with (h | h) | h
    · exact .inl (hdigits c h)
    · exact .inl (hzero h)
    · cases w with
      | false => cases h
      | true =>
        simp only [if_true, List.mem_cons, List.not_mem_nil, or_false] at h
        rcases h with rfl | rfl
        · exact .inr (by decide)
        · exact .inl rfl
  · simp only [List.mem_append, List.mem_cons] at h
    rcases h with h | rfl | h
    · exact .inl (hpart (.inl h))
    · exact .inr (by decide)
    · exact .inl (hpart (.inr h))

theorem isNumberChar_of_mem_exponentDigits {p : Bool} {digits : List Char} {e : Int} {c : Char}
    (hdigits : ∀ c ∈ digits, Text.isAsciiDigit c) (h : c ∈ exponentDigits p digits e) :
    IsNumberChar c := by
  unfold exponentDigits at h
  dsimp only at h
  simp only [List.mem_append, List.mem_cons] at h
  rcases h with h | rfl | h | h
  · split at h
    · cases h
    · exact .inl (hdigits c h)
    · next d ds =>
      rcases List.mem_cons.mp h with rfl | h
      · exact .inl (hdigits c List.mem_cons_self)
      rcases List.mem_cons.mp h with rfl | h
      · exact .inr (by decide)
      · exact .inl (hdigits c (List.mem_cons_of_mem _ h))
  · exact .inr (by decide)
  · split at h
    · obtain rfl := List.mem_singleton.mp h
      exact .inr (by decide)
    split at h
    · obtain rfl := List.mem_singleton.mp h
      exact .inr (by decide)
    · cases h
  · exact .inl (Numeral.isAsciiDigit_of_mem_toDigits h)

/-- A finite number is written with characters of numbers. -/
theorem isNumberChar_of_mem_text {l : Layout} {d : Double} (hd : d.isFinite) {c : Char}
    (h : c ∈ (l.text d).toList) : IsNumberChar c := by
  rw [text, if_pos hd, String.toList_ofList] at h
  have hmagnitude : c = '-' ∨ c ∈ l.magnitudeText d := by
    split at h
    · exact List.mem_cons.mp h
    · exact .inr h
  rcases hmagnitude with rfl | h
  · exact .inr (by decide)
  have hdigits : ∀ c ∈ Nat.toDigits 10 (d.shortest l.tie).coefficient, Text.isAsciiDigit c :=
    fun c hc => Numeral.isAsciiDigit_of_mem_toDigits hc
  rw [magnitudeText] at h
  split at h
  · exact isNumberChar_of_mem_positionalDigits hdigits h
  · exact isNumberChar_of_mem_exponentDigits hdigits h

end Layout

end Adl
