import Adl.Text.NameStyle
import Adl.Text.Word
import Mathlib.Data.List.Basic

/-!
# NameStyle — the case conversions on names

A name consists of ASCII letters, digits and underscores.  For these the case mappings give single
characters, so the conversions can be described without the tables: `snakeCase` keeps the first
character but for its case, and `pascalCase` starts with the first one that is no underscore.
-/

namespace Adl.Text

variable {c : Char} {cs : List Char} {a b s : String}

/-! ### Characters of names -/

/-- Only the first run of a table has ASCII characters. -/
theorem inRuns_cons {run : Nat × Nat × Nat} {runs : List (Nat × Nat × Nat)}
    (h : ∀ r ∈ runs, 128 ≤ r.1) (hc : c.toNat < 128) : inRuns (run :: runs) c = inRuns [run] c := by
  have hrest : inRuns runs c = false := by
    refine List.any_eq_false.mpr fun r hr => ?_
    have hfirst := h r hr
    simp only [Bool.and_eq_true, decide_eq_true_eq, not_and]
    omega
  rw [inRuns, List.any_cons]
  show (_ || inRuns runs c) = _
  rw [hrest, inRuns, List.any_cons, List.any_nil]

theorem mapCase_cons {shift : Nat × Nat × Nat × Int} {shifts : List (Nat × Nat × Nat × Int)}
    {expansions : List (Nat × List Nat)} (h : ∀ r ∈ shifts, 128 ≤ r.1)
    (hexpansions : ∀ e ∈ expansions, 128 ≤ e.1) (hc : c.toNat < 128) :
    mapCase (shift :: shifts) expansions c = mapCase [shift] [] c := by
  have hexpand : expansions.find? (·.1 == c.toNat) = none := by
    refine List.find?_eq_none.mpr fun e he => ?_
    have hfirst := hexpansions e he
    rw [beq_iff_eq]
    omega
  have hnone (p : Nat × Nat × Nat × Int → Bool) (hp : ∀ r ∈ shifts, ¬ p r) :
      shifts.find? p = none := List.find?_eq_none.mpr hp
  rw [mapCase, mapCase, hexpand, List.find?_cons, List.find?_cons, hnone]
  · rfl
  · intro r hr
    have hfirst := h r hr
    simp only [Bool.and_eq_true, decide_eq_true_eq, not_and]
    omega

theorem toNat_lt_of_isNameChar (hc : isNameChar c) : c.toNat < 128 := by
  simp only [isNameChar, isNameStart, isAsciiLetter, Bool.or_eq_true, Bool.and_eq_true,
    decide_eq_true_eq, beq_iff_eq] at hc
  rcases hc with (_ | rfl) | _
  · omega
  · decide
  · omega

/-- The characters of names are ASCII characters, so what holds of them can be checked for each. -/
theorem of_isNameChar {P : Char → Prop}
    (h : ∀ n < 128, isNameChar (Char.ofNat n) → P (Char.ofNat n)) (hc : isNameChar c) : P c := by
  have hP := h c.toNat (toNat_lt_of_isNameChar hc)
  rw [Char.ofNat_toNat] at hP
  exact hP hc

theorem isNameChar_of_isNameStart (hc : isNameStart c) : isNameChar c := by
  rw [isNameChar, hc, Bool.true_or]

/-- A text of characters of names. -/
def IsNameText (s : String) : Prop := ∀ c ∈ s.toList, isNameChar c

/-- What the tables say of the characters of names. -/
theorem case_of_isNameChar (hc : isNameChar c) :
    isUpper c = c.isUpper ∧ toUpper c = [c.toUpper] ∧ toLower c = [c.toLower] := by
  have hlt := toNat_lt_of_isNameChar hc
  have hruns : ∀ r ∈ upperRuns.tail, 128 ≤ r.1 := by decide +kernel
  have hupper : (∀ r ∈ upperShifts.tail, 128 ≤ r.1) ∧ ∀ e ∈ upperExpansions, 128 ≤ e.1 := by
    decide +kernel
  have hlower : (∀ r ∈ lowerShifts.tail, 128 ≤ r.1) ∧ ∀ e ∈ lowerExpansions, 128 ≤ e.1 := by
    decide +kernel
  have hisUpper : isUpper c = inRuns [(0x41, 0x5a, 1)] c := inRuns_cons hruns hlt
  have htoUpper : toUpper c = mapCase [(0x61, 0x7a, 1, -32)] [] c :=
    mapCase_cons hupper.1 hupper.2 hlt
  have htoLower : toLower c = mapCase [(0x41, 0x5a, 1, 32)] [] c :=
    mapCase_cons hlower.1 hlower.2 hlt
  rw [hisUpper, htoUpper, htoLower]
  exact of_isNameChar (P := fun c => inRuns [(0x41, 0x5a, 1)] c = c.isUpper ∧
    mapCase [(0x61, 0x7a, 1, -32)] [] c = [c.toUpper] ∧
    mapCase [(0x41, 0x5a, 1, 32)] [] c = [c.toLower]) (by decide +kernel) hc

/-- A character of a name that is not in upper case. -/
def isSnakeChar (c : Char) : Bool := isNameChar c && !c.isUpper

/-- A text of characters of names, none of them in upper case. -/
def IsSnakeText (s : String) : Prop := ∀ c ∈ s.toList, isSnakeChar c

theorem IsSnakeText.isNameText (h : IsSnakeText s) : IsNameText s :=
  fun c hc => (Bool.and_eq_true_iff.mp (h c hc)).1

theorem toLower_laws (hc : isNameChar c) :
    isSnakeChar c.toLower ∧ isNameStart c.toLower = isNameStart c ∧
      (c.toLower = '_' ↔ c = '_') ∧ (¬ c.isUpper → c.toLower = c) :=
  of_isNameChar (P := fun c => isSnakeChar c.toLower ∧ isNameStart c.toLower = isNameStart c ∧
    (c.toLower = '_' ↔ c = '_') ∧ (¬ c.isUpper → c.toLower = c)) (by decide +kernel) hc

/-- The case of a character that is not in upper case can be restored. -/
theorem toUpper_laws (hc : isNameChar c) :
    isNameStart c.toUpper = isNameStart c ∧ isNameChar c.toUpper ∧ (c.toUpper = '_' ↔ c = '_') ∧
      c.toUpper.isUpper = isAsciiLetter c ∧ (isSnakeChar c → c.toUpper.toLower = c) :=
  of_isNameChar (P := fun c => isNameStart c.toUpper = isNameStart c ∧ isNameChar c.toUpper ∧
    (c.toUpper = '_' ↔ c = '_') ∧ c.toUpper.isUpper = isAsciiLetter c ∧
    (isSnakeChar c → c.toUpper.toLower = c)) (by decide +kernel) hc

/-! ### Names in lower case -/

/-- A character of a name is kept but for its case, perhaps behind an underscore; the first one is
kept without. -/
theorem snakeChars_cons (hc : isNameChar c) (prev : Option Char) (cs : List Char) :
    snakeChars prev (c :: cs) = c.toLower :: snakeChars (some c) cs ∨
      prev.isSome ∧ snakeChars prev (c :: cs) = '_' :: c.toLower :: snakeChars (some c) cs := by
  obtain ⟨hupper, -, htoLower⟩ := case_of_isNameChar hc
  rw [snakeChars, hupper, htoLower]
  split
  · cases prev with
    | none => exact .inl rfl
    | some prev =>
      rw [Option.any_some]
      split
      · exact .inr ⟨rfl, rfl⟩
      · exact .inl rfl
  · next hlower =>
    obtain ⟨-, -, -, hkept⟩ := toLower_laws hc
    exact .inl (by rw [hkept hlower])

theorem isSnakeChar_of_mem_snakeChars {prev : Option Char} (h : ∀ c ∈ cs, isNameChar c) :
    ∀ c ∈ snakeChars prev cs, isSnakeChar c := by
  induction cs generalizing prev with
  | nil => simp [snakeChars]
  | cons c cs ih =>
    obtain ⟨hc, hcs⟩ := List.forall_mem_cons.mp h
    have hrest : ∀ d ∈ c.toLower :: snakeChars (some c) cs, isSnakeChar d :=
      List.forall_mem_cons.mpr ⟨(toLower_laws hc).1, ih hcs⟩
    rcases snakeChars_cons hc prev cs with heq | ⟨-, heq⟩
    · rwa [heq]
    · rw [heq]
      exact List.forall_mem_cons.mpr ⟨by decide, hrest⟩

theorem isSnakeText_snakeCase (h : IsNameText s) : IsSnakeText (snakeCase s) := by
  rw [IsSnakeText, snakeCase, String.toList_ofList]
  exact isSnakeChar_of_mem_snakeChars h

theorem snakeChars_none_cons (hc : isNameChar c) (cs : List Char) :
    snakeChars none (c :: cs) = c.toLower :: snakeChars (some c) cs :=
  (snakeChars_cons hc none cs).resolve_right fun h => Bool.false_ne_true h.1

theorem snakeChars_eq_nil_iff {prev : Option Char} (h : ∀ c ∈ cs, isNameChar c) :
    snakeChars prev cs = [] ↔ cs = [] := by
  cases cs with
  | nil => rw [snakeChars]
  | cons c cs =>
    have hc := h c List.mem_cons_self
    rcases snakeChars_cons hc prev cs with heq | ⟨-, heq⟩ <;> simp [heq]

/-- No other name becomes a lone underscore. -/
theorem snakeCase_eq_underscore_iff (h : IsNameText s) : snakeCase s = "_" ↔ s = "_" := by
  rw [← String.toList_inj, ← String.toList_inj, snakeCase, String.toList_ofList]
  show _ = ['_'] ↔ _ = ['_']
  unfold IsNameText at h
  generalize s.toList = cs at h ⊢
  cases cs with
  | nil => simp [snakeChars]
  | cons c cs =>
    obtain ⟨hc, hcs⟩ := List.forall_mem_cons.mp h
    obtain ⟨-, -, hunderscore, -⟩ := toLower_laws hc
    rw [snakeChars_none_cons hc, List.cons.injEq, List.cons.injEq, hunderscore,
      snakeChars_eq_nil_iff hcs]

/-! ### Names in upper case -/

theorem toList_upperCase (h : IsNameText s) : (upperCase s).toList = s.toList.map Char.toUpper := by
  rw [upperCase, String.toList_ofList,
    List.flatMap_congr fun c hc => (case_of_isNameChar (h c hc)).2.1, List.map_eq_flatMap]

theorem isNameText_upperCase (h : IsNameText s) : IsNameText (upperCase s) := by
  rw [IsNameText, toList_upperCase h]
  refine List.forall_mem_map.mpr fun c hc => ?_
  obtain ⟨-, hname, -⟩ := toUpper_laws (h c hc)
  exact hname

/-- Texts without upper case letters can be restored from those in upper case. -/
theorem upperCase_inj (ha : IsSnakeText a) (hb : IsSnakeText b) :
    upperCase a = upperCase b ↔ a = b := by
  have hrestored {s : String} (h : IsSnakeText s) :
      (upperCase s).toList.map Char.toLower = s.toList := by
    rw [toList_upperCase h.isNameText, List.map_map]
    refine (List.map_congr_left fun c hc => ?_).trans (List.map_id' _)
    obtain ⟨-, -, -, -, hsnake⟩ := toUpper_laws (h.isNameText c hc)
    exact hsnake (h c hc)
  refine ⟨fun heq => ?_, congrArg _⟩
  rw [← String.toList_inj, ← hrestored ha, ← hrestored hb, heq]

/-! ### Names in pascal case -/

/-- There are no underscores. -/
theorem isNameChar_of_mem_pascalCase (h : IsNameText s) :
    ∀ c ∈ (pascalCase s).toList, isNameChar c ∧ c ≠ '_' := by
  intro c hc
  rw [pascalCase, String.toList_ofList] at hc
  obtain ⟨part, hpart, hc⟩ := List.mem_flatMap.mp hc
  have hchars : ∀ d ∈ part, isNameChar d ∧ d ≠ '_' := by
    intro d hd
    obtain ⟨hmem, hne⟩ := mem_of_mem_splitChars hpart hd
    exact ⟨h d hmem, hne⟩
  cases part with
  | nil => cases hc
  | cons d ds =>
    obtain ⟨⟨hd, hne⟩, hds⟩ := List.forall_mem_cons.mp hchars
    obtain ⟨-, hname, hunderscore, -⟩ := toUpper_laws hd
    rw [capitalize, (case_of_isNameChar hd).2.1] at hc
    rcases List.mem_cons.mp hc with rfl | hc
    · exact ⟨hname, mt hunderscore.mp hne⟩
    · exact hds c hc

theorem isNameText_pascalCase (h : IsNameText s) : IsNameText (pascalCase s) :=
  fun c hc => (isNameChar_of_mem_pascalCase h c hc).1

/-- The first character is the first one that is no underscore, in upper case. -/
theorem head?_pascalCase (h : IsNameText s) :
    (pascalCase s).toList.head? = (s.toList.find? (· ≠ '_')).map Char.toUpper := by
  rw [pascalCase, String.toList_ofList]
  unfold IsNameText at h
  generalize s.toList = cs at h
  induction cs with
  | nil => rfl
  | cons c cs ih =>
    obtain ⟨hc, hcs⟩ := List.forall_mem_cons.mp h
    obtain ⟨part, parts, hsplit, heq⟩ := splitChars_cons '_' c cs
    rw [heq]
    split
    · next hunderscore => simpa [hunderscore, capitalize, hsplit] using ih hcs
    · next hne => simp [hne, capitalize, (case_of_isNameChar hc).2.1]

end Adl.Text
