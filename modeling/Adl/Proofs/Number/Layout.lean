import Adl.Proofs.Number.Numeral
import Mathlib.Algebra.Order.Ring.Nat
import Mathlib.Tactic.SplitIfs

/-!
# Layout — the texts of finite numbers are numerals

Numerals with proper parts are scanned as they are written (`Numeral.Proper.scan?_chars`).  The
shortest decimal of a number has a positive coefficient unless the number is zero
(`Double.shortest_pos`), so that its digits have no leading zeros, and each way to lay them out
gives a proper numeral.  So the text of a finite number spells a numeral in every layout
(`Layout.spells_text`).
-/

namespace Adl

namespace Numeral

/-! ### Numerals -/

/-- The parts of a numeral are what they should be. -/
structure Proper (n : Numeral) : Prop where
  whole_ne : n.whole ≠ []
  whole : ∀ c ∈ n.whole, Text.isAsciiDigit c
  zero : n.whole.head? = some '0' → n.whole.length = 1
  fraction : ∀ c ∈ n.fraction, Text.isAsciiDigit c
  exponent : n.mark = [] ∧ n.power = [] ∨ n.mark ∈ [['e'], ['e', '+'], ['e', '-']] ∧ n.power ≠ [] ∧
    ∀ c ∈ n.power, Text.isAsciiDigit c

/-- A text is a numeral without leading zeros. -/
def Spells (s : String) (n : Numeral) : Prop :=
  scan? Text.isAsciiDigit s.toList = some (n, []) ∧
    (n.whole.head? = some '0' → n.whole.length = 1)

theorem Proper.shaped {n : Numeral} (h : n.Proper) : n.Shaped Text.isAsciiDigit where
  whole_ne := h.whole_ne
  whole := h.whole
  fraction := h.fraction
  exponent := by
    refine h.exponent.imp_right fun ⟨hmark, hpower⟩ => ⟨?_, hpower⟩
    simp only [List.mem_cons, List.not_mem_nil, or_false] at hmark
    rcases hmark with hmark | hmark | hmark <;> rw [hmark] <;> decide

/-- A proper numeral is scanned as it is written. -/
theorem Proper.scan?_chars {n : Numeral} (h : n.Proper) :
    scan? Text.isAsciiDigit n.chars = some (n, []) := by
  refine h.shaped.scan?_chars ?_
  simp only [List.forall_mem_cons, List.not_mem_nil, false_imp_iff, implies_true, and_true]
  decide

end Numeral

/-! ### Shortest decimals -/

theorem Decimal.trim_pos {d : Decimal} (h : 0 < d.coefficient) : 0 < d.trim.coefficient := by
  fun_induction Decimal.trim d with
  | case1 d hd ih =>
    refine ih ?_
    show 0 < d.coefficient / 10
    omega
  | case2 d hd => exact h

/-- The magnitude of a fraction is not too large. -/
theorem Decimal.le_mul_floorLog10 {num : Nat} (hnum : 0 < num) (den : Nat) :
    den ≤ num * 10 ^ (-floorLog10 num den).toNat := by
  unfold floorLog10 Double.decimalLength
  split
  · next hle =>
    have hpos : 0 < (Nat.toDigits 10 (num / den)).length :=
      List.length_pos_iff.mpr Nat.toDigits_ne_nil
    have hzero : (-(((Nat.toDigits 10 (num / den)).length : Int) - 1)).toNat = 0 := by omega
    rw [hzero, Nat.pow_zero, Nat.mul_one]
    exact hle
  · generalize hq : (den + num - 1) / num = q
    have hlt : q - 1 < 10 ^ (Nat.toDigits 10 (q - 1)).length :=
      (Nat.length_toDigits_le_iff (by omega) (List.length_pos_iff.mpr Nat.toDigits_ne_nil)).mp
        (Nat.le_refl _)
    have hdiv := Nat.div_add_mod (den + num - 1) num
    have hmod := Nat.mod_lt (den + num - 1) hnum
    rw [hq] at hdiv
    rw [Int.neg_neg, Int.toNat_natCast]
    calc den ≤ num * q := by omega
      _ ≤ num * 10 ^ (Nat.toDigits 10 (q - 1)).length := Nat.mul_le_mul_left num (by omega)

namespace Double

variable {d : Double} {tie : Tie} {i : Interval}

/-- Of two neighbours one is taken, the lower one only if it fits. -/
theorem pos_of_neighbour {low high below : Prop} [Decidable low] [Decidable high] [Decidable below]
    {q c : Nat} (hlow : low → 0 < q)
    (h : (if low ∧ high then some (if below then q else q + 1)
      else if low then some q else if high then some (q + 1) else none) = some c) : 0 < c := by
  split at h
  · next hfits =>
    obtain rfl := Option.some.inj h
    split
    · exact hlow hfits.1
    · exact Nat.succ_pos q
  split at h
  · next hfits => exact Option.some.inj h ▸ hlow hfits
  split at h
  · exact Option.some.inj h ▸ Nat.succ_pos q
  · cases h

/-- No multiple in an interval above zero is zero. -/
theorem Interval.onGrid?_pos {scale : Int} {c : Nat} (hlow : 0 < i.low)
    (h : i.onGrid? scale tie = some c) : 0 < c := by
  unfold onGrid? at h
  refine pos_of_neighbour (fun hfits => ?_) h
  have hpos : 0 < i.low * Nat.pow 10 (-scale).toNat := Nat.mul_pos hlow (Nat.pow_pos (by omega))
  by_contra hzero
  rw [Nat.eq_zero_of_not_pos hzero, Nat.zero_mul] at hfits
  split at hfits <;> omega

theorem shortestFrom_pos {magnitude : Int} (hlow : 0 < i.low) (hden : 0 < i.den)
    (hm : i.den ≤ i.point * 10 ^ (-magnitude).toNat) :
    ∀ fuel digits, 0 < digits → 0 < (shortestFrom i tie magnitude fuel digits).coefficient
  | 0, digits, hd => by
    have hexp : (-magnitude).toNat ≤ ((digits : Int) - 1 - magnitude).toNat := by omega
    refine Nat.div_pos (Nat.le_trans hm ?_) hden
    exact Nat.mul_le_mul_left _ (Nat.pow_le_pow_right (by omega) hexp)
  | fuel + 1, digits, hd => by
    rw [shortestFrom]
    split
    · next h => exact Interval.onGrid?_pos hlow h
    · exact shortestFrom_pos hlow hden hm fuel (digits + 1) (Nat.succ_pos digits)

theorem significand_pos (h : d.isZero = false) : 0 < d.significand := by
  have hbits : d.bits ≠ 0 := by simpa [isZero] using h
  unfold significand implicitBit
  split <;> omega

theorem scaleBinary_one_pos (e : Int) : 0 < (scaleBinary 1 1 e).1 ∧ 0 < (scaleBinary 1 1 e).2 := by
  unfold scaleBinary
  split
  · exact ⟨by rw [Nat.one_shiftLeft]; exact Nat.two_pow_pos _, Nat.one_pos⟩
  · exact ⟨Nat.one_pos, by rw [Nat.one_shiftLeft]; exact Nat.two_pow_pos _⟩

/-- The shortest decimal of a number other than zero is not zero. -/
theorem shortest_pos (h : d.isZero = false) : 0 < (d.shortest tie).coefficient := by
  have hsig := significand_pos h
  obtain ⟨hunit, hden⟩ := scaleBinary_one_pos (d.exponent - 2)
  have hlow : 0 < d.interval.low := by
    refine Nat.mul_pos ?_ hunit
    split <;> omega
  have hpoint : 0 < d.interval.point := Nat.mul_pos (by omega) hunit
  rw [shortest, h]
  exact Decimal.trim_pos (shortestFrom_pos hlow hden
    (Decimal.le_mul_floorLog10 hpoint d.interval.den) 17 1 Nat.one_pos)

end Double

namespace Layout

/-! ### Layouts -/

variable {digits : List Char} {e : Int}

/-- Digits with a point among them are a numeral, and with a fraction if one is asked for. -/
theorem proper_positionalDigits (w : Bool) (hne : digits ≠ [])
    (hdigits : ∀ c ∈ digits, Text.isAsciiDigit c)
    (hzero : digits.head? = some '0' → digits.length = 1 ∧ e ≤ 0) :
    ∃ n : Numeral, n.Proper ∧ n.negative = false ∧ n.chars = positionalDigits w digits e ∧
      (w → n.isInteger = false) := by
  have hzeros (k : Nat) : ∀ c ∈ List.replicate k '0', Text.isAsciiDigit c := by
    intro c hc
    rw [List.eq_of_mem_replicate hc]
    rfl
  have hlen := List.length_pos_iff.mpr hne
  unfold positionalDigits
  split
  · refine ⟨⟨false, ['0'], List.replicate (-e - 1).toNat '0' ++ digits, [], []⟩, ?_, rfl, ?_, ?_⟩
    · refine ⟨List.cons_ne_nil _ _, ?_, fun _ => rfl, ?_, .inl ⟨rfl, rfl⟩⟩
      · exact List.forall_mem_singleton.mpr rfl
      · exact List.forall_mem_append.mpr ⟨hzeros _, hdigits⟩
    · simp [Numeral.chars, hne]
    · simp [Numeral.isInteger, hne]
  dsimp only
  split
  · next hle =>
    refine ⟨⟨false, digits ++ List.replicate (e.toNat + 1 - digits.length) '0',
      if w then ['0'] else [], [], []⟩, ?_, rfl, ?_, ?_⟩
    · refine ⟨by simp [hne], List.forall_mem_append.mpr ⟨hdigits, hzeros _⟩, ?_, ?_,
        .inl ⟨rfl, rfl⟩⟩
      · intro hhead
        rw [List.head?_append_of_ne_nil _ hne] at hhead
        obtain ⟨hone, he⟩ := hzero hhead
        rw [List.length_append, List.length_replicate]
        omega
      · cases w with
        | false => simp
        | true => exact List.forall_mem_singleton.mpr rfl
    · cases w <;> simp [Numeral.chars]
    · rintro rfl
      rfl
  · next hlt =>
    have hdrop : digits.drop (e.toNat + 1) ≠ [] := by
      rw [Ne, List.drop_eq_nil_iff]
      omega
    refine ⟨⟨false, digits.take (e.toNat + 1), digits.drop (e.toNat + 1), [], []⟩, ?_, rfl, ?_, ?_⟩
    · refine ⟨?_, fun c hc => hdigits c (List.mem_of_mem_take hc), ?_,
        fun c hc => hdigits c (List.mem_of_mem_drop hc), .inl ⟨rfl, rfl⟩⟩
      · rw [Ne, List.take_eq_nil_iff]
        simp [hne]
      · intro hhead
        rw [List.head?_take, if_neg (Nat.succ_ne_zero _)] at hhead
        have := hzero hhead
        omega
    · simp [Numeral.chars, hdrop]
    · simp [Numeral.isInteger, hdrop]

/-- Digits with an exponent behind them are a numeral. -/
theorem proper_exponentDigits (p : Bool) (hne : digits ≠ [])
    (hdigits : ∀ c ∈ digits, Text.isAsciiDigit c) :
    ∃ n : Numeral, n.Proper ∧ n.negative = false ∧ n.chars = exponentDigits p digits e ∧
      n.isInteger = false := by
  obtain ⟨d, ds, rfl⟩ := List.exists_cons_of_ne_nil hne
  obtain ⟨hd, hds⟩ := List.forall_mem_cons.mp hdigits
  have hpower : Nat.toDigits 10 e.natAbs ≠ [] := Nat.toDigits_ne_nil
  refine ⟨⟨false, [d], ds, 'e' :: (if e < 0 then ['-'] else if p then ['+'] else []),
    Nat.toDigits 10 e.natAbs⟩, ?_, rfl, ?_, ?_⟩
  · refine ⟨List.cons_ne_nil _ _, List.forall_mem_singleton.mpr hd, fun _ => rfl, hds,
      .inr ⟨?_, hpower, fun c hc => Numeral.isAsciiDigit_of_mem_toDigits hc⟩⟩
    dsimp only
    split
    · decide
    split <;> decide
  · unfold exponentDigits
    cases ds <;> simp [Numeral.chars]
  · simp [Numeral.isInteger, hpower]

variable {d : Double}

/-- The text of a finite number is a numeral, and not an integer where whole numbers have a
fraction. -/
theorem spells_text (l : Layout) (hd : d.isFinite) :
    ∃ n, Numeral.Spells (l.text d) n ∧ (l.wholeFraction → n.isInteger = false) := by
  have hmagnitude : ∃ n : Numeral, n.Proper ∧ n.negative = false ∧ n.chars = l.magnitudeText d ∧
      (l.wholeFraction → n.isInteger = false) := by
    have hdigits : ∀ c ∈ Nat.toDigits 10 (d.shortest l.tie).coefficient, Text.isAsciiDigit c :=
      fun c hc => Numeral.isAsciiDigit_of_mem_toDigits hc
    unfold magnitudeText
    dsimp only
    split
    · refine proper_positionalDigits l.wholeFraction Nat.toDigits_ne_nil hdigits fun hhead => ?_
      -- Only zero has a zero as its first digit.
      cases hz : d.isZero with
      | true =>
        have hshortest : d.shortest l.tie = ⟨0, 0⟩ := by rw [Double.shortest, hz]; rfl
        rw [hshortest]
        exact ⟨rfl, Int.le_refl 0⟩
      | false => exact absurd hhead (Numeral.head?_toDigits_ne (Double.shortest_pos hz))
    · obtain ⟨n, hn, hpos, hchars, hinteger⟩ :=
        proper_exponentDigits l.plusSign Nat.toDigits_ne_nil hdigits
      exact ⟨n, hn, hpos, hchars, fun _ => hinteger⟩
  obtain ⟨n, hn, hpos, hchars, hinteger⟩ := hmagnitude
  refine ⟨{ n with negative := d.negative }, ?_, hinteger⟩
  have hsigned : (l.text d).toList = ({ n with negative := d.negative } : Numeral).chars := by
    rw [text, if_pos hd, String.toList_ofList, ← hchars]
    cases d.negative <;> simp [Numeral.chars, hpos]
  have hproper : ({ n with negative := d.negative } : Numeral).Proper :=
    ⟨hn.whole_ne, hn.whole, hn.zero, hn.fraction, hn.exponent⟩
  exact ⟨by rw [hsigned, hproper.scan?_chars], hn.zero⟩

end Layout

end Adl
