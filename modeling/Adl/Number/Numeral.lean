import Adl.Number.Double
import Adl.Text.Digit

/-!
# Numeral — written numbers

A `Numeral` keeps a written number in its parts: an optional minus sign, whole digits, and perhaps
a fraction and a power of ten.  `Numeral.scan?` cuts the longest one off a text, and `chars` puts
the parts together again.  The value is read in two ways: `toDouble` rounds the exact value once,
while `toDoubleByWord?` works on the leading digits that fit a 64-bit word and scales the rounded
word, which is what data texts are read with.
-/

namespace Adl

/-- A written number.  `mark` is the exponent letter with its sign; it is empty, like `power`, if
there is no exponent, and `fraction` is empty if there is no point. -/
structure Numeral where
  negative : Bool
  whole : List Char
  fraction : List Char
  mark : List Char
  power : List Char
  deriving DecidableEq, Repr

namespace Numeral

/-- The written form. -/
def chars (n : Numeral) : List Char :=
  (if n.negative then ['-'] else []) ++ n.whole ++
    (if n.fraction.isEmpty then [] else '.' :: n.fraction) ++ n.mark ++ n.power

/-- Whether the number is written without fraction and exponent. -/
def isInteger (n : Numeral) : Bool := n.fraction.isEmpty && n.power.isEmpty

/-! ### Scanning -/

/-- An optional minus sign. -/
def scanSign : List Char → Bool × List Char
  | '-' :: cs => (true, cs)
  | cs => (false, cs)

/-- A fraction, if a digit follows the point. -/
def scanFraction (digit : Char → Bool) : List Char → List Char × List Char
  | '.' :: cs =>
    if (cs.takeWhile digit).isEmpty then ([], '.' :: cs)
    else (cs.takeWhile digit, cs.dropWhile digit)
  | cs => ([], cs)

/-- The letter of an exponent with its sign. -/
def scanMark : List Char → List Char × List Char
  | 'e' :: '+' :: cs => (['e', '+'], cs)
  | 'e' :: '-' :: cs => (['e', '-'], cs)
  | 'e' :: cs => (['e'], cs)
  | 'E' :: '+' :: cs => (['E', '+'], cs)
  | 'E' :: '-' :: cs => (['E', '-'], cs)
  | 'E' :: cs => (['E'], cs)
  | cs => ([], cs)

/-- An exponent, if a digit follows its letter and sign. -/
def scanPower (digit : Char → Bool) (cs : List Char) : (List Char × List Char) × List Char :=
  match scanMark cs with
  | ([], _) => (([], []), cs)
  | (mark, rest) =>
    if (rest.takeWhile digit).isEmpty then (([], []), cs)
    else ((mark, rest.takeWhile digit), rest.dropWhile digit)

/-- Cuts the longest numeral off a text; `digit` says what counts as a digit. -/
def scan? (digit : Char → Bool) (cs : List Char) : Option (Numeral × List Char) :=
  let (negative, cs₁) := scanSign cs
  if (cs₁.takeWhile digit).isEmpty then none
  else
    let (fraction, cs₂) := scanFraction digit (cs₁.dropWhile digit)
    let ((mark, power), cs₃) := scanPower digit cs₂
    some (⟨negative, cs₁.takeWhile digit, fraction, mark, power⟩, cs₃)

/-! ### The parts make up the text -/

theorem scanFraction_append (digit : Char → Bool) (cs : List Char) :
    (let (f, r) := scanFraction digit cs
     (if f.isEmpty then [] else '.' :: f) ++ r) = cs := by
  fun_cases scanFraction digit cs with
  | case1 cs h => simp
  | case2 cs h => simp [h]
  | case3 cs h => simp

theorem scanMark_append (cs : List Char) :
    (scanMark cs).1 ++ (scanMark cs).2 = cs := by
  fun_cases scanMark cs <;> simp

theorem scanPower_append (digit : Char → Bool) (cs : List Char) :
    (scanPower digit cs).1.1 ++ (scanPower digit cs).1.2 ++
      (scanPower digit cs).2 = cs := by
  have h := scanMark_append cs
  unfold scanPower
  generalize scanMark cs = m at h
  obtain ⟨mark, rest⟩ := m
  cases mark with
  | nil => simp
  | cons a mark =>
    dsimp only
    split
    · simp
    · simpa using h

theorem scanSign_append (cs : List Char) :
    (if (scanSign cs).1 then ['-'] else []) ++ (scanSign cs).2 = cs := by
  fun_cases scanSign cs <;> simp

theorem scan?_append {digit : Char → Bool} {cs : List Char} {n : Numeral} {rest : List Char}
    (h : scan? digit cs = some (n, rest)) : n.chars ++ rest = cs := by
  have hs := scanSign_append cs
  unfold scan? at h
  generalize scanSign cs = sign at h hs
  obtain ⟨negative, cs₁⟩ := sign
  have hf := scanFraction_append digit (cs₁.dropWhile digit)
  have hp := scanPower_append digit (scanFraction digit (cs₁.dropWhile digit)).2
  dsimp only at h hf hp
  split at h
  · simp at h
  · simp only [Option.some.injEq, Prod.mk.injEq] at h
    obtain ⟨rfl, rfl⟩ := h
    simp only [chars, List.append_assoc] at hp hf ⊢
    rw [hp, hf, List.takeWhile_append_dropWhile]
    exact hs

theorem scan?_ne_nil {digit : Char → Bool} {cs : List Char} {n : Numeral} {rest : List Char}
    (h : scan? digit cs = some (n, rest)) : n.chars ≠ [] := by
  unfold scan? at h
  dsimp only at h
  split at h
  · simp at h
  · rename_i hw
    simp only [Option.some.injEq, Prod.mk.injEq] at h
    intro hn
    rw [← h.1] at hn
    simp only [chars, List.append_eq_nil_iff] at hn
    simp [hn.1.1.1.2] at hw

/-! ### Value -/

/-- The number written by ASCII digits, continuing from `start`. -/
def readDigits (start : Nat) (digits : List Char) : Nat :=
  digits.foldl (fun n c => n * 10 + Text.digitValue c) start

/-- The power of ten written after the mark. -/
def exponent (n : Numeral) : Int :=
  if n.mark.contains '-' then -(readDigits 0 n.power : Int) else readDigits 0 n.power

/-- Whether all digits are ASCII digits, so that the numeral has a value. -/
def hasValue (n : Numeral) : Bool :=
  n.whole.all Text.isAsciiDigit && n.fraction.all Text.isAsciiDigit &&
    n.power.all Text.isAsciiDigit

/-- The integer written by the whole digits. -/
def toInt (n : Numeral) : Int :=
  if n.negative then -(readDigits 0 n.whole : Int) else readDigits 0 n.whole

/-- The floating point number nearest to the written value. -/
def toDouble (n : Numeral) : Double :=
  Double.ofDecimal n.negative (readDigits 0 (n.whole ++ n.fraction))
    (n.exponent - n.fraction.length)

/-! ### Value by a 64-bit word -/

/-- The largest value of a 64-bit word. -/
def maxWord : Nat := 0xFFFFFFFFFFFFFFFF

/-- Appends digits to a word while it fits 64 bits; the second part is what is left. -/
def absorb : Nat → List Char → Nat × List Char
  | word, [] => (word, [])
  | word, c :: cs =>
    let next := word * 10 + Text.digitValue c
    if next ≤ maxWord then absorb next cs else (word, c :: cs)

/-- Scales a number by a power of ten through rounded products and quotients with the floating
point powers of ten.  There is no result beyond the finite numbers. -/
def scalePower (d : Double) (e : Int) : Option Double :=
  if d.isZero then some d
  else if 308 < e then none
  else if 0 ≤ e then
    let scaled := d.mul (Double.ofDecimal false 1 e)
    if scaled.isFinite then some scaled else none
  else if -308 ≤ e then some (d.div (Double.ofDecimal false 1 (-e)))
  else scalePower (d.div (Double.ofDecimal false 1 308)) (e + 308)
termination_by (-e).toNat

/-- The largest exponent that is read digit by digit. -/
def maxPower : Nat := 0x7FFFFFFF

/-- The value of the numeral by its leading 64-bit word. -/
def toDoubleByWord? (n : Numeral) : Option Double :=
  let (word, skipped) := absorb 0 n.whole
  let (word, dropped) := absorb word n.fraction
  let shift : Int := (skipped.length : Int) - (n.fraction.length - dropped.length : Nat)
  let sign := fun d : Double => if n.negative then d.neg else d
  if maxPower < readDigits 0 n.power then
    if word = 0 ∨ n.mark.contains '-' then some (sign (Double.ofInt 0)) else none
  else (scalePower (Double.ofInt word) (shift + n.exponent)).map sign

end Numeral

end Adl
