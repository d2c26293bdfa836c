/-!
# Double — binary floating point numbers

A `Double` is a 64-bit floating point number that is a number: a sign and the bit pattern of its
magnitude, up to infinity.  No text is read as NaN, neither a numeral of a schema nor one of JSON,
which is why the type leaves it out.  Equality of this type tells the two zeros apart; `sameNumber`
does not.  All arithmetic is exact arithmetic on natural numbers followed by one rounding to
nearest, ties to even (`ofRatio`).
-/

namespace Adl

/-- The bit pattern of an infinite magnitude; every finite magnitude lies below it. -/
def infiniteBits : Nat := 0x7FF0000000000000

/-- A floating point number: its sign, and the bits of its magnitude. -/
structure Double where
  negative : Bool
  bits : Nat
  bits_le : bits ≤ infiniteBits
  deriving DecidableEq

namespace Double

instance : Repr Double where
  reprPrec d _ := (if d.negative then "-" else "+") ++ repr d.bits

instance : Inhabited Double := ⟨⟨false, 0, Nat.zero_le _⟩⟩

/-! ### Parts of a number -/

/-- Whether the number is finite. -/
def isFinite (d : Double) : Bool := d.bits < infiniteBits

/-- Whether the number is one of the two zeros. -/
def isZero (d : Double) : Bool := d.bits == 0

/-- The weight `2 ^ 52` of the leading bit of a significand, which the bit pattern leaves out. -/
def implicitBit : Nat := 0x10000000000000

/-- The exponent field of the bit pattern. -/
def field (d : Double) : Nat := d.bits / implicitBit

/-- The integer `m` for which a finite magnitude is `m * 2 ^ d.exponent`. -/
def significand (d : Double) : Nat :=
  if d.field = 0 then d.bits else implicitBit + d.bits % implicitBit

/-- The power of two that scales the significand. -/
def exponent (d : Double) : Int :=
  if d.field = 0 then -1074 else (d.field : Int) - 1075

/-- The same number with the other sign. -/
def neg (d : Double) : Double := { d with negative := !d.negative }

/-- Equality as numbers: the two zeros are the same number. -/
def sameNumber (a b : Double) : Bool :=
  a.bits == b.bits && (a.negative == b.negative || a.bits == 0)

/-! ### Rounding -/

/-- The whole number nearest to `num / den`, the even one of two. -/
def roundHalfEven (num den : Nat) : Nat :=
  let q := num / den
  let r := num % den
  if 2 * r > den ∨ (2 * r = den ∧ q % 2 = 1) then q + 1 else q

/-- `num / den` times `2 ^ e` as numerator and denominator. -/
def scaleBinary (num den : Nat) (e : Int) : Nat × Nat :=
  if 0 ≤ e then (num <<< e.toNat, den) else (num, den <<< (-e).toNat)

/-- The largest `k` with `2 ^ k ≤ num / den`, for positive arguments. -/
def floorLog2 (num den : Nat) : Int :=
  let k := (num.log2 : Int) - den.log2
  let (n, d) := scaleBinary num den (-k)
  if n < d then k - 1 else k

/-- The bits of the magnitude nearest to `num / den`. -/
def roundBits (num den : Nat) : Nat :=
  if num = 0 then 0
  else
    let q := max (floorLog2 num den - 52) (-1074)
    let (n, d) := scaleBinary num den (-q)
    min infiniteBits ((q + 1074).toNat * implicitBit + roundHalfEven n d)

theorem roundBits_le (num den : Nat) : roundBits num den ≤ infiniteBits := by
  unfold roundBits
  split
  · exact Nat.zero_le _
  · exact Nat.min_le_left _ _

/-- The number nearest to `num / den`, with the given sign. -/
def ofRatio (negative : Bool) (num den : Nat) : Double :=
  ⟨negative, roundBits num den, roundBits_le num den⟩

/-- The number nearest to `m * 2 ^ e`. -/
def ofBinary (negative : Bool) (m : Nat) (e : Int) : Double :=
  let (n, d) := scaleBinary m 1 e
  ofRatio negative n d

/-- The infinite number of the given sign. -/
def infinite (negative : Bool) : Double := ⟨negative, infiniteBits, Nat.le_refl _⟩

/-- The number nearest to an integer. -/
def ofInt (i : Int) : Double := ofRatio (i < 0) i.natAbs 1

/-- The number of decimal digits of a positive number. -/
def decimalLength (n : Nat) : Nat := (Nat.toDigits 10 n).length

/-- The number nearest to `n * 10 ^ e`.  Beyond the range of finite numbers the powers need not be
computed. -/
def ofDecimal (negative : Bool) (n : Nat) (e : Int) : Double :=
  if n = 0 ∨ decimalLength n + e < -330 then ofRatio negative 0 1
  else if 310 < decimalLength n + e then infinite negative
  else if 0 ≤ e then ofRatio negative (n * Nat.pow 10 e.toNat) 1
  else ofRatio negative n (Nat.pow 10 (-e).toNat)

/-- The rounded product of two finite numbers. -/
def mul (a b : Double) : Double :=
  ofBinary (a.negative != b.negative) (a.significand * b.significand) (a.exponent + b.exponent)

/-- The rounded quotient of two finite numbers, the second not zero. -/
def div (a b : Double) : Double :=
  let (n, d) := scaleBinary a.significand b.significand (a.exponent - b.exponent)
  ofRatio (a.negative != b.negative) n d

/-! ### The single precision range -/

/-- The bits of the least magnitude that rounds to infinity in 32 bits: half a unit above the
largest finite one, `2 ^ 128 - 2 ^ 103`. -/
def singleOverflowBits : Nat := 0x47EFFFFFF0000000

/-- Whether a finite number has no finite neighbour in 32 bits. -/
def overflowsSingle (d : Double) : Bool := d.isFinite && singleOverflowBits ≤ d.bits

end Double

end Adl
