import Adl.Number.Shortest

/-!
# Layout — how the digits of a number are laid out

Every number is written with its shortest digits.  A `Layout` says for which decimal exponents the
point is set among the digits, and how the rest is written; the three layouts in use are values.
-/

namespace Adl

/-- The decisions of a number format.  The exponent of `d.ddd * 10 ^ e` is `e`. -/
structure Layout where
  /-- Whether a number of this exponent is written without an exponent part. -/
  positional : Int → Bool
  /-- Whether whole numbers in positional form end in `.0`. -/
  wholeFraction : Bool
  /-- Whether exponents that are not negative have a plus sign. -/
  plusSign : Bool
  /-- Which of two equally near digit strings is taken. -/
  tie : Double.Tie

namespace Layout

/-- Numbers of data texts: positional from `0.00001` up to sixteen whole digits, else with a
signed exponent. -/
def data : Layout := ⟨fun e => -5 ≤ e && e ≤ 15, true, true, .toEven⟩

/-- Numbers of program texts: positional from `0.0001` up to sixteen whole digits, else with an
exponent; always recognizable as floating point. -/
def source : Layout := ⟨fun e => -4 ≤ e && e ≤ 15, true, false, .upward⟩

/-- Numbers without any exponent. -/
def plain : Layout := ⟨fun _ => true, false, false, .upward⟩

/-- The digits of a decimal laid out with a point among them. -/
def positionalDigits (wholeFraction : Bool) (digits : List Char) (e : Int) : List Char :=
  if e < 0 then '0' :: '.' :: (List.replicate (-e - 1).toNat '0' ++ digits)
  else
    let whole := e.toNat + 1
    if digits.length ≤ whole then
      digits ++ List.replicate (whole - digits.length) '0' ++
        (if wholeFraction then ['.', '0'] else [])
    else digits.take whole ++ '.' :: digits.drop whole

/-- The digits of a decimal laid out as one digit before the point and an exponent. -/
def exponentDigits (plusSign : Bool) (digits : List Char) (e : Int) : List Char :=
  let mantissa :=
    match digits with
    | [] => []
    | [d] => [d]
    | d :: ds => d :: '.' :: ds
  let sign := if e < 0 then ['-'] else if plusSign then ['+'] else []
  mantissa ++ 'e' :: (sign ++ Nat.toDigits 10 e.natAbs)

/-- The text of a finite magnitude. -/
def magnitudeText (l : Layout) (d : Double) : List Char :=
  let decimal := d.shortest l.tie
  let digits := Nat.toDigits 10 decimal.coefficient
  let e := decimal.scale + digits.length - 1
  if l.positional e then positionalDigits l.wholeFraction digits e
  else exponentDigits l.plusSign digits e

/-- The text of a number; an infinite one is `inf`. -/
def text (l : Layout) (d : Double) : String :=
  let magnitude := if d.isFinite then l.magnitudeText d else ['i', 'n', 'f']
  String.ofList (if d.negative then '-' :: magnitude else magnitude)

end Layout

end Adl
