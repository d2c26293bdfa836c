/-!
# Base64 — bytes as text

The standard alphabet with required padding.  `encode` writes three bytes as four symbols;
`decode` accepts exactly the texts that `encode` writes, so the bits of the last symbol that carry
no data must be zero.  Of several faults the first one in reading order counts, except that a bad
last symbol of a text one symbol too long is found first.
-/

namespace Adl.Base64

/-- What is wrong with a text, with the offset of the offending byte. -/
inductive Fault where
  | symbol (offset : Nat) (byte : UInt8)
  | length (count : Nat)
  | padding
  | lastSymbol (offset : Nat) (byte : UInt8)
  deriving DecidableEq, Repr

/-- The wording of a fault. -/
def Fault.message : Fault → String
  | symbol offset byte => s!"Invalid symbol {byte.toNat}, offset {offset}."
  | length count => s!"Invalid input length: {count}"
  | padding => "Invalid padding"
  | lastSymbol offset byte => s!"Invalid last symbol {byte.toNat}, offset {offset}."

/-! ### The alphabet -/

/-- The symbol of a value below 64. -/
def symbolOf (v : Nat) : UInt8 :=
  if v < 26 then UInt8.ofNat (65 + v)
  else if v < 52 then UInt8.ofNat (97 + (v - 26))
  else if v < 62 then UInt8.ofNat (48 + (v - 52))
  else if v = 62 then 43
  else 47

/-- The value of a symbol. -/
def valueOf? (b : UInt8) : Option Nat :=
  let n := b.toNat
  if 65 ≤ n ∧ n ≤ 90 then some (n - 65)
  else if 97 ≤ n ∧ n ≤ 122 then some (n - 97 + 26)
  else if 48 ≤ n ∧ n ≤ 57 then some (n - 48 + 52)
  else if n = 43 then some 62
  else if n = 47 then some 63
  else none

/-- The padding symbol. -/
def pad : UInt8 := 61

/-! ### Writing -/

/-- The symbols of a byte sequence. -/
def encodeBytes : List UInt8 → List UInt8
  | [] => []
  | [a] => [symbolOf (a.toNat / 4), symbolOf (a.toNat % 4 * 16), pad, pad]
  | [a, b] =>
    [symbolOf (a.toNat / 4), symbolOf (a.toNat % 4 * 16 + b.toNat / 16),
      symbolOf (b.toNat % 16 * 4), pad]
  | a :: b :: c :: rest =>
    symbolOf (a.toNat / 4) :: symbolOf (a.toNat % 4 * 16 + b.toNat / 16) ::
      symbolOf (b.toNat % 16 * 4 + c.toNat / 64) :: symbolOf (c.toNat % 64) :: encodeBytes rest

/-- The text of a byte sequence. -/
def encode (bytes : List UInt8) : String :=
  String.ofList ((encodeBytes bytes).map fun b => Char.ofNat b.toNat)

/-! ### Reading -/

/-- The value of the symbol at an offset. -/
def symbolAt (offset : Nat) (b : UInt8) : Except Fault Nat :=
  match valueOf? b with
  | some v => .ok v
  | none => .error (.symbol offset b)

/-- The symbols of the last group with their values, and the number of padding symbols.  Padding
is not among the first two symbols, and nothing follows it but padding. -/
def scanLast (group : Nat) : Nat → Option Nat → List UInt8 → Except Fault (List (UInt8 × Nat) × Nat)
  | _, _, [] => .ok ([], 0)
  | i, padded, b :: rest =>
    if b = pad then
      if i < 2 then .error (.symbol (group + i) b)
      else (scanLast group (i + 1) (padded.or (some (group + i))) rest).map fun (s, n) => (s, n + 1)
    else
      match padded with
      | some first => .error (.symbol first pad)
      | none => do
        let v ← symbolAt (group + i) b
        let (symbols, n) ← scanLast group (i + 1) none rest
        return ((b, v) :: symbols, n)

/-- The bytes of the last group, which starts at the given offset. -/
def decodeLast (group : Nat) (bytes : List UInt8) : Except Fault (List UInt8) :=
  if bytes.isEmpty then .ok []
  else do
    let (symbols, padding) ← scanLast group 0 none bytes
    if symbols.length < 2 then throw (.length (group + symbols.length))
    if (symbols.length + padding) % 4 ≠ 0 then throw .padding
    match symbols with
    | [(_, v), (b, w)] =>
      if w % 16 ≠ 0 then throw (.lastSymbol (group + 1) b)
      return [UInt8.ofNat (v * 4 + w / 16)]
    | [(_, v), (_, w), (b, x)] =>
      if x % 4 ≠ 0 then throw (.lastSymbol (group + 2) b)
      return [UInt8.ofNat (v * 4 + w / 16), UInt8.ofNat (w % 16 * 16 + x / 4)]
    | [(_, v), (_, w), (_, x), (_, y)] =>
      return [UInt8.ofNat (v * 4 + w / 16), UInt8.ofNat (w % 16 * 16 + x / 4),
        UInt8.ofNat (x % 4 * 64 + y)]
    | _ => return []

/-- The bytes of the groups from an offset on; all groups but the last are four symbols. -/
def decodeGroups : Nat → List UInt8 → Except Fault (List UInt8)
  | group, a :: b :: c :: d :: e :: rest => do
    let v ← symbolAt group a
    let w ← symbolAt (group + 1) b
    let x ← symbolAt (group + 2) c
    let y ← symbolAt (group + 3) d
    let bytes ← decodeGroups (group + 4) (e :: rest)
    return UInt8.ofNat (v * 4 + w / 16) :: UInt8.ofNat (w % 16 * 16 + x / 4) ::
      UInt8.ofNat (x % 4 * 64 + y) :: bytes
  | group, last => decodeLast group last

/-- The bytes written by a sequence of symbols. -/
def decodeBytes (bytes : List UInt8) : Except Fault (List UInt8) :=
  match bytes.length % 4, bytes.getLast? with
  | 1, some b =>
    if b = pad ∨ (valueOf? b).isSome then decodeGroups 0 bytes
    else .error (.symbol (bytes.length - 1) b)
  | _, _ => decodeGroups 0 bytes

/-- The bytes written by a text. -/
def decode (text : String) : Except Fault (List UInt8) := decodeBytes text.toUTF8.toList

end Adl.Base64
