/-!
# Quoted — text between double quotes

`quote` writes a string between double quotes: quotes, backslashes and the controls below U+0020
are escaped, every other character stands for itself.  `unquote` reads such a text back and also
accepts `\/` and the four-digit escapes of UTF-16, where a character beyond U+FFFF is a surrogate
pair.  A failure carries the position of the offending byte, counted from 1 in the UTF-8 encoding
of the text, opening quote included.
-/

namespace Adl.Text

/-! ### Writing -/

/-- The lower case hexadecimal digit of a number below sixteen. -/
def hexDigit (n : Nat) : Char :=
  Char.ofNat (if n < 10 then 48 + n else 87 + n)

/-- How a character is written between quotes. -/
def escapeChar (c : Char) : List Char :=
  if c = '"' then ['\\', '"']
  else if c = '\\' then ['\\', '\\']
  else if c = '\x08' then ['\\', 'b']
  else if c = '\x0c' then ['\\', 'f']
  else if c = '\n' then ['\\', 'n']
  else if c = '\r' then ['\\', 'r']
  else if c = '\t' then ['\\', 't']
  else if c.toNat < 32 then
    ['\\', 'u', '0', '0', hexDigit (c.toNat / 16), hexDigit (c.toNat % 16)]
  else [c]

/-- Characters between double quotes. -/
def quoteChars (cs : List Char) : List Char :=
  '"' :: (cs.flatMap escapeChar ++ ['"'])

/-- A string between double quotes. -/
def quote (s : String) : String := String.ofList (quoteChars s.toList)

/-! ### Reading -/

/-- What can be wrong with a quoted text. -/
inductive QuoteFault where
  | unterminated
  | controlCharacter
  | invalidEscape
  | loneSurrogate
  | truncatedPair
  deriving DecidableEq, Repr

/-- A fault together with the position of the byte that shows it. -/
structure QuoteError where
  fault : QuoteFault
  column : Nat
  deriving DecidableEq, Repr

/-- The wording of a fault. -/
def QuoteFault.message : QuoteFault → String
  | unterminated => "EOF while parsing a string"
  | controlCharacter => "control character (\\u0000-\\u001F) found while parsing a string"
  | invalidEscape => "invalid escape"
  | loneSurrogate => "lone leading surrogate in hex escape"
  | truncatedPair => "unexpected end of hex escape"

/-- The wording of an error: the fault and its position in a text of one line. -/
def QuoteError.message (e : QuoteError) : String :=
  e.fault.message ++ " at line 1 column " ++ toString e.column

/-- The number of bytes of a text in UTF-8. -/
def byteLength (cs : List Char) : Nat := (String.ofList cs).utf8ByteSize

/-- The value of a hexadecimal digit of either case. -/
def hexValue? (c : Char) : Option Nat :=
  let n := c.toNat
  if 48 ≤ n ∧ n ≤ 57 then some (n - 48)
  else if 97 ≤ n ∧ n ≤ 102 then some (n - 87)
  else if 65 ≤ n ∧ n ≤ 70 then some (n - 55)
  else none

/-- The 16-bit unit written by four hexadecimal digits. -/
def unit? (a b c d : Char) : Option Nat := do
  return ((← hexValue? a) * 16 + (← hexValue? b)) * 256 + ((← hexValue? c) * 16 + (← hexValue? d))

/-- The failure of a four-digit escape whose digits start behind `pos` bytes: the text ends within
the four bytes, or one of them is no digit. -/
def unitError (pos : Nat) (cs : List Char) : QuoteError :=
  if byteLength cs < 4 then ⟨.unterminated, pos + byteLength cs⟩ else ⟨.invalidEscape, pos + 4⟩

/-- A unit in the range of first halves of surrogate pairs. -/
def isLeading (u : Nat) : Bool := 0xD800 ≤ u && u ≤ 0xDBFF

/-- A unit in the range of second halves of surrogate pairs. -/
def isTrailing (u : Nat) : Bool := 0xDC00 ≤ u && u ≤ 0xDFFF

/-- The character written by a surrogate pair. -/
def pairChar (u v : Nat) : Char :=
  Char.ofNat ((u - 0xD800) * 1024 + (v - 0xDC00) + 0x10000)

/-- The character named by the letter of a short escape. -/
def shortEscape? (c : Char) : Option Char :=
  if c = '"' then some '"'
  else if c = '\\' then some '\\'
  else if c = '/' then some '/'
  else if c = 'b' then some '\x08'
  else if c = 'f' then some '\x0c'
  else if c = 'n' then some '\n'
  else if c = 'r' then some '\r'
  else if c = 't' then some '\t'
  else none

/-- Reads behind an opening quote up to its closing quote; `pos` bytes precede.  The answer holds
the characters read and the text behind the closing quote. -/
def unquoteRest : Nat → List Char → Except QuoteError (List Char × List Char)
  | pos, [] => .error ⟨.unterminated, pos⟩
  | _, '"' :: rest => .ok ([], rest)
  | pos, '\\' :: 'u' :: digits =>
    match digits with
    | a :: b :: c :: d :: rest =>
      match unit? a b c d with
      | none => .error (unitError (pos + 2) digits)
      | some u =>
        if isTrailing u then .error ⟨.loneSurrogate, pos + 6⟩
        else if isLeading u then
          match rest with
          | '\\' :: 'u' :: digits' =>
            match digits' with
            | a' :: b' :: c' :: d' :: rest' =>
              match unit? a' b' c' d' with
              | none => .error (unitError (pos + 8) digits')
              | some v =>
                if isTrailing v then
                  (unquoteRest (pos + 12) rest').map fun (s, r) => (pairChar u v :: s, r)
                else .error ⟨.loneSurrogate, pos + 12⟩
            | _ => .error (unitError (pos + 8) digits')
          | '\\' :: _ :: _ => .error ⟨.truncatedPair, pos + 8⟩
          | ['\\'] => .error ⟨.unterminated, pos + 7⟩
          | _ :: _ => .error ⟨.truncatedPair, pos + 7⟩
          | [] => .error ⟨.unterminated, pos + 6⟩
        else (unquoteRest (pos + 6) rest).map fun (s, r) => (Char.ofNat u :: s, r)
    | _ => .error (unitError (pos + 2) digits)
  | pos, '\\' :: c :: rest =>
    match shortEscape? c with
    | some x => (unquoteRest (pos + 2) rest).map fun (s, r) => (x :: s, r)
    | none => .error ⟨.invalidEscape, pos + 2⟩
  | pos, ['\\'] => .error ⟨.unterminated, pos + 1⟩
  | pos, c :: rest =>
    if c.toNat < 32 then .error ⟨.controlCharacter, pos + 1⟩
    else (unquoteRest (pos + c.utf8Size) rest).map fun (s, r) => (c :: s, r)

/-- Reads a text that starts with a double quote. -/
def unquote (s : String) : Except QuoteError String :=
  (unquoteRest 1 (s.toList.drop 1)).map fun (cs, _) => String.ofList cs

end Adl.Text
