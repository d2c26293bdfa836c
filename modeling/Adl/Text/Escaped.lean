import Adl.Text.Hidden
import Adl.Text.Quoted

/-!
# Escaped — quoted text for reading by people

`escaped` quotes a string so that nothing in it hides: besides quotes, backslashes and the common
controls, every hidden character is written by its code point in braces.
-/

namespace Adl.Text

/-- The lower case hexadecimal digits of a number, most significant first. -/
def hexDigits (n : Nat) : List Char := Nat.toDigits 16 n

/-- How a character is written between quotes when hidden characters must show. -/
def revealChar (c : Char) : List Char :=
  if c = '"' then ['\\', '"']
  else if c = '\\' then ['\\', '\\']
  else if c = '\n' then ['\\', 'n']
  else if c = '\r' then ['\\', 'r']
  else if c = '\t' then ['\\', 't']
  else if c = '\x00' then ['\\', '0']
  else if isHidden c then '\\' :: 'u' :: '\x7b' :: (hexDigits c.toNat ++ ['\x7d'])
  else [c]

/-- A string between double quotes in which every character shows. -/
def escaped (s : String) : String :=
  String.ofList ('"' :: (s.toList.flatMap revealChar ++ ['"']))

end Adl.Text
