import Adl.Text.LetterCase
import Adl.Text.Split

/-!
# NameStyle — `PascalCase`, `snake_case` and upper case

`pascalCase` joins the words between underscores, each with its first letter in upper case.
`snakeCase` lowers every upper case letter and sets an underscore before it where a word starts:
after a letter that is not upper case, or before one that is lower case, so that an acronym stays
one word (`sessionID` becomes `session_id`).
-/

namespace Adl.Text

/-- A word with its first character in upper case. -/
def capitalize : List Char → List Char
  | [] => []
  | c :: cs => toUpper c ++ cs

/-- A name as the concatenation of its capitalized words. -/
def pascalCase (s : String) : String :=
  String.ofList ((splitChars '_' s.toList).flatMap capitalize)

/-- Whether an underscore goes between `prev` and the upper case letter before `rest`. -/
def startsWord (prev : Char) (rest : List Char) : Bool :=
  prev != '_' && (!isUpper prev || rest.head?.any isLower)

/-- Lowers the characters behind `prev`, the character before them if there is one. -/
def snakeChars : Option Char → List Char → List Char
  | _, [] => []
  | prev, c :: cs =>
    if isUpper c then
      (if prev.any (startsWord · cs) then ['_'] else []) ++ toLower c ++ snakeChars (some c) cs
    else c :: snakeChars (some c) cs

/-- A name in lower case with underscores between its words. -/
def snakeCase (s : String) : String := String.ofList (snakeChars none s.toList)

/-- A name in upper case. -/
def upperCase (s : String) : String := String.ofList (s.toList.flatMap toUpper)

end Adl.Text
