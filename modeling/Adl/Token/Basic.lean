import Adl.Token.Lexeme

/-!
# Token — the words of a schema text

`Token.scan` cuts a whole text into lexemes and keeps those that matter to the grammar, each with
its position; blanks and comments are dropped, except the documentation comments that start with
three slashes.
-/

namespace Adl

/-! ### Positions -/

/-- A place in a text: line and column count from 1, a column is one character wide. -/
structure Position where
  line : Nat
  column : Nat
  deriving DecidableEq, Repr

namespace Position

/-- The start of a text. -/
def start : Position := ⟨1, 1⟩

/-- The place behind a character. -/
def step (p : Position) (c : Char) : Position :=
  if c = '\n' then ⟨p.line + 1, 1⟩ else ⟨p.line, p.column + 1⟩

/-- The place behind a text that starts at `p`. -/
def after (p : Position) (cs : List Char) : Position := cs.foldl step p

end Position

/-! ### Tokens -/

/-- A lexeme that matters to the grammar, with its place. -/
structure Token where
  text : String
  position : Position
  deriving DecidableEq, Repr

/-- The tokens of a text, and the place where the text ends. -/
structure Tokens where
  list : List Token
  stop : Position
  deriving DecidableEq, Repr

/-- Text at a place where no lexeme starts, up to the next place where one does. -/
structure ScanFailure where
  text : String
  position : Position
  deriving DecidableEq, Repr

namespace Token

/-- Whether the token is a documentation comment. -/
def isDoc (t : Token) : Bool := Lexeme.isDoc t.text.toList

/-- The characters up to the next place where a lexeme starts, the first one in any case. -/
def gap : List Char → List Char
  | [] => []
  | c :: cs => if (Lexeme.lexeme? (some c) cs).isSome then [c] else c :: gap cs

/-- The tokens of the text `cs` behind `prev`, which starts at `p`. -/
def scanFrom (prev : Option Char) (p : Position) (cs : List Char) : Except ScanFailure Tokens :=
  if cs.isEmpty then .ok ⟨[], p⟩
  else
    match _h : Lexeme.lexeme? prev cs with
    | none => .error ⟨String.ofList (gap cs), p⟩
    | some (lexeme, rest) =>
      match scanFrom lexeme.getLast? (p.after lexeme) rest with
      | .error e => .error e
      | .ok tokens =>
        if Lexeme.isDropped lexeme then .ok tokens
        else .ok ⟨⟨String.ofList lexeme, p⟩ :: tokens.list, tokens.stop⟩
termination_by cs.length
decreasing_by exact Lexeme.length_rest_lt _h

/-- The tokens of a text. -/
def scan (text : String) : Except ScanFailure Tokens :=
  scanFrom none Position.start text.toList

end Token

end Adl
