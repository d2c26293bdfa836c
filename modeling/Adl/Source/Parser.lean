import Adl.Source.Module

/-!
# Parser — modules from tokens

`parse` reads the tokens of a text by recursive descent.  A parser takes the tokens that are left
and gives back those behind what it has read; a failure names the token it was found at, or none
at the end of the text.  The grammar's repetitions are bounded by the number of tokens.
-/

namespace Adl.Source

/-! ### Failures -/

/-- Why a sequence of tokens is no module. -/
inductive ParseFault where
  | expected (what found : String)
  | unexpectedEnd
  | unexpectedToken (text : String)
  | bareImport
  | unionDefault
  | invalidString (e : Text.QuoteError)
  | integerOutOfRange (text : String)
  | invalidNumber (text : String)
  | serializedNameValue
  deriving DecidableEq, Repr

/-- The wording of a fault. -/
def ParseFault.message : ParseFault → String
  | expected what found => "Expected " ++ what ++ " but found " ++ Text.quote found
  | unexpectedEnd => "Unexpected end of input"
  | unexpectedToken text => "Unexpected token " ++ Text.quote text
  | bareImport => "Import must name a module and a declaration, or end with \".*\""
  | unionDefault => "Union alternatives cannot have defaults"
  | invalidString e => "Invalid string literal: " ++ e.message
  | integerOutOfRange text => "Integer literal " ++ Text.quote text ++ " is out of range"
  | invalidNumber text => "Invalid number " ++ Text.quote text
  | serializedNameValue => "@SerializedName requires a string value"

/-- A fault and the token where it was found, none at the end of the text. -/
structure ParseFailure where
  fault : ParseFault
  token : Option Token
  deriving DecidableEq, Repr

/-! ### Parsers -/

/-- Reads from a list of tokens. -/
abbrev Parser := StateT (List Token) (Except ParseFailure)

namespace Parser

variable {α : Type}

/-- Fails at a token. -/
def fail (fault : ParseFault) (token : Option Token) : Parser α := fun _ => .error ⟨fault, token⟩

/-- The next token. -/
def peek : Parser (Option Token) := fun ts => .ok (ts.head?, ts)

/-- Fails because the next token cannot stand where it does. -/
def unexpected : Parser α := fun ts =>
  match ts with
  | [] => .error ⟨.unexpectedEnd, none⟩
  | t :: _ => .error ⟨.unexpectedToken t.text, some t⟩

/-- Passes over the next token if it has the given text. -/
def eat (text : String) : Parser Bool := fun ts =>
  match ts with
  | t :: rest => if t.text = text then .ok (true, rest) else .ok (false, t :: rest)
  | [] => .ok (false, [])

/-- Reads a token that passes a test. -/
def expectWhere (test : Token → Bool) (what : String) : Parser Token := fun ts =>
  match ts with
  | t :: rest => if test t then .ok (t, rest) else .error ⟨.expected what t.text, some t⟩
  | [] => .error ⟨.expected what "", none⟩

/-- Reads the token of the given text. -/
def expect (text what : String) : Parser Unit := do
  let _ ← expectWhere (·.text = text) what

/-- Reads an identifier. -/
def expectName (what : String) : Parser Token :=
  expectWhere (fun t =>
    match t.text.toList with
    | c :: cs => Text.isNameStart c && cs.all Text.isNameChar
    | [] => false) what

/-- Whether a token is a quoted text. -/
def isQuoted (t : Token) : Bool := t.text.toList.head? == some '"'

/-- The number that a token is, if it is one. -/
def numeral? (t : Token) : Option Numeral :=
  match Numeral.scan? Text.isDigit t.text.toList with
  | some (n, []) => some n
  | _ => none

/-- Reads items up to a closing token, at most `fuel` of them. -/
def many (close : String) (item : Parser α) : Nat → Parser (List α)
  | 0 => unexpected
  | fuel + 1 => do
    if ← eat close then return []
    if (← peek).isNone then unexpected
    let first ← item
    let rest ← many close item fuel
    return first :: rest

/-- Reads one or more items with commas between them up to a closing token. -/
def separated (close what : String) (item : Parser α) : Nat → Parser (List α)
  | 0 => unexpected
  | fuel + 1 => do
    let first ← item
    if ← eat close then return [first]
    expect "," what
    let rest ← separated close what item fuel
    return first :: rest

/-! ### Names -/

/-- Reads the names behind the dots of a dotted name. -/
def nameParts : Nat → Parser (List String)
  | 0 => return []
  | fuel + 1 => do
    if ← eat "." then
      let part ← expectName "identifier"
      let parts ← nameParts fuel
      return part.text :: parts
    else return []

/-- Reads a dotted name; the first token gives its place. -/
def dottedName (fuel : Nat) : Parser (String × Position) := do
  let first ← expectName "identifier"
  let parts ← nameParts fuel
  return (".".intercalate (first.text :: parts), first.position)

/-- Reads the rest of an import: the names behind the dots, and whether a star ends them. -/
def importParts : Nat → Parser (List String × Bool)
  | 0 => return ([], false)
  | fuel + 1 => do
    if ← eat "." then
      if ← eat "*" then return ([], true)
      let part ← expectName "identifier or \"*\""
      let (parts, all) ← importParts fuel
      return (part.text :: parts, all)
    else return ([], false)

/-- Reads an import behind its keyword. -/
def importDecl (fuel : Nat) : Parser Import := do
  let first ← expectName "module name"
  let (parts, all) ← importParts fuel
  expect ";" "\";\""
  let names := first.text :: parts
  if all then return ⟨".".intercalate names, .all, first.position⟩
  if parts.isEmpty then fail .bareImport (some first)
  return ⟨".".intercalate names.dropLast, .name (names.getLast?.getD ""), first.position⟩

/-! ### Literals -/

/-- The least integer that a literal can be. -/
def minInteger : Int := -0x8000000000000000

/-- The greatest integer that a literal can be. -/
def maxInteger : Int := 0xFFFFFFFFFFFFFFFF

/-- The text of a quoted token. -/
def unquoted (t : Token) : Parser String :=
  match Text.unquote t.text with
  | .ok s => return s
  | .error e => fail (.invalidString e) (some t)

/-- The value of a number token. -/
def numberLiteral (t : Token) (n : Numeral) : Parser Literal :=
  if n.isInteger then
    if n.hasValue ∧ minInteger ≤ n.toInt ∧ n.toInt ≤ maxInteger then return .integer n.toInt
    else fail (.integerOutOfRange t.text) (some t)
  else if n.hasValue then return .double n.toDouble
  else fail (.invalidNumber t.text) (some t)

/-- Reads an entry of an object literal, given how to read its value. -/
def entry (value : Parser Literal) : Parser (String × Literal) := do
  let key ← expectWhere isQuoted "string key"
  let name ← unquoted key
  expect ":" "\":\""
  return (name, ← value)

/-- Reads a literal. -/
def literal : Nat → Parser Literal
  | 0 => unexpected
  | fuel + 1 => do
    match ← peek with
    | none => unexpected
    | some t =>
      if isQuoted t then
        let _ ← eat t.text
        return .string (← unquoted t)
      else if let some n := numeral? t then
        let _ ← eat t.text
        numberLiteral t n
      else if ← eat "true" then return .boolean true
      else if ← eat "false" then return .boolean false
      else if ← eat "null" then return .null
      else if ← eat "[" then
        if ← eat "]" then return .array []
        return .array (← separated "]" "\",\" or \"]\"" (literal fuel) (fuel + 1))
      else if ← eat "\x7b" then
        if ← eat "\x7d" then return .object []
        return .object (← separated "\x7d" "\",\" or \"\x7d\"" (entry (literal fuel)) (fuel + 1))
      else unexpected

/-- Whether a token can start a literal. -/
def startsLiteral (t : Token) : Bool :=
  isQuoted t || (numeral? t).isSome || ["true", "false", "null", "[", "\x7b"].contains t.text

/-! ### Types -/

/-- Reads a type. -/
def typeExpr : Nat → Parser TypeExpr
  | 0 => unexpected
  | fuel + 1 => do
    let (name, position) ← dottedName (fuel + 1)
    if ← eat "<" then
      let args ← separated ">" "\",\" or \">\"" (typeExpr fuel) (fuel + 1)
      return .mk name args position
    else return .mk name [] position

/-- Reads the type parameters of a declaration, if it has any. -/
def typeParams (fuel : Nat) : Parser (List String) := do
  if ← eat "<" then
    separated ">" "\",\" or \">\"" (return (← expectName "type parameter").text) fuel
  else return []

/-! ### Annotations -/

/-- The text of a line of documentation: a blank behind the slashes does not count. -/
def docLine (t : Token) : String :=
  String.ofList <|
    match t.text.toList.drop 3 with
    | ' ' :: cs => cs
    | cs => cs

/-- Reads consecutive documentation comments as one text, each line ended. -/
def docs : Parser (Option String) := fun ts =>
  let lines := (ts.takeWhile Token.isDoc).map docLine
  let text := if lines.isEmpty then none else some ("\n".intercalate lines ++ "\n")
  .ok (text, ts.dropWhile Token.isDoc)

/-- The name under which documentation comments are annotations. -/
def docName : String := "Doc"

/-- Reads the annotations before a declaration or member. -/
def annotations : Nat → Parser (List AnnotationEntry)
  | 0 => return []
  | fuel + 1 => do
    match ← docs with
    | some doc =>
      let rest ← annotations fuel
      return ⟨docName, .string doc⟩ :: rest
    | none =>
      if ← eat "@" then
        let (name, _) ← dottedName (fuel + 1)
        let value ← match ← peek with
          | some t => if startsLiteral t then literal (fuel + 1) else pure .null
          | none => pure .null
        let rest ← annotations fuel
        return ⟨name, value⟩ :: rest
      else return []

/-! ### Members -/

/-- Whether an annotation gives the serialized name. -/
def isSerializedName (a : AnnotationEntry) : Bool :=
  a.name == "SerializedName" || a.name == "sys.annotations.SerializedName"

/-- The serialized name of the member called `name`, and its other annotations.  The first
annotation that gives a serialized name counts and is removed. -/
def takeSerializedName (name : Token) (annotations : List AnnotationEntry) :
    Parser (String × List AnnotationEntry) :=
  match annotations.find? isSerializedName with
  | none => return (name.text, annotations)
  | some a =>
    match a.value with
    | .string s => return (s, annotations.eraseP isSerializedName)
    | _ => fail .serializedNameValue (some name)

/-- Reads a field, or an alternative, which has no default. -/
def member (allowDefault : Bool) (fuel : Nat) : Parser Member := do
  let written ← annotations fuel
  let type ← typeExpr fuel
  let name ← expectName "field name"
  let equals ← peek
  let default ←
    if ← eat "=" then
      if !allowDefault then fail .unionDefault equals
      some <$> literal fuel
    else pure none
  expect ";" "\";\""
  let (serializedName, annotations) ← takeSerializedName name written
  return ⟨name.text, serializedName, type, default, annotations, name.position⟩

/-- Reads a label of an enum. -/
def label (fuel : Nat) : Parser Member := do
  let written ← annotations fuel
  let name ← expectName "enum label"
  expect ";" "\";\""
  let (serializedName, annotations) ← takeSerializedName name written
  return ⟨name.text, serializedName, .mk "Void" [] name.position, none, annotations, name.position⟩

/-- Reads members between braces. -/
def members (item : Parser Member) (fuel : Nat) : Parser (List Member) := do
  expect "\x7b" "\"\x7b\""
  many "\x7d" item fuel

/-! ### Declarations and modules -/

/-- The kinds of declarations. -/
inductive Keyword where
  | struct
  | union
  | enum
  | alias
  | newtype
  deriving DecidableEq, Repr

/-- The kind of declaration that a token starts. -/
def keyword? (t : Token) : Option Keyword :=
  match t.text with
  | "struct" => some .struct
  | "union" => some .union
  | "enum" => some .enum
  | "type" => some .alias
  | "newtype" => some .newtype
  | _ => none

/-- Reads the keyword of a declaration. -/
def keyword : Parser (Keyword × Position) := do
  match ← peek with
  | none => unexpected
  | some t =>
    match keyword? t with
    | none => unexpected
    | some k =>
      let _ ← eat t.text
      return (k, t.position)

/-- Reads the body of a declaration behind its name and type parameters. -/
def body (fuel : Nat) : Keyword → Parser Body
  | .struct => return .struct (← members (member true fuel) fuel)
  | .union => return .union (← members (member false fuel) fuel)
  | .enum => return .enum (← members (label fuel) fuel)
  | .alias => do
    expect "=" "\"=\""
    return .alias (← typeExpr fuel)
  | .newtype => do
    expect "=" "\"=\""
    let target ← typeExpr fuel
    let default ← if ← eat "=" then some <$> literal fuel else pure none
    return .newtype target default

/-- Reads a declaration; an enum has no type parameters. -/
def decl (fuel : Nat) : Parser Decl := do
  let written ← annotations fuel
  let (kind, position) ← keyword
  let name ← expectName "identifier"
  let params ← if kind = .enum then pure [] else typeParams fuel
  let body ← body fuel kind
  expect ";" "\";\""
  return ⟨name.text, params, written, body, position⟩

/-- Reads imports as long as there are any. -/
def imports (fuel : Nat) : Nat → Parser (List Import)
  | 0 => return []
  | n + 1 => do
    if ← eat "import" then
      let first ← importDecl fuel
      let rest ← imports fuel n
      return first :: rest
    else return []

/-- Reads a module and nothing behind it but one semicolon. -/
def module (fuel : Nat) : Parser Module := do
  let written ← annotations fuel
  expect "module" "\"module\""
  let (name, _) ← dottedName fuel
  expect "\x7b" "\"\x7b\""
  let imports ← imports fuel fuel
  let decls ← many "\x7d" (decl fuel) fuel
  let _ ← eat ";"
  if (← peek).isSome then unexpected
  return ⟨name, imports, decls, written⟩

end Parser

/-- Reads the module that a list of tokens writes. -/
def parse (tokens : List Token) : Except ParseFailure Module :=
  (Parser.module (tokens.length + 1) tokens).map (·.1)

end Adl.Source
