import Adl.Text.Escaped
import Adl.Text.Listed
import Adl.Text.NameStyle

/-!
# RustText — identifiers, raw strings and documentation in Rust

A keyword becomes an identifier by a mark, or by an underscore where the mark is not allowed.  A
raw string has more hash signs at its ends than ever follow a quote inside it.
-/

namespace Adl.Rust

/-- The keywords that cannot be marked as identifiers. -/
def pathKeywords : List String := ["self", "Self", "super", "crate"]

/-- The keywords that can be marked as identifiers. -/
def keywords : List String :=
  ["as", "break", "const", "continue", "else", "enum", "extern", "false", "fn", "for", "if",
    "impl", "in", "let", "loop", "match", "mod", "move", "mut", "pub", "ref", "return", "static",
    "struct", "trait", "true", "type", "unsafe", "use", "where", "while", "async", "await", "dyn",
    "abstract", "become", "box", "do", "final", "macro", "override", "priv", "typeof", "unsized",
    "virtual", "yield", "try"]

/-- The mark before a keyword that is meant as an identifier. -/
def rawMark : String := "r#"

/-- A word as an identifier. -/
def identifier (word : String) : String :=
  if word ∈ pathKeywords then word ++ "_"
  else if word ∈ keywords then rawMark ++ word
  else word

/-- The characters of an identifier without the marks before it. -/
def unmarkedChars : List Char → List Char
  | 'r' :: '#' :: cs => unmarkedChars cs
  | cs => cs

/-- An identifier without the marks before it. -/
def unmarked (ident : String) : String := String.ofList (unmarkedChars ident.toList)

/-- The identifier of a type or a variant. -/
def typeIdent (name : String) : String := Text.pascalCase name

/-- The identifier of a field. -/
def fieldIdent (name : String) : String := identifier (Text.snakeCase name)

/-! ### Raw strings -/

/-- The greatest number of hash signs that follow a quote; `run` is their number directly before
the text if a quote precedes them. -/
def longestRun (run : Option Nat) : List Char → Nat
  | [] => 0
  | c :: cs =>
    let run := if c = '"' then some 0 else if c = '#' then run.map (· + 1) else none
    max (run.getD 0) (longestRun run cs)

/-- The number of hash signs at the ends of a raw string. -/
def hashCount (cs : List Char) : Nat := longestRun none cs + 1

/-- The characters of a raw string literal. -/
def rawChars (cs : List Char) : List Char :=
  let hashes := List.replicate (hashCount cs) '#'
  'r' :: (hashes ++ '"' :: (cs ++ '"' :: hashes))

/-- A raw string literal. -/
def rawString (text : String) : String := String.ofList (rawChars text.toList)

/-! ### Documentation -/

/-- The lines of a documentation comment. -/
def docLines (indent : String) (doc : Option String) : List String :=
  match doc with
  | none => []
  | some text =>
    (Text.lines text).map fun line =>
      if line.isEmpty then indent ++ "///" else indent ++ "/// " ++ line

end Adl.Rust
