import Adl.Text.Listed
import Adl.Text.NameStyle
import Adl.Text.Quoted

/-!
# TypeScriptText — property keys, relative paths and documentation in TypeScript

Paths in generated units are relative to the unit.  The unit of a module of `n + 1` segments lies
`n` directories below the output directory.
-/

namespace Adl.TypeScript

/-! ### Keys -/

/-- Whether a character may stand in a plain key. -/
def isKeyChar (c : Char) : Bool := c.isAlphanum || c == '_' || c == '$'

/-- Whether a text is a key that needs no quotes. -/
def isPlainKey (s : String) : Bool :=
  match s.toList with
  | [] => false
  | c :: cs => isKeyChar c && !c.isDigit && cs.all isKeyChar

/-- A property key, quoted if it needs to be. -/
def key (name : String) : String := if isPlainKey name then name else Text.quote name

/-- How a property of an object is read. -/
def access (object name : String) : String :=
  if isPlainKey name then object ++ "." ++ name else object ++ "[" ++ Text.quote name ++ "]"

/-! ### Paths -/

/-- The name under which a module is imported. -/
def moduleAlias (module : String) : String := "_".intercalate (Text.split '.' module)

/-- A number of steps to parent directories. -/
def upwards (n : Nat) : String := String.join (List.replicate n "../")

/-- The number of leading items that two lists have in common. -/
def commonLength : List String → List String → Nat
  | a :: as, b :: bs => if a = b then commonLength as bs + 1 else 0
  | _, _ => 0

/-- The path from the unit of one module to that of another. -/
def relativeImport (source target : String) : String :=
  let dir := (Text.split '.' source).dropLast
  let target := Text.split '.' target
  let common := min (commonLength dir target) (target.length - 1)
  let ups := dir.length - common
  (if ups = 0 then "./" else upwards ups) ++ "/".intercalate (target.drop common)

/-- The path from the unit of a module to a file below the output directory. -/
def relativeToRoot (module path : String) : String :=
  let depth := (Text.split '.' module).length - 1
  (if depth = 0 then "./" else upwards depth) ++ path

/-! ### Documentation -/

/-- The lines of a documentation comment. -/
def docLines (indent : String) (doc : Option String) : List String :=
  match doc with
  | none => []
  | some text =>
    (indent ++ "/**") ::
      (Text.lines text).map (fun line =>
        if line.isEmpty then indent ++ " *" else indent ++ " * " ++ line) ++
      [indent ++ " */"]

end Adl.TypeScript
