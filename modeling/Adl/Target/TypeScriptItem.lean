import Adl.Name
import Adl.Target.TypeScriptText

/-!
# TypeScriptItem — types, expressions and items of generated TypeScript

The parts of a generated unit as trees, and their texts.  A name of another module is kept with its
module, so the modules that a unit refers to can be read off its items.
-/

namespace Adl.TypeScript

/-- The name of a declaration; one of another module is qualified. -/
structure Ref where
  module : Option String
  name : String
  deriving DecidableEq, Repr

/-- The text of a name. -/
def Ref.text (r : Ref) : String :=
  match r.module with
  | none => r.name
  | some module => moduleAlias module ++ "." ++ r.name

/-! ### Types -/

/-- A type. -/
inductive Ty where
  | named (name : String)
  | array (item : Ty)
  | map (value : Ty)
  | orNull (t : Ty)
  | handle (t : Ty)
  | apply (ref : Ref) (args : List Ty)

namespace Ty

mutual

/-- The text of a type. -/
def text : Ty → String
  | named name => name
  | array item => "(" ++ text item ++ ")[]"
  | map value => "\x7b[key: string]: " ++ text value ++ "\x7d"
  | orNull t => "(" ++ text t ++ "|null)"
  | handle t => "ADL.ATypeExpr<" ++ text t ++ ">"
  | apply ref args => ref.text ++ Text.angled (texts args)

/-- The texts of types. -/
def texts : List Ty → List String
  | [] => []
  | t :: ts => text t :: texts ts

end

end Ty

/-! ### Expressions -/

/-- An expression that builds a value. -/
inductive Expr where
  | verbatim (text : String)
  | string (s : String)
  | bytes (bytes : List UInt8)
  | array (items : List Expr)
  | map (entries : List (String × Expr))
  | record (fields : List (String × Expr))
  | label (type : Ref) (name : String)
  | kind (name : String)
  | variant (name : String) (payload : Expr)

namespace Expr

mutual

/-- The text of an expression. -/
def text : Expr → String
  | verbatim text => text
  | string s => Text.quote s
  | bytes b => "new Uint8Array([" ++ Text.listed (b.map fun x => toString x.toNat) ++ "])"
  | array items => "[" ++ Text.listed (texts items) ++ "]"
  | map entries => "\x7b" ++ Text.listed (entryTexts entries) ++ "\x7d"
  | record fields => "\x7b" ++ Text.listed (fieldTexts fields) ++ "\x7d"
  | label type name => type.text ++ "." ++ name
  | kind name => "\x7bkind: " ++ Text.quote name ++ "\x7d"
  | variant name payload =>
    "\x7bkind: " ++ Text.quote name ++ ", value: " ++ text payload ++ "\x7d"

/-- The texts of expressions. -/
def texts : List Expr → List String
  | [] => []
  | e :: es => text e :: texts es

/-- The texts of the entries of a map, whose keys are quoted. -/
def entryTexts : List (String × Expr) → List String
  | [] => []
  | (name, e) :: entries => (Text.quote name ++ ": " ++ text e) :: entryTexts entries

/-- The texts of the fields of a record, whose keys are quoted where they need to be. -/
def fieldTexts : List (String × Expr) → List String
  | [] => []
  | (name, e) :: fields => (key name ++ ": " ++ text e) :: fieldTexts fields

end

end Expr

/-! ### Items -/

/-- A field of a record under its serialized name. -/
structure Field where
  doc : Option String
  name : String
  type : Ty
  default : Option Expr

/-- A record with a function that completes it by the defaults of its fields. -/
structure Record where
  doc : Option String
  name : String
  params : List String
  fields : List Field

/-- A variant of a sum: the name of its interface, its serialized name, the type of its value, and
whether it carries one. -/
structure Variant where
  doc : Option String
  name : String
  tag : String
  type : Ty
  carries : Bool

/-- A sum of variants with a function that builds any of them. -/
structure Sum where
  doc : Option String
  name : String
  params : List String
  variants : List Variant

/-- A label of an enumeration and its serialized name. -/
structure Label where
  doc : Option String
  name : String
  tag : String

/-- An enumeration. -/
structure Enumeration where
  doc : Option String
  name : String
  labels : List Label

/-- Another name for a type, with a function that gives its default. -/
structure Alias where
  doc : Option String
  name : String
  params : List String
  target : Ty
  default : Option Expr

/-- An item that a declaration becomes. -/
inductive Item where
  | record (r : Record)
  | sum (s : Sum)
  | enumeration (e : Enumeration)
  | alias (a : Alias)

/-! ### Texts of items -/

namespace Record

/-- The lines of a field of the interface. -/
def fieldLines (f : Field) : List String :=
  docLines "  " f.doc ++ ["  " ++ key f.name ++ ": " ++ f.type.text ++ ";"]

/-- The line of a field of the argument of the completing function. -/
def inputLine (f : Field) : String :=
  "    " ++ key f.name ++ (if f.default.isSome then "?" else "") ++ ": " ++ f.type.text ++ ","

/-- The line that completes a field. -/
def initLine (f : Field) : String :=
  let given := access "input" f.name
  match f.default with
  | some e =>
    "    " ++ key f.name ++ ": " ++ given ++ " === undefined ? " ++ e.text ++ " : " ++ given ++ ","
  | none => "    " ++ key f.name ++ ": " ++ given ++ ","

/-- The lines of a record. -/
def lines (r : Record) : List String :=
  let self := r.name ++ Text.angled r.params
  docLines "" r.doc ++ ["export interface " ++ self ++ " \x7b"] ++ r.fields.flatMap fieldLines ++
    ["\x7d", "", "export function make" ++ self ++ "(", "  input: \x7b"] ++
    r.fields.map inputLine ++ ["  \x7d", "): " ++ self ++ " \x7b", "  return \x7b"] ++
    r.fields.map initLine ++ ["  \x7d;", "\x7d"]

end Record

namespace Sum

/-- The type of a variant: only one that carries a value has type parameters. -/
def variantType (s : Sum) (v : Variant) : String :=
  if v.carries then v.name ++ Text.angled s.params else v.name

/-- The lines of the interface of a variant. -/
def variantLines (s : Sum) (v : Variant) : List String :=
  docLines "" v.doc ++
    ["export interface " ++ s.variantType v ++ " \x7b", "  kind: " ++ Text.quote v.tag ++ ";"] ++
    (if v.carries then ["  value: " ++ v.type.text ++ ";"] else []) ++ ["\x7d"]

/-- A name that is no type parameter: `base` with underscores at its end. -/
def freshName (params : List String) : Nat → String → String
  | 0, base => base
  | fuel + 1, base => if base ∈ params then freshName params fuel (base ++ "_") else base

/-- The type parameter that stands for a serialized name. -/
def keyParam (s : Sum) : String := freshName s.params s.params.length "K"

/-- The lines of a sum. -/
def lines (s : Sum) : List String :=
  let self := s.name ++ Text.angled s.params
  let options := s.name ++ "Opts" ++ Text.angled s.params
  let cases := s.variants.map s.variantType
  let k := s.keyParam
  s.variants.flatMap s.variantLines ++ [""] ++ docLines "" s.doc ++
    ["export type " ++ self ++ " = " ++
        (if cases.isEmpty then "never" else " | ".intercalate cases) ++ ";",
      "", "export interface " ++ options ++ " \x7b"] ++
    s.variants.map (fun v => "  " ++ key v.tag ++ ": " ++ v.type.text ++ ";") ++
    ["\x7d", "",
      "export function make" ++ s.name ++ "<" ++
        Text.listed (s.params ++ [k ++ " extends keyof " ++ options]) ++ ">(kind: " ++ k ++
        ", value: " ++ options ++ "[" ++ k ++ "]) \x7b",
      "  return \x7bkind, value\x7d;", "\x7d"]

end Sum

/-- The lines of an enumeration. -/
def Enumeration.lines (e : Enumeration) : List String :=
  docLines "" e.doc ++ ["export enum " ++ e.name ++ " \x7b"] ++
    e.labels.flatMap (fun l =>
      docLines "  " l.doc ++ ["  " ++ l.name ++ " = " ++ Text.quote l.tag ++ ","]) ++
    ["\x7d"]

/-- The lines of another name for a type. -/
def Alias.lines (a : Alias) : List String :=
  let self := a.name ++ Text.angled a.params
  docLines "" a.doc ++ ["export type " ++ self ++ " = " ++ a.target.text ++ ";"] ++
    match a.default with
    | none => []
    | some e =>
      ["", "export function make" ++ self ++ "(): " ++ self ++ " \x7b",
        "  return " ++ e.text ++ ";", "\x7d"]

/-- The lines of an item. -/
def Item.lines : Item → List String
  | .record r => r.lines
  | .sum s => s.lines
  | .enumeration e => e.lines
  | .alias a => a.lines

end Adl.TypeScript
