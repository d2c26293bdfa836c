import Adl.Name
import Adl.Target.RustText

/-!
# RustItem — types, expressions and items of generated Rust

The parts of a generated unit as trees, and their texts.  An item has documentation, the attributes
that name its serialized form, and the defaults of its fields as expressions.
-/

namespace Adl.Rust

/-! ### Types -/

/-- A type: the unit type, a marker of type parameters, or a path applied to types. -/
inductive Ty where
  | unit
  | marker (params : List String)
  | apply (path : String) (args : List Ty)

namespace Ty

instance : Inhabited Ty := ⟨.unit⟩

/-- The path of the type whose values carry no data but mention a type. -/
def markerPath : String := "std::marker::PhantomData"

mutual

/-- The text of a type. -/
def text : Ty → String
  | unit => "()"
  | marker params => markerPath ++ "<(" ++ Text.listed params ++ ",)>"
  | apply path args => path ++ Text.angled (texts args)

/-- The texts of types. -/
def texts : List Ty → List String
  | [] => []
  | t :: ts => text t :: texts ts

end

/-- A type whose values are kept elsewhere. -/
def boxed (t : Ty) : Ty := apply "Box" [t]

end Ty

/-! ### Expressions -/

/-- An expression that builds a value. -/
inductive Expr where
  | unit
  | verbatim (text : String)
  | string (s : String)
  | bytes (path : String) (bytes : List UInt8)
  | json (text : String)
  | vector (items : List Expr)
  | map (entries : List (String × Expr))
  | absent
  | present (e : Expr)
  | boxed (e : Expr)
  | record (path : String) (fields : List (String × Expr)) (marked : Bool)
  | label (path variant : String)
  | variant (path variant : String) (payload : Expr)
  | wrapped (path : String) (e : Expr) (marked : Bool)

namespace Expr

/-- The text of a string. -/
def ownedText (s : String) : String := Text.escaped s ++ ".to_string()"

/-- The field that holds a marker. -/
def markerField : String := "_phantom"

mutual

/-- The text of an expression. -/
def text : Expr → String
  | unit => "()"
  | verbatim text => text
  | string s => ownedText s
  | bytes path b => path ++ "(vec![" ++ Text.listed (b.map fun x => toString x.toNat) ++ "])"
  | json text =>
    "serde_json::from_str(" ++ Text.escaped text ++ ").unwrap_or(serde_json::Value::Null)"
  | vector items => "vec![" ++ Text.listed (texts items) ++ "]"
  | map [] => "std::collections::HashMap::new()"
  | map (entry :: entries) =>
    "[" ++ Text.listed (entryTexts (entry :: entries)) ++ "].into_iter().collect()"
  | absent => "None"
  | present e => "Some(" ++ text e ++ ")"
  | boxed e => "Box::new(" ++ text e ++ ")"
  | record path fields marked =>
    let marker := if marked then [markerField ++ ": " ++ Ty.markerPath] else []
    path ++ " \x7b " ++ Text.listed (fieldTexts fields ++ marker) ++ " \x7d"
  | label path name => path ++ "::" ++ name
  | variant path name payload => path ++ "::" ++ name ++ "(" ++ text payload ++ ")"
  | wrapped path e marked =>
    path ++ "(" ++ text e ++ (if marked then ", " ++ Ty.markerPath else "") ++ ")"

/-- The texts of expressions. -/
def texts : List Expr → List String
  | [] => []
  | e :: es => text e :: texts es

/-- The texts of the entries of a map. -/
def entryTexts : List (String × Expr) → List String
  | [] => []
  | (key, e) :: entries => ("(" ++ ownedText key ++ ", " ++ text e ++ ")") :: entryTexts entries

/-- The texts of the fields of a record. -/
def fieldTexts : List (String × Expr) → List String
  | [] => []
  | (name, e) :: fields => (name ++ ": " ++ text e) :: fieldTexts fields

end

end Expr

/-! ### Items -/

/-- A function that gives the default of a field. -/
structure DefaultFn where
  name : String
  value : Expr

/-- A field of a record. -/
structure Field where
  doc : Option String
  name : String
  rename : Option String
  type : Ty
  default : Option DefaultFn

/-- A variant of a sum. -/
structure Variant where
  doc : Option String
  name : String
  rename : String
  payload : Option Ty

/-- A record with a constructor and the defaults of its fields. -/
structure Record where
  doc : Option String
  name : String
  params : List String
  fields : List Field
  marker : List String

/-- A sum of variants; a plain one has no payloads. -/
structure Sum where
  doc : Option String
  name : String
  params : List String
  plain : Bool
  variants : List Variant
  marker : List String

/-- Another name for a type. -/
structure Alias where
  doc : Option String
  name : String
  params : List String
  target : Ty

/-- A type of its own around another type. -/
structure Newtype where
  doc : Option String
  name : String
  params : List String
  target : Ty
  marker : List String
  default : Option Expr

/-- An item that a declaration becomes. -/
inductive Item where
  | record (r : Record)
  | sum (s : Sum)
  | alias (a : Alias)
  | newtype (n : Newtype)

/-! ### Texts of items -/

/-- The type of a marker, if there is anything to mark. -/
def markerText? (params : List String) : Option String :=
  if params.isEmpty then none else some (Ty.marker params).text

/-- The attribute of types that can be copied, compared and serialized. -/
def deriveLine (plain : Bool) : String :=
  "#[derive(Debug, Clone, " ++ (if plain then "Copy, PartialEq, Eq, Hash, " else "PartialEq, ") ++
    "Serialize, Deserialize)]"

namespace Record

/-- How functions of the record are qualified. -/
def selfPath (r : Record) : String :=
  if r.params.isEmpty then r.name else r.name ++ "::" ++ Text.angled r.params

/-- The lines of a field. -/
def fieldLines (r : Record) (f : Field) : List String :=
  docLines "    " f.doc ++
    (f.rename.map fun s => "    #[serde(rename = " ++ Text.escaped s ++ ")]").toList ++
    (f.default.map fun d =>
      "    #[serde(default = \"" ++ r.selfPath ++ "::" ++ d.name ++ "\")]").toList ++
    ["    pub " ++ f.name ++ ": " ++ f.type.text ++ ","]

/-- The lines of the marker field. -/
def markerLines (r : Record) : List String :=
  match markerText? r.marker with
  | none => []
  | some marker =>
    (if r.fields.isEmpty then [] else [""]) ++
      ["    #[serde(skip)]", "    pub " ++ Expr.markerField ++ ": " ++ marker ++ ","]

/-- The parameters of the constructor: the fields without default. -/
def required (r : Record) : List String :=
  (r.fields.filter (·.default.isNone)).map fun f => f.name ++ ": " ++ f.type.text

/-- How the constructor fills a field. -/
def initLine (r : Record) (f : Field) : String :=
  match f.default with
  | some d => "            " ++ f.name ++ ": " ++ r.selfPath ++ "::" ++ d.name ++ "(),"
  | none => "            " ++ f.name ++ ","

/-- The lines of the function that gives the default of a field. -/
def defaultLines (f : Field) : List String :=
  match f.default with
  | none => []
  | some d =>
    ["", "    pub fn " ++ d.name ++ "() -> " ++ f.type.text ++ " \x7b",
      "        " ++ d.value.text, "    \x7d"]

/-- The lines of a record. -/
def lines (r : Record) : List String :=
  docLines "" r.doc ++
    [deriveLine false, "pub struct " ++ r.name ++ Text.angled r.params ++ " \x7b"] ++
    [""].intercalate (r.fields.map r.fieldLines) ++ r.markerLines ++
    ["\x7d", "",
      "impl" ++ Text.angled r.params ++ " " ++ r.name ++ Text.angled r.params ++ " \x7b",
      "    pub fn new(" ++ Text.listed r.required ++ ") -> Self \x7b",
      "        " ++ r.name ++ " \x7b"] ++
    r.fields.map r.initLine ++
    (if r.marker.isEmpty then []
      else ["            " ++ Expr.markerField ++ ": " ++ Ty.markerPath ++ ","]) ++
    ["        \x7d", "    \x7d"] ++ r.fields.flatMap defaultLines ++ ["\x7d"]

end Record

namespace Sum

/-- The lines of a variant. -/
def variantLines (v : Variant) : List String :=
  docLines "    " v.doc ++
    ["    #[serde(rename = " ++ Text.escaped v.rename ++ ")]",
      match v.payload with
      | none => "    " ++ v.name ++ ","
      | some t => "    " ++ v.name ++ "(" ++ t.text ++ "),"]

/-- The lines of a sum. -/
def lines (s : Sum) : List String :=
  docLines "" s.doc ++
    [deriveLine s.plain, "pub enum " ++ s.name ++ Text.angled s.params ++ " \x7b"] ++
    s.variants.flatMap variantLines ++
    (match markerText? s.marker with
      | none => []
      | some marker => ["    #[serde(skip)]", "    _Phantom(" ++ marker ++ "),"]) ++
    ["\x7d"]

end Sum

/-- The lines of another name for a type. -/
def Alias.lines (a : Alias) : List String :=
  docLines "" a.doc ++
    ["pub type " ++ a.name ++ Text.angled a.params ++ " = " ++ a.target.text ++ ";"]

namespace Newtype

/-- The lines of the definition of a type around another type. -/
def structLines (n : Newtype) : List String :=
  let head := "pub struct " ++ n.name ++ Text.angled n.params ++ "(pub " ++ n.target.text
  match markerText? n.marker with
  | some marker => ["#[serde(transparent)]", head ++ ", #[serde(skip)] pub " ++ marker ++ ");"]
  | none => [head ++ ");"]

/-- The lines of a type around another type. -/
def lines (n : Newtype) : List String :=
  let params := Text.angled n.params
  docLines "" n.doc ++ [deriveLine false] ++ n.structLines ++
    match n.default with
    | none => []
    | some e =>
      ["", "impl" ++ params ++ " Default for " ++ n.name ++ params ++ " \x7b",
        "    fn default() -> Self \x7b", "        " ++ e.text, "    \x7d", "\x7d"]

end Newtype

/-- The lines of an item. -/
def Item.lines : Item → List String
  | .record r => r.lines
  | .sum s => s.lines
  | .alias a => a.lines
  | .newtype n => n.lines

end Adl.Rust
