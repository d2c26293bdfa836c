import Adl.Base64
import Adl.Source.Parser

/-!
# Error — everything that can be wrong with a schema

Errors are causes; `Error.message` is the one place that words them.  An error of meaning is found
at a `Location`, an error of form at a position of a text.
-/

namespace Adl

/-! ### Locations -/

/-- A module, a declaration of it, or a member of that. -/
structure Location where
  module : String
  decl : Option String
  member : Option String
  deriving DecidableEq, Repr

namespace Location

/-- The location of a module. -/
def ofModule (module : String) : Location := ⟨module, none, none⟩

/-- The location of a declaration. -/
def ofDecl (module decl : String) : Location := ⟨module, some decl, none⟩

/-- The location of a member. -/
def ofMember (module decl member : String) : Location := ⟨module, some decl, some member⟩

/-- The same declaration, at one of its members. -/
def within (l : Location) (member : String) : Location := { l with member := some member }

/-- The text of a location. -/
def text (l : Location) : String :=
  l.module ++ (match l.decl with | some d => "." ++ d | none => "") ++
    (match l.member with | some m => "::" ++ m | none => "")

end Location

/-! ### Faults of types and defaults -/

/-- What can be wrong with a resolved type. -/
inductive TypeError where
  | unbound (location : Location) (param : String)
  | arity (location : Location) (name : String) (expected found : Nat)
  | infiniteAlias (location : Location) (name : String)
  deriving DecidableEq, Repr

/-- The wording of an unknown name. -/
def unknownText (location : Location) (name : String) : String :=
  location.text ++ ": unknown reference \"" ++ name ++ "\""

/-- The wording of an error of types. -/
def TypeError.message : TypeError → String
  | unbound location param => unknownText location param
  | arity location name expected found =>
    location.text ++ ": \"" ++ name ++ "\" expects " ++ toString expected ++
      " type argument(s) but was given " ++ toString found
  | infiniteAlias location name =>
    location.text ++ ": infinite expansion of type alias \"" ++ name ++ "\""

/-- Why a literal is no value of a type. -/
inductive DefaultFault where
  | endless
  | unending
  | illTyped (e : TypeError)
  | typeParam (name : String)
  | unexpandedAlias (name : String)
  | mismatch (expected found : String)
  | outOfRange (i : Int) (type : String)
  | beyondSingle (d : Double)
  | base64 (e : Base64.Fault)
  | missingArgument (type : String)
  | duplicateKey (key : String)
  | unknownField (name struct : String)
  | duplicateField (name : String)
  | missingField (name : String)
  | severalKeys
  | unknownAlternative (name union : String)
  | missingPayload (name : String)
  | unknownLabel (name enum : String)
  | missingTarget
  | repeated (what : String) (value : Json) (name : String)

/-- The wording of a fault. -/
def DefaultFault.message : DefaultFault → String
  | endless => "default values expand without end"
  | unending => "the type stands for itself"
  | illTyped e => e.message
  | typeParam name => "type parameter \"" ++ name ++ "\" cannot have a default value"
  | unexpandedAlias name => "type alias \"" ++ name ++ "\" could not be expanded"
  | mismatch expected found => "expected " ++ expected ++ ", found " ++ found
  | outOfRange i type => toString i ++ " is out of range for " ++ type
  | beyondSingle d => Layout.plain.text d ++ " is out of range for Float"
  | base64 e => "invalid base64 string: " ++ e.message
  | missingArgument type => type ++ " requires a type argument"
  | duplicateKey key => "duplicate key \"" ++ key ++ "\""
  | unknownField name struct =>
    "unknown field \"" ++ name ++ "\" for struct \"" ++ struct ++ "\""
  | duplicateField name => "duplicate field \"" ++ name ++ "\""
  | missingField name => "missing required field \"" ++ name ++ "\""
  | severalKeys => "a union value must have exactly one key"
  | unknownAlternative name union =>
    "unknown alternative \"" ++ name ++ "\" for union \"" ++ union ++ "\""
  | missingPayload name => "alternative \"" ++ name ++ "\" requires a value"
  | unknownLabel name enum => "unknown label \"" ++ name ++ "\" for enum \"" ++ enum ++ "\""
  | missingTarget => "newtype without a target"
  | repeated what value name => "duplicate " ++ what ++ " " ++ value.compact ++ " in " ++ name

/-! ### Files -/

/-- Why a file cannot be read or written. -/
inductive FileFault where
  | notFound
  | notDirectory
  | isDirectory
  | alreadyExists
  | nameTooLong
  | nulInName
  | notText
  | other (text : String)
  deriving DecidableEq, Repr

/-- The wording of a fault. -/
def FileFault.message : FileFault → String
  | notFound => "No such file or directory (os error 2)"
  | notDirectory => "Not a directory (os error 20)"
  | isDirectory => "Is a directory (os error 21)"
  | alreadyExists => "File exists (os error 17)"
  | nameTooLong => "File name too long (os error 36)"
  | nulInName => "file name contained an unexpected NUL byte"
  | notText => "stream did not contain valid UTF-8"
  | other text => text

/-! ### Configurations -/

/-- What is wrong with a configuration. -/
inductive ConfigFault where
  | malformed (path : String)
  | noTargets
  | noSearchPath
  deriving DecidableEq, Repr

/-- The wording of a fault. -/
def ConfigFault.message : ConfigFault → String
  | malformed path => path ++ ": not a configuration"
  | noTargets => "no targets configured"
  | noSearchPath => "search path is empty"

/-! ### Errors -/

/-- Why a text is no sequence of tokens or no module. -/
inductive FormFault where
  | scan (text : String)
  | parse (fault : Source.ParseFault)
  deriving DecidableEq, Repr

/-- The wording of a fault. -/
def FormFault.message : FormFault → String
  | scan text => "Syntax error: " ++ Text.quote text
  | parse fault => fault.message

/-- An error, or several. -/
inductive Error where
  | file (fault : FileFault)
  | form (label : String) (position : Position) (fault : FormFault)
  | unknownReference (location : Location) (name : String)
  | ambiguousReference (location : Location) (name : String) (candidates : List String)
  | cyclicImport (cycle : List String)
  | type (e : TypeError)
  | default (location : Location) (path : List String) (fault : DefaultFault)
  | duplicateDecl (location : Location) (name : String)
  | duplicateMember (location : Location) (name : String)
  | duplicateModule (name : String)
  | moduleNotFound (name : String)
  | unknownTarget (name : String)
  | config (fault : ConfigFault)
  | several (errors : List Error)

namespace Error

mutual

/-- The wording of an error. -/
def message : Error → String
  | file fault => "I/O error: " ++ fault.message
  | form label position fault =>
    "Parse error in " ++ label ++ " at line " ++ toString position.line ++ ", column " ++
      toString position.column ++ ": " ++ fault.message
  | unknownReference location name => unknownText location name
  | ambiguousReference location name candidates =>
    location.text ++ ": ambiguous reference \"" ++ name ++ "\" (candidates: " ++
      ", ".intercalate candidates ++ ")"
  | cyclicImport cycle => "Cyclic module import: " ++ " -> ".intercalate cycle
  | type e => e.message
  | default location path fault =>
    location.text ++ ": invalid default value" ++
      (if (".".intercalate path).isEmpty then "" else " at " ++ ".".intercalate path) ++
      ": " ++ fault.message
  | duplicateDecl location name =>
    location.text ++ ": declaration \"" ++ name ++ "\" is defined twice"
  | duplicateMember location name => location.text ++ ": \"" ++ name ++ "\" is defined twice"
  | duplicateModule name => "Module \"" ++ name ++ "\" is defined twice"
  | moduleNotFound name => "Module \"" ++ name ++ "\" not found on the search path"
  | unknownTarget name => "Unknown target language \"" ++ name ++ "\""
  | config fault => "Configuration error: " ++ fault.message
  | several errors =>
    toString errors.length ++ " error(s):\n" ++ "\n".intercalate (messages errors)

/-- The lines of a list of errors. -/
def messages : List Error → List String
  | [] => []
  | e :: es => ("  " ++ message e) :: messages es

end

mutual

/-- The single errors that an error consists of. -/
def flatten : Error → List Error
  | several errors => flattenAll errors
  | e => [e]

/-- The single errors of a list of errors. -/
def flattenAll : List Error → List Error
  | [] => []
  | e :: es => flatten e ++ flattenAll es

end

/-- One error for a list of them: a single one stands for itself. -/
def ofList : List Error → Error
  | [e] => e
  | errors => .several errors

end Error

/-! ### Sources -/

/-- Reads the module written by a text; `label` names the text in errors. -/
def Source.ofText (label text : String) : Except Error Source.Module :=
  match Token.scan text with
  | .error e => .error (.form label e.position (.scan e.text))
  | .ok tokens =>
    match Source.parse tokens.list with
    | .error e =>
      .error (.form label ((e.token.map Token.position).getD tokens.stop) (.parse e.fault))
    | .ok m => .ok m

end Adl
