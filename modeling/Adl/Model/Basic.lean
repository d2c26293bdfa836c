import Adl.Error
import Adl.Model.Primitive

/-!
# Model — schemas with all names looked up

A `ModuleSet` is a closed set of modules.  Its declarations stand in one list, and types refer to
them by their place in it, so declarations may refer to each other in any order.
-/

namespace Adl

/-! ### Types -/

/-- The place of a declaration in its module set. -/
abbrev DeclId := Nat

/-- What a type applies: a primitive type, a parameter of the enclosing declaration, or a
declaration. -/
inductive TypeRef where
  | primitive (p : Primitive)
  | typeParam (name : String)
  | decl (id : DeclId)
  deriving DecidableEq, Repr

/-- A type: a head applied to arguments. -/
inductive TypeExpr where
  | mk (head : TypeRef) (args : List TypeExpr)

namespace TypeExpr

/-- The head of a type. -/
def head : TypeExpr → TypeRef
  | mk head _ => head

/-- The arguments of a type. -/
def args : TypeExpr → List TypeExpr
  | mk _ args => args

/-- A type parameter as a type. -/
def param (name : String) : TypeExpr := mk (.typeParam name) []

instance : Inhabited TypeExpr := ⟨mk (.primitive .void) []⟩

mutual

/-- Decides the equality of types. -/
def decEq : (s t : TypeExpr) → Decidable (s = t)
  | mk h as, mk h' as' =>
    if hh : h = h' then
      match decEqList as as' with
      | isTrue ha => isTrue (by rw [hh, ha])
      | isFalse ha => isFalse (by intro e; cases e; exact ha rfl)
    else isFalse (by intro e; cases e; exact hh rfl)

/-- Decides the equality of lists of types. -/
def decEqList : (ss ts : List TypeExpr) → Decidable (ss = ts)
  | [], [] => isTrue rfl
  | [], _ :: _ => isFalse (by simp)
  | _ :: _, [] => isFalse (by simp)
  | s :: ss, t :: ts =>
    match decEq s t, decEqList ss ts with
    | isTrue h, isTrue hs => isTrue (by rw [h, hs])
    | isFalse h, _ => isFalse (by intro e; cases e; exact h rfl)
    | _, isFalse hs => isFalse (by intro e; cases e; exact hs rfl)

end

instance : DecidableEq TypeExpr := decEq

end TypeExpr

/-! ### Declarations -/

/-- Annotations: literals under scoped names, in increasing order of names. -/
abbrev Annotations := List (ScopedName × Literal)

/-- A field of a struct, an alternative of a union, or a label of an enum. -/
structure Member where
  name : String
  serializedName : String
  type : TypeExpr
  default : Option Literal
  annotations : Annotations

instance : Inhabited Member := ⟨⟨"", "", default, none, []⟩⟩

/-- The body of a declaration. -/
inductive Body where
  | struct (members : List Member)
  | union (members : List Member)
  | enum (members : List Member)
  | alias (target : TypeExpr)
  | newtype (target : TypeExpr) (default : Option Literal)

/-- A declaration. -/
structure Decl where
  id : DeclId
  module : String
  name : String
  typeParams : List String
  annotations : Annotations
  body : Body

namespace Decl

instance : Inhabited Decl := ⟨⟨0, "", "", [], [], .struct []⟩⟩

/-- The name of a declaration. -/
def scopedName (d : Decl) : ScopedName := ⟨d.module, d.name⟩

/-- Where a declaration is. -/
def location (d : Decl) : Location := .ofDecl d.module d.name

/-- The members of a declaration, in order. -/
def members (d : Decl) : List Member :=
  match d.body with
  | .struct ms => ms
  | .union ms => ms
  | .enum ms => ms
  | .alias _ => []
  | .newtype _ _ => []

/-- The types in the body of a declaration: those of its members, or its target. -/
def types (d : Decl) : List TypeExpr :=
  match d.body with
  | .alias t => [t]
  | .newtype t _ => [t]
  | _ => d.members.map Member.type

/-- The member at a place. -/
def member (d : Decl) (index : Nat) : Member := d.members[index]?.getD default

/-- Whether the declaration is another name for a type. -/
def isAlias (d : Decl) : Bool :=
  match d.body with
  | .alias _ => true
  | _ => false

end Decl

/-! ### Modules -/

/-- A module: its imports and its declarations by place. -/
structure Module where
  name : String
  imports : List String
  decls : List DeclId
  annotations : Annotations

/-- A closed set of modules with a table of the declared names. -/
structure ModuleSet where
  modules : List Module
  decls : List Decl
  names : List (ScopedName × DeclId)

namespace ModuleSet

/-- The module of a name. -/
def module? (set : ModuleSet) (name : String) : Option Module :=
  set.modules.find? (·.name = name)

/-- The declaration at a place. -/
def decl (set : ModuleSet) (id : DeclId) : Decl := set.decls[id]?.getD default

/-- The place of the declaration of a name. -/
def lookup (set : ModuleSet) (name : ScopedName) : Option DeclId := set.names.lookup name

/-- The name of the declaration at a place. -/
def scopedName (set : ModuleSet) (id : DeclId) : ScopedName := (set.decl id).scopedName

/-- Whether the declaration at a place is another name for a type. -/
def isAlias (set : ModuleSet) (id : DeclId) : Bool := (set.decl id).isAlias

/-- The name of the head of a type. -/
def headName (set : ModuleSet) : TypeRef → String
  | .primitive p => p.name
  | .typeParam name => name
  | .decl id => (set.scopedName id).text

/-- The number of arguments that the head of a type takes. -/
def arity (set : ModuleSet) : TypeRef → Nat
  | .primitive p => p.arity
  | .typeParam _ => 0
  | .decl id => (set.decl id).typeParams.length

end ModuleSet

end Adl
