import Adl.Model.Basic

/-!
# Instantiate — types and bodies with arguments for their parameters

`instantiate` substitutes types for parameters, all at once, and checks that every part of the
type has as many arguments as its head takes.  `ModuleSet.members` is the body of a declaration
with arguments for its parameters.
-/

namespace Adl

/-- Types for the names of parameters. -/
abbrev Bindings := List (String × TypeExpr)

/-- The types in the body of a declaration: those of its members, or its target. -/
inductive Members where
  | fields (types : List TypeExpr)
  | target (type : TypeExpr)
  deriving DecidableEq

namespace Members

/-- The types of the members. -/
def toFields : Members → List TypeExpr
  | fields types => types
  | target _ => []

/-- The target. -/
def target? : Members → Option TypeExpr
  | fields _ => none
  | target type => some type

end Members

namespace ModuleSet

variable (set : ModuleSet)

/-- Rejects a head with the wrong number of arguments. -/
def checkArity (head : TypeRef) (found : Nat) (location : Location) : Except TypeError Unit :=
  if set.arity head = found then .ok ()
  else .error (.arity location (set.headName head) (set.arity head) found)

mutual

/-- A type with the bound types in place of its parameters. -/
def instantiate (bindings : Bindings) (location : Location) : TypeExpr → Except TypeError TypeExpr
  | .mk head args => do
    set.checkArity head args.length location
    match head with
    | .typeParam name =>
      match bindings.lookup name with
      | some type => return type
      | none => throw (.unbound location name)
    | _ => return .mk head (← instantiateAll bindings location args)

/-- Types with the bound types in place of their parameters. -/
def instantiateAll (bindings : Bindings) (location : Location) :
    List TypeExpr → Except TypeError (List TypeExpr)
  | [] => return []
  | t :: ts => do
    let first ← instantiate bindings location t
    return first :: (← instantiateAll bindings location ts)

end

/-- Arguments for the parameters of a declaration. -/
def bind (id : DeclId) (args : List TypeExpr) (location : Location) :
    Except TypeError Bindings := do
  set.checkArity (.decl id) args.length location
  return (set.decl id).typeParams.zip args

/-- The body of a declaration with arguments for its parameters. -/
def members (id : DeclId) (args : List TypeExpr) (location : Location) :
    Except TypeError Members := do
  let bindings ← set.bind id args location
  let fields (ms : List Member) : Except TypeError Members :=
    return .fields (← set.instantiateAll bindings location (ms.map Member.type))
  let target (t : TypeExpr) : Except TypeError Members :=
    return .target (← set.instantiate bindings location t)
  match (set.decl id).body with
  | .struct ms => fields ms
  | .union ms => fields ms
  | .enum ms => fields ms
  | .alias t => target t
  | .newtype t _ => target t

end ModuleSet

end Adl
