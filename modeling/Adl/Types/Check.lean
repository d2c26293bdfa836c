import Adl.Types.Expand

/-!
# Check — well-formed bodies

A body is well formed if every part of it has the number of arguments that its head takes, and no
alias mentioned in it mentions itself, in its own body or through further aliases.  Recursion
through a struct, a union or a newtype is no fault: these are not expanded.
-/

namespace Adl.ModuleSet

variable (set : ModuleSet)

mutual

/-- Checks a type; `enter` checks the body of an alias. -/
def checkType (location : Location) (enter : DeclId → Except TypeError Unit) :
    TypeExpr → Except TypeError Unit
  | .mk head args => do
    set.checkArity head args.length location
    checkTypes location enter args
    match head with
    | .decl id => if set.isAlias id then enter id else return
    | _ => return

/-- Checks a list of types. -/
def checkTypes (location : Location) (enter : DeclId → Except TypeError Unit) :
    List TypeExpr → Except TypeError Unit
  | [] => return
  | t :: ts => do
    checkType location enter t
    checkTypes location enter ts

end

/-- Checks the body of an alias inside the bodies of other aliases, of which there may be `fuel`
more. -/
def checkAlias (location : Location) :
    Nat → List DeclId → DeclId → Except TypeError Unit
  | 0, _, id => throw (.infiniteAlias location (set.scopedName id).text)
  | fuel + 1, outer, id =>
    if id ∈ outer then throw (.infiniteAlias location (set.scopedName id).text)
    else
      match (set.decl id).body with
      | .alias body => set.checkType location (checkAlias location fuel (id :: outer)) body
      | _ => return

/-- Checks a type with all the aliases that it mentions. -/
def checkWritten (location : Location) (t : TypeExpr) : Except TypeError Unit :=
  set.checkType location (set.checkAlias location maxAliasDepth []) t

/-- Checks the types of members. -/
def checkMembers (location : Location) (ms : List Member) : Except TypeError Unit :=
  ms.forM fun m => set.checkWritten (location.within m.name) m.type

/-- Checks the body of a declaration. -/
def checkDecl (id : DeclId) : Except TypeError Unit :=
  let d := set.decl id
  match d.body with
  | .struct ms => set.checkMembers d.location ms
  | .union ms => set.checkMembers d.location ms
  | .enum ms => set.checkMembers d.location ms
  | .alias _ => set.checkWritten d.location (.mk (.decl id) (d.typeParams.map .param))
  | .newtype target _ => set.checkWritten d.location target

end Adl.ModuleSet

namespace Adl

/-- The first error of each module, in the order in which they occur. -/
def firstPerModule (errors : List (String × Error)) : List Error :=
  go [] errors
where
  /-- The same, for the modules that have not failed yet. -/
  go (failed : List String) : List (String × Error) → List Error
    | [] => []
    | (module, e) :: rest =>
      if module ∈ failed then go failed rest else e :: go (module :: failed) rest

/-- Checks the bodies of all declarations. -/
def ModuleSet.checkAll (set : ModuleSet) : Except (List Error) Unit :=
  let errors := set.decls.filterMap fun d =>
    match set.checkDecl d.id with
    | .ok _ => none
    | .error e => some (d.module, Error.type e)
  match firstPerModule errors with
  | [] => .ok ()
  | errors => .error errors

end Adl
