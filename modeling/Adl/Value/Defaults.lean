import Adl.Types.Check
import Adl.Value.Normalize

/-!
# Defaults — the declared defaults of declarations

The defaults of a declaration are checked once, with its type parameters standing for themselves.
The declarations of a set are checked independently of each other, and each module reports its
first error.
-/

namespace Adl

/-- The values of the declared defaults of a declaration: one entry for each member, `none` where
it has no default, and the default of a newtype. -/
structure Defaults where
  fields : List (Option Value)
  newtype : Option Value

namespace Defaults

/-- No defaults. -/
def empty : Defaults := ⟨[], none⟩

/-- The default of the member at a place, if it has one. -/
def member? (d : Defaults) (index : Nat) : Option Value := (d.fields[index]?).join

/-- All defaults. -/
def values (d : Defaults) : List Value := d.fields.filterMap id ++ d.newtype.toList

end Defaults

namespace Graph

variable {m : Type → Type} [Monad m] (g : Graph m)

/-- The value of a literal at a type of a declaration, whose parameters stand for themselves. -/
def ownValue (d : Decl) (location : Location) (t : TypeExpr) (l : Literal) :
    ExceptT Error m Value := do
  let own := d.typeParams.map fun p => (p, TypeExpr.param p)
  match g.set.instantiate own location t with
  | .ok t => g.normalize l t location
  | .error e => throw (.type e)

/-- The value of the declared default of a field, if it has one. -/
def fieldDefault (d : Decl) (field : Member) : ExceptT Error m (Option Value) :=
  match field.default with
  | some l => some <$> g.ownValue d (d.location.within field.name) field.type l
  | none => return none

/-- The declared defaults of a declaration. -/
def defaults (id : DeclId) : ExceptT Error m Defaults :=
  let d := g.set.decl id
  match d.body with
  | .struct fields => return ⟨← fields.mapM (g.fieldDefault d), none⟩
  | .union ms => return ⟨ms.map fun _ => none, none⟩
  | .enum ms => return ⟨ms.map fun _ => none, none⟩
  | .newtype t (some l) => return ⟨[], some (.newtype id (← g.ownValue d d.location t l))⟩
  | .newtype _ none => return .empty
  | .alias _ => return .empty

/-- The declared defaults of all declarations, or the first error of each module. -/
def allDefaults : ExceptT (List Error) m (List Defaults) := do
  let results ← g.set.decls.mapM fun d =>
    show ExceptT (List Error) m (String × Except Error Defaults) from
      ExceptT.lift ((fun r => (d.module, r)) <$> (g.defaults d.id).run)
  let errors := results.filterMap fun
    | (_, .ok _) => none
    | (module, .error e) => some (module, e)
  match firstPerModule errors with
  | [] =>
    return results.filterMap fun
      | (_, .ok defaults) => some defaults
      | (_, .error _) => none
  | errors => throw errors

end Graph

end Adl
