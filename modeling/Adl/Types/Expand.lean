import Adl.Types.Graph

/-!
# Expand — aliases at the head of a type

`Graph.expand` replaces an alias at the head of a type by its body until the head is something
else.  An alias applied to arguments it was already applied to never ends, and neither does a
chain of more than `maxAliasDepth` aliases, as far as the schema is concerned.
-/

namespace Adl

/-- How many aliases may follow each other. -/
def maxAliasDepth : Nat := 64

namespace Graph

variable {m : Type → Type} [Monad m] (g : Graph m)

/-- Expands at most `fuel` aliases that are not among the ones seen. -/
def expandFrom (location : Location) :
    Nat → List Instance → TypeExpr → ExceptT TypeError m TypeExpr
  | fuel, seen, t =>
    match t.head with
    | .decl id =>
      if g.set.isAlias id then
        match fuel with
        | 0 => throw (.infiniteAlias location (g.set.scopedName id).text)
        | fuel + 1 =>
          if (id, t.args) ∈ seen then
            throw (.infiniteAlias location (g.set.scopedName id).text)
          else do
            match (← g.members id t.args location).target? with
            | some body => expandFrom location fuel ((id, t.args) :: seen) body
            | none => return t
      else return t
    | _ => return t

/-- The type with no alias at its head. -/
def expand (t : TypeExpr) (location : Location) : ExceptT TypeError m TypeExpr :=
  g.expandFrom location maxAliasDepth [] t

end Graph

end Adl
