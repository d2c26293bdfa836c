import Adl.Model.Basic

/-!
# Containment — which declarations hold each other by value

A value of a type holds values of its head and of its arguments inside itself, except below the
containers that keep their content elsewhere.  A member whose type leads back to its own
declaration in this way needs a box, or its values would have no finite size.
-/

namespace Adl

mutual

/-- The declarations of which a value of a type holds values inside itself. -/
def TypeExpr.held : TypeExpr → List DeclId
  | .mk (.primitive .vector) _ => []
  | .mk (.primitive .stringMap) _ => []
  | .mk (.primitive .typeToken) _ => []
  | .mk (.primitive _) args => heldAll args
  | .mk (.typeParam _) args => heldAll args
  | .mk (.decl id) args => id :: heldAll args

/-- The same for a list of types. -/
def heldAll : List TypeExpr → List DeclId
  | [] => []
  | t :: ts => t.held ++ heldAll ts

end

/-- For each declaration, those that its values hold inside themselves. -/
abbrev Containment := List (List DeclId)

namespace Containment

/-- The containment between the declarations of a module set. -/
def ofSet (set : ModuleSet) : Containment := set.decls.map fun d => heldAll d.types

/-- The places that are not among the ones seen. -/
def unseen (g : Containment) (seen : List DeclId) : List DeclId :=
  (List.range g.length).filter (· ∉ seen)

theorem unseen_length_lt {g : Containment} {seen : List DeclId} {id : DeclId}
    (h : id < g.length) (hs : id ∉ seen) :
    (g.unseen (id :: seen)).length < (g.unseen seen).length := by
  have heq : g.unseen (id :: seen) = (g.unseen seen).filter (· ≠ id) := by
    simp [unseen, List.filter_filter, List.mem_cons, not_or]
  rw [heq, List.length_filter_lt_length_iff_exists]
  exact ⟨id, by simp [unseen, h, hs], by simp⟩

/-- Whether the search finds `target` from the declarations on the stack without passing through
those seen. -/
def search (g : Containment) (target : DeclId) (seen stack : List DeclId) : Bool :=
  match stack with
  | [] => false
  | id :: rest =>
    if id = target then true
    else if _hs : id ∈ seen then search g target seen rest
    else if _h : id < g.length then search g target (id :: seen) (g[id] ++ rest)
    else search g target seen rest
termination_by ((g.unseen seen).length, stack.length)
decreasing_by
  · exact Prod.Lex.right _ (by simp)
  · exact Prod.Lex.left _ _ (unseen_length_lt _h _hs)
  · exact Prod.Lex.right _ (by simp)

/-- Whether a value of `id` holds, at any depth, a value of `target`, or is one itself. -/
def reaches (g : Containment) (id target : DeclId) : Bool := g.search target [] [id]

/-- Whether a member of `owner` of the given type needs a box. -/
def needsBox (g : Containment) (t : TypeExpr) (owner : DeclId) : Bool :=
  t.held.any (g.reaches · owner)

end Containment

end Adl
