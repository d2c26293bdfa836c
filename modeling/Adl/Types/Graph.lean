import Adl.Types.Instantiate

/-!
# Graph — bodies of declarations on demand

A `Graph` is a module set with a way to get at instantiated bodies.  The plain graph computes each
body anew.  The memoized one keeps every body that it has computed, so a body is computed once for
each declaration and list of arguments, and a failure is not kept.
-/

namespace Adl

/-- A module set whose instantiated bodies are had by an action. -/
structure Graph (m : Type → Type) where
  set : ModuleSet
  members : DeclId → List TypeExpr → Location → ExceptT TypeError m Members

/-- The graph that computes bodies. -/
def Graph.plain (set : ModuleSet) : Graph Id := ⟨set, fun id args location =>
  ExceptT.mk (pure (set.members id args location))⟩

/-- What a body depends on. -/
abbrev Instance := DeclId × List TypeExpr

/-- The bodies that have been computed. -/
structure Memo where
  bodies : List (Instance × Members)

namespace Memo

/-- Nothing has been computed. -/
def empty : Memo := ⟨[]⟩

/-- The number of bodies that have been computed. -/
def size (memo : Memo) : Nat := memo.bodies.length

/-- The body of a declaration, from the memo if it is there. -/
def members (set : ModuleSet) (id : DeclId) (args : List TypeExpr) (location : Location) :
    ExceptT TypeError (StateM Memo) Members := do
  match (← getThe Memo).bodies.lookup (id, args) with
  | some body => return body
  | none =>
    let body ← ExceptT.mk (pure (set.members id args location))
    modifyThe Memo fun memo => ⟨((id, args), body) :: memo.bodies⟩
    return body

end Memo

/-- The graph that remembers bodies. -/
def Graph.memoized (set : ModuleSet) : Graph (StateM Memo) := ⟨set, Memo.members set⟩

end Adl
