import Adl.Prelude
import Adl.Types.Expand
import Adl.Value.Basic

/-!
# Normalize — the value that a literal denotes at a type

`Graph.normalize` reads a literal at a type.  A struct literal is completed by the declared
defaults of the fields it leaves out, and these may again leave fields out; at most
`maxDefaultDepth` declared defaults may be nested.

The recursion ends because the number of declared defaults that may still be nested, the literal,
and the chain of types at one literal get smaller, in this order.  A chain consists of newtypes
and `Nullable`, which are read at the same literal as the type they wrap; `chainBound` is more
than any chain of types that ends.  Where a chain does not end there is no value and no failure
either: this is the fault `unending`, which nothing catches.
-/

namespace Adl

/-- How deeply declared defaults may be nested. -/
def maxDefaultDepth : Nat := 32

/-! ### Failures -/

/-- A fault, and the way to the part of the literal where it was found. -/
structure Failure where
  path : List String
  fault : DefaultFault

namespace Failure

/-- A fault of the literal itself. -/
def here (fault : DefaultFault) : Failure := ⟨[], fault⟩

/-- The same failure, seen from outside the part called `segment`. -/
def within (segment : String) (f : Failure) : Failure := { f with path := segment :: f.path }

/-- The failure of an alternative that is named without a payload, if null is none. -/
def missingPayload (name : String) (f : Failure) : Failure :=
  match f.fault with
  | .unending => f
  | _ => here (.missingPayload name)

end Failure

/-- What a literal is, in words. -/
def Literal.describe : Literal → String
  | null => "null"
  | integer _ => "an integer"
  | double _ => "a number"
  | string _ => "a string"
  | boolean _ => "a boolean"
  | array _ => "an array"
  | object _ => "an object"

/-! ### Measures -/

namespace Literal

mutual

/-- The number of parts of a literal; the null literal has none. -/
def weight : Literal → Nat
  | array items => weightItems items + 1
  | object entries => weightEntries entries + 1
  | null => 0
  | _ => 1

/-- The number of parts of a list of literals. -/
def weightItems : List Literal → Nat
  | [] => 0
  | item :: items => weight item + weightItems items + 1

/-- The number of parts of a list of entries. -/
def weightEntries : List (String × Literal) → Nat
  | [] => 0
  | (_, value) :: entries => weight value + weightEntries entries + 1

end

theorem weight_lt_of_lookup {key : String} {l : Literal} :
    ∀ {entries : List (String × Literal)}, entries.lookup key = some l →
      weight l < weightEntries entries
  | [], h => by simp at h
  | (k, v) :: entries, h => by
    rw [List.lookup_cons] at h
    simp only [weightEntries]
    split at h
    · simp only [Option.some.injEq] at h
      subst h
      omega
    · have := weight_lt_of_lookup h
      omega

end Literal

mutual

/-- The number of heads in a type. -/
def TypeExpr.size : TypeExpr → Nat
  | .mk _ args => TypeExpr.sizes args + 1

/-- The number of heads in a list of types. -/
def TypeExpr.sizes : List TypeExpr → Nat
  | [] => 0
  | t :: ts => t.size + TypeExpr.sizes ts

end

namespace ModuleSet

/-- The size of the target of a declaration that stands for another type. -/
def targetSize (d : Decl) : Nat :=
  match d.body with
  | .alias t => t.size
  | .newtype t _ => t.size
  | _ => 0

/-- More than the number of newtypes and `Nullable` that can be read at one literal, if a chain of
them that starts at `t` ends at all. -/
def chainBound (set : ModuleSet) (t : TypeExpr) : Nat :=
  let largest := (set.decls.map targetSize).foldl max 0
  (t.size + 1) * Nat.pow (largest + 2) (set.decls.length + 1)

end ModuleSet

/-! ### Parts that need no recursion -/

namespace Normalize

/-- A fault because a literal is of the wrong kind. -/
def mismatch (expected : String) (found : Literal) : DefaultFault :=
  .mismatch expected found.describe

/-- The value of a literal at an integer type of the given range. -/
def integer (p : Primitive) (range : Int × Int) (l : Literal) : Except DefaultFault Value :=
  match l with
  | .integer i =>
    if range.1 ≤ i ∧ i ≤ range.2 then
      if range.1 < 0 then .ok (.int i) else .ok (.word i.toNat)
    else .error (.outOfRange i p.name)
  | _ => .error (mismatch "an integer" l)

/-- The value of a literal at a primitive type that contains no other type. -/
def scalar (p : Primitive) (l : Literal) : Except DefaultFault Value :=
  match p.range?, p, l with
  | some range, _, _ => integer p range l
  | _, .bool, .boolean b => .ok (.bool b)
  | _, .bool, _ => .error (mismatch "a boolean" l)
  | _, .float, .double d =>
    if d.overflowsSingle then .error (.beyondSingle d) else .ok (.float d)
  | _, .double, .double d => .ok (.float d)
  | _, .float, .integer i | _, .double, .integer i => .ok (.float (Double.ofInt i))
  | _, .float, _ | _, .double, _ => .error (mismatch "a number" l)
  | _, .string, .string s => .ok (.string s)
  | _, .string, _ => .error (mismatch "a string" l)
  | _, .byteVector, .string s =>
    match Base64.decode s with
    | .ok bytes => .ok (.bytes bytes)
    | .error e => .error (.base64 e)
  | _, .byteVector, _ => .error (mismatch "a base64 string" l)
  | _, .json, _ => .ok (.json l)
  | _, _, .null => .ok .void
  | _, _, _ => .error (mismatch "null" l)

/-- The place of the member of a serialized name. -/
def memberIndex? (ms : List Member) (name : String) : Option Nat :=
  ms.findIdx? (·.serializedName = name)

/-- Rejects entries that name no field, or a field that an earlier entry names. -/
def checkFields (d : Decl) : List String → List (String × Literal) → Except DefaultFault Unit
  | _, [] => .ok ()
  | seen, (key, _) :: entries =>
    if (memberIndex? d.members key).isNone then .error (.unknownField key d.scopedName.text)
    else if key ∈ seen then .error (.duplicateField key)
    else checkFields d (key :: seen) entries

/-- The place of the label that a literal names: a string, or an object of it and null. -/
def label (d : Decl) (l : Literal) : Except DefaultFault Nat :=
  let find (name : String) : Except DefaultFault Nat :=
    match memberIndex? d.members name with
    | some index => .ok index
    | none => .error (.unknownLabel name d.scopedName.text)
  match l with
  | .string name => find name
  | .object [(name, .null)] => find name
  | _ => .error (mismatch "an enum label" l)

/-- What must be distinct about an item of a vector. -/
def uniqueKey (set : ModuleSet) (rule : Prelude.Uniqueness) (item : Value) : Literal :=
  match rule, item with
  | .keys, .struct _ (first :: _) => first.toLiteral set
  | _, _ => item.toLiteral set

/-- The first literal that is the same as an earlier one. -/
def firstSame (seen : List Literal) : List Literal → Option Literal
  | [] => none
  | l :: ls => if seen.any (·.same l) then some l else firstSame (seen ++ [l]) ls

/-- Rejects a value of a newtype that repeats what must be distinct. -/
def checkUnique (set : ModuleSet) (d : Decl) (inner : Value) : Except DefaultFault Unit :=
  match Prelude.uniqueness? d.scopedName, inner with
  | some rule, .vector items =>
    match firstSame [] (items.map (uniqueKey set rule)) with
    | some key => .error (.repeated rule.noun key.toJson d.scopedName.text)
    | none => .ok ()
  | _, _ => .ok ()

end Normalize

/-! ### The recursion -/

namespace Graph

variable {m : Type → Type} [Monad m] (g : Graph m)

/-- Fails with a fault of the literal itself. -/
def fault {α : Type} (f : DefaultFault) : ExceptT Failure m α := throw (.here f)

/-- An action on types, whose errors are faults of the literal. -/
def typed {α : Type} (x : ExceptT TypeError m α) : ExceptT Failure m α :=
  x.adapt fun e => .here (.illTyped e)

/-- A check whose faults are those of the literal itself. -/
def checked {α : Type} (x : Except DefaultFault α) : ExceptT Failure m α :=
  match x with
  | .ok a => return a
  | .error f => fault f

/-- An action on the part of a literal called `segment`. -/
def within {α : Type} (segment : String) (x : ExceptT Failure m α) : ExceptT Failure m α :=
  x.adapt (.within segment)

variable (location : Location)

/-- The place and the type of the alternative of a name. -/
def alternative (id : DeclId) (args : List TypeExpr) (ms : List Member) (name : String) :
    ExceptT Failure m (Nat × TypeExpr) := do
  match Normalize.memberIndex? ms name with
  | none => fault (.unknownAlternative name (g.set.scopedName id).text)
  | some index =>
    let types := (← typed (g.members id args location)).toFields
    return (index, types[index]?.getD default)

mutual

/-- The value of a literal at a type, where less than `pulls` declared defaults may be nested and
`chain` more types may be read at this literal. -/
def value (pulls : Nat) (l : Literal) (chain : Nat) (t : TypeExpr) : ExceptT Failure m Value :=
  match pulls with
  | 0 => fault .endless
  | pulls + 1 => do
    let t ← typed (g.expand t location)
    match t.head with
    | .typeParam name => fault (.typeParam name)
    | .primitive .vector =>
      match l with
      | .array items =>
        match t.args with
        | [] => fault (.missingArgument "Vector")
        | elem :: _ => return .vector (← elements (pulls + 1) items 0 elem)
      | _ => fault (Normalize.mismatch "an array" l)
    | .primitive .stringMap =>
      match l with
      | .object entries =>
        match t.args with
        | [] => fault (.missingArgument "StringMap")
        | elem :: _ => return .stringMap (← mapEntries (pulls + 1) entries [] elem)
      | _ => fault (Normalize.mismatch "an object" l)
    | .primitive .nullable =>
      match l with
      | .null => return .absent
      | l =>
        match t.args, chain with
        | [], _ => fault (.missingArgument "Nullable")
        | _, 0 => fault .unending
        | elem :: _, chain + 1 => return .present (← value (pulls + 1) l chain elem)
    | .primitive p => checked (Normalize.scalar p l)
    | .decl id =>
      let d := g.set.decl id
      match d.body with
      | .struct ms =>
        match l with
        | .object entries => do
          let types := (← typed (g.members id t.args location)).toFields
          checked (Normalize.checkFields d [] entries)
          return .struct id (← fieldValues (pulls + 1) entries (ms.zip types))
        | _ => fault (Normalize.mismatch "an object" l)
      | .union ms =>
        match l with
        | .string name =>
          let (index, type) ← g.alternative location id t.args ms name
          let v ← within name
            ((value (pulls + 1) .null (g.set.chainBound type) type).adapt (.missingPayload name))
          return .union id index v
        | .object [(name, payload)] =>
          let (index, type) ← g.alternative location id t.args ms name
          let v ← within name (value (pulls + 1) payload (g.set.chainBound type) type)
          return .union id index v
        | .object _ => fault .severalKeys
        | _ => fault (Normalize.mismatch "a string or single-key object" l)
      | .enum _ => return .enum id (← checked (Normalize.label d l))
      | .newtype _ _ =>
        match (← typed (g.members id t.args location)).target?, chain with
        | none, _ => fault .missingTarget
        | _, 0 => fault .unending
        | some target, chain + 1 =>
          let inner ← value (pulls + 1) l chain target
          checked (Normalize.checkUnique g.set d inner)
          return .newtype id inner
      | .alias _ => fault (.unexpandedAlias d.scopedName.text)
termination_by (pulls, l.weight, chain)
decreasing_by
  · exact .right _ (.left _ _ (by simp only [Literal.weight]; omega))
  · exact .right _ (.left _ _ (by simp only [Literal.weight]; omega))
  · exact .right _ (.right _ (Nat.lt_succ_self _))
  · exact .right _ (.left _ _ (by simp only [Literal.weight]; omega))
  · exact .right _ (.left _ _ (by simp only [Literal.weight]; omega))
  · exact .right _ (.left _ _ (by simp only [Literal.weight, Literal.weightEntries]; omega))
  · exact .right _ (.right _ (Nat.lt_succ_self _))

/-- The values of the items of an array, the first of which has the given place. -/
def elements (pulls : Nat) (items : List Literal) (index : Nat) (elem : TypeExpr) :
    ExceptT Failure m (List Value) :=
  match items with
  | [] => return []
  | item :: items => do
    let first ← within (toString index) (value pulls item (g.set.chainBound elem) elem)
    return first :: (← elements pulls items (index + 1) elem)
termination_by (pulls, Literal.weightItems items, 0)
decreasing_by
  all_goals exact .right _ (.left _ _ (by simp only [Literal.weightItems]; omega))

/-- The values of the entries of a map, whose keys must not be among those seen. -/
def mapEntries (pulls : Nat) (entries : List (String × Literal)) (seen : List String)
    (elem : TypeExpr) : ExceptT Failure m (List (String × Value)) :=
  match entries with
  | [] => return []
  | (key, l) :: entries =>
    if key ∈ seen then fault (.duplicateKey key)
    else do
      let first ← within key (value pulls l (g.set.chainBound elem) elem)
      return (key, first) :: (← mapEntries pulls entries (key :: seen) elem)
termination_by (pulls, Literal.weightEntries entries, 0)
decreasing_by
  all_goals exact .right _ (.left _ _ (by simp only [Literal.weightEntries]; omega))

/-- The value of a field: of the entry of its serialized name, or of its declared default. -/
def fieldValue (pulls : Nat) (entries : List (String × Literal)) (field : Member)
    (type : TypeExpr) : ExceptT Failure m Value :=
  match _h : entries.lookup field.serializedName, field.default with
  | some l, _ => within field.serializedName (value pulls l (g.set.chainBound type) type)
  | none, some l =>
    match pulls with
    | 0 => within field.serializedName (fault .endless)
    | pulls + 1 => within field.serializedName (value pulls l (g.set.chainBound type) type)
  | none, none => fault (.missingField field.serializedName)
termination_by (pulls, Literal.weightEntries entries, 0)
decreasing_by
  · have := Literal.weight_lt_of_lookup _h
    simp [Prod.lex_def, this]
  · simp [Prod.lex_def]

/-- The values of the fields of a struct. -/
def fieldValues (pulls : Nat) (entries : List (String × Literal))
    (fields : List (Member × TypeExpr)) : ExceptT Failure m (List Value) :=
  match fields with
  | [] => return []
  | (field, type) :: fields => do
    let first ← fieldValue pulls entries field type
    return first :: (← fieldValues pulls entries fields)
termination_by (pulls, Literal.weightEntries entries, fields.length)
decreasing_by all_goals simp [Prod.lex_def]

end

/-- The value of a literal at a type. -/
def normalize (l : Literal) (t : TypeExpr) (location : Location) : ExceptT Error m Value :=
  (g.value location (maxDefaultDepth + 1) l (g.set.chainBound t) t).adapt fun f =>
    .default location f.path f.fault

end Graph

end Adl
