import Adl.Json.Decode

/-!
# Options — what may be chosen for a target

Options are read from a record all of whose members may be missing.
-/

namespace Adl.Target

/-- The options of a target. -/
structure Options where
  /-- Whether the records of all declarations are put into the generated code. -/
  includeAst : Bool
  /-- Where generated code finds its support library, if not at the usual place. -/
  runtime : Option String
  /-- The path below which generated modules are mounted, if not the usual one. -/
  moduleRoot : Option String
  deriving DecidableEq, Repr

namespace Options

open Json (Node Reading)

/-- The options of a target for which nothing is chosen. -/
def standard : Options := ⟨true, none, none⟩

/-- An optional text: `null`, or a string. -/
def decodeText : Node → Option (Option String)
  | .null => some none
  | node => node.asString.map some

/-- Options from a record. -/
def decode (r : Reading) (node : Node) : Option Options := do
  match ← node.asFields ["includeAst", "runtime", "moduleRoot"] r with
  | (_, [includeAst, runtime, moduleRoot]) =>
    return {
      includeAst := ← includeAst.elim (some standard.includeAst) Node.asBool
      runtime := ← runtime.elim (some standard.runtime) decodeText
      moduleRoot := ← moduleRoot.elim (some standard.moduleRoot) decodeText }
  | _ => none

/-- Reads the text of options. -/
def ofText? (text : String) : Option Options := do
  decode Reading.start (← Node.parse? text)

end Options

end Adl.Target
