import Adl.Files.Access
import Adl.Target.Basic

/-!
# Config — what is compiled, and for which targets

A configuration is read from a record all of whose members may be missing.
-/

namespace Adl

/-- Where modules are looked for, where generated files go, and the targets. -/
structure Config where
  searchPath : List String
  outputDir : String
  targets : Target.Choice

namespace Config

open Json (Node Reading)

/-- The configuration if nothing is configured. -/
def standard : Config := ⟨["."], "generated", [(Target.rust.name, .standard)]⟩

/-- The usual name of a configuration file. -/
def fileName : String := "adlc.json"

/-! ### Reading -/

/-- A list of paths. -/
def decodePaths (r : Reading) (node : Node) : Option (List String) := do
  let (_, items) ← node.asArray r
  items.mapM Node.asString

/-- A configuration from a record. -/
def decode (r : Reading) (node : Node) : Option Config := do
  match ← node.asFields ["searchPath", "outputDir", "targets"] r with
  | (r, [searchPath, outputDir, targets]) =>
    return {
      searchPath := ← searchPath.elim (some standard.searchPath) (decodePaths r)
      outputDir := ← outputDir.elim (some standard.outputDir) Node.asString
      targets := ← targets.elim (some standard.targets) (Target.Choice.decode r) }
  | _ => none

/-- Reads the text of a configuration. -/
def ofText? (text : String) : Option Config := do
  decode Reading.start (← Node.parse? text)

variable {m : Type → Type} [Monad m] (files : Reader m)

/-- Reads a configuration file. -/
def loadFile (path : String) : ExceptT Error m Config := do
  let text ← (files.read path).adapt Error.file
  match ofText? text with
  | some config => return config
  | none => throw (.config (.malformed path))

/-- Reads the configuration file of a directory, if there is one. -/
def discover (directory : String) : ExceptT Error m Config := do
  let path := Path.join directory fileName
  if ← ExceptT.lift (files.isFile path) then loadFile files path else return standard

/-! ### Changes -/

/-- Adds a target with the standard options unless it is there. -/
def enable (c : Config) (target : String) : Config :=
  { c with targets := c.targets.enable target }

/-- Removes a target. -/
def disable (c : Config) (target : String) : Config :=
  { c with targets := c.targets.disable target }

/-- Restricts the targets to those of a list, all of which are there afterwards. -/
def select (c : Config) (targets : List String) : Config :=
  targets.foldl enable { c with targets := c.targets.filter (·.1 ∈ targets) }

/-- Leaves the records of declarations out of the generated code. -/
def withoutAst (c : Config) : Config :=
  { c with targets := c.targets.map fun (name, o) => (name, { o with includeAst := false }) }

/-! ### Faults -/

/-- Rejects a configuration with which nothing can be done. -/
def validate (c : Config) : Except Error Unit := do
  if c.targets.isEmpty then throw (.config .noTargets)
  if c.searchPath.isEmpty then throw (.config .noSearchPath)
  c.targets.forM fun (name, _) => discard (Target.ofName name)

end Config

end Adl
