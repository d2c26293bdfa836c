import Adl.Command.Syntax
import Adl.Config
import Adl.Files.Loader

/-!
# Run — what commands do

A command reads its configuration, loads its inputs with all they depend on, and compiles them.  The
inputs are schema files and names of modules.  A command that fails has an error and no output.
-/

namespace Adl

/-- How a command line ended. -/
structure Command.Outcome where
  code : Nat
  output : String
  errors : String
  deriving DecidableEq, Repr

namespace Command

variable {m : Type → Type} [Monad m] (files : Reader m) (writer : Writer m)

/-- The result of a computation without effects. -/
def pureResult {α : Type} (x : Except Error α) : ExceptT Error m α := ExceptT.mk (pure x)

/-- The configuration of a command. -/
def configure (inputs : Inputs) : ExceptT Error m Config := do
  let config ←
    match inputs.config with
    | some path => Config.loadFile files path
    | none => Config.discover files "."
  return if inputs.searchPath.isEmpty then config
    else { config with searchPath := inputs.searchPath }

/-- Whether a text looks like the path of a schema file. -/
def isSchemaPath (input : String) : Bool :=
  ('.' :: Path.schemaExtension.toList).isSuffixOf input.toList

/-- Loads an input: a schema file, or the module of a name. -/
def loadInput (loader : Loader m) (input : String) : ExceptT Error m Source.Module := do
  let direct ← if isSchemaPath input then ExceptT.lift (files.isFile input) else pure false
  if direct then loader.loadFile input else loader.loadModule input

/-- Compiles the inputs with all they depend on; the answer contains the names of the inputs. -/
def compile (inputs : Inputs) (config : Config) : ExceptT Error m (Compilation × List String) := do
  let loader : Loader m := ⟨files, config.searchPath⟩
  let roots ← inputs.modules.mapM (loadInput files loader)
  let modules ← loader.loadDependencies roots
  return (← pureResult (Compilation.ofModules modules), roots.map (·.name))

/-- Writes generated files below a directory. -/
def writeUnits (directory : String) (units : List Target.SourceUnit) : ExceptT Error m Unit :=
  units.forM fun u => do
    let path := Path.join directory u.path
    (writer.createDirectories (Path.parent path)).adapt Error.file
    (writer.write path u.contents).adapt Error.file

/-- The configuration of code generation. -/
def configureTargets (config : Config) (output : Option String) (targets : List String)
    (noAst : Bool) : Config :=
  let config := { config with outputDir := output.getD config.outputDir }
  let config := if targets.isEmpty then config else config.select targets
  if noAst then config.withoutAst else config

/-- Generates code; the answer is the line to be printed. -/
def generate (inputs : Inputs) (output : Option String) (targets : List String) (noAst : Bool) :
    ExceptT Error m String := do
  let config := configureTargets (← configure files inputs) output targets noAst
  pureResult config.validate
  let (c, _) ← compile files inputs config
  let units ← pureResult (c.emitAll config.targets)
  writeUnits writer config.outputDir units
  return "Generated " ++ toString units.length ++ " file(s) in " ++ config.outputDir

/-- Checks schemas; the answer is the line to be printed. -/
def check (inputs : Inputs) : ExceptT Error m String := do
  let (c, _) ← compile files inputs (← configure files inputs)
  return "OK: " ++ toString c.set.modules.length ++ " module(s), " ++
    toString c.set.decls.length ++ " declaration(s)"

/-- The records of the declarations of a module, or of the first input. -/
def ast (inputs : Inputs) (module : Option String) : ExceptT Error m String := do
  let (c, names) ← compile files inputs (← configure files inputs)
  let records ← pureResult (c.moduleRecords (module.getD (names.headD "")))
  return (Json.array (records.map Schema.Decl.encode)).pretty

/-- Does what a command says; the answer is what is to be printed, without the last line break. -/
def perform : Action → ExceptT Error m String
  | .generate inputs output targets noAst => generate files writer inputs output targets noAst
  | .check inputs => check files inputs
  | .ast inputs module => ast files inputs module
  | .targets => return "\n".intercalate (Target.all.map Target.name)

/-- The line that tells the version. -/
def versionLine : String := "adlc 0.1.0"

/-- Reads a command line and does what it says. -/
def execute (args : List String) : m Outcome := do
  match read args with
  | .error .help => return ⟨0, "", ""⟩
  | .error .version => return ⟨0, versionLine ++ "\n", ""⟩
  | .error .usage => return ⟨2, "", ""⟩
  | .ok action =>
    match ← (perform files writer action).run with
    | .ok text => return ⟨0, text ++ "\n", ""⟩
    | .error e => return ⟨1, "", "error: " ++ e.message ++ "\n"⟩

end Command

end Adl
