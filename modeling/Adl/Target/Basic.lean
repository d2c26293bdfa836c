import Adl.Files.Path
import Adl.Target.RustUnit
import Adl.Target.TypeScriptUnit

/-!
# Target — the languages for which code is generated

A target turns a module of a compilation into one source unit.  Several targets put their units
into directories of their own, so units of different targets do not meet.
-/

namespace Adl

/-- A language for which code is generated. -/
inductive Target where
  | rust
  | typescript
  deriving DecidableEq, Repr

namespace Target

/-- All targets. -/
def all : List Target := [rust, typescript]

/-- The name of a target. -/
def name : Target → String
  | rust => "rust"
  | typescript => "typescript"

/-- The extension of the files of a target. -/
def extension : Target → String
  | rust => "rs"
  | typescript => "ts"

/-- The target of a name. -/
def ofName (name : String) : Except Error Target :=
  match all.find? (·.name = name) with
  | some target => .ok target
  | none => .error (.unknownTarget name)

/-- The lines of the unit of a module. -/
def unitLines : Target → Compilation → Module → Options → List String
  | rust => Rust.unitLines
  | typescript => TypeScript.unitLines

/-- The unit of a module. -/
def unit (target : Target) (c : Compilation) (m : Module) (options : Options) : SourceUnit :=
  ⟨Path.ofModule m.name target.extension, joinLines (target.unitLines c m options)⟩

/-- Puts a unit into a directory. -/
def SourceUnit.below (directory : String) (u : SourceUnit) : SourceUnit :=
  { u with path := Path.join directory u.path }

/-- Targets with their options, under their names and in increasing order of these. -/
abbrev Choice := List (String × Options)

namespace Choice

/-- Sets the options of a target. -/
def insert (name : String) (options : Options) : Choice → Choice
  | [] => [(name, options)]
  | (n, o) :: rest =>
    if name < n then (name, options) :: (n, o) :: rest
    else if name = n then (name, options) :: rest
    else (n, o) :: insert name options rest

/-- The targets of a list; of several entries with one name the last one counts. -/
def ofList (entries : List (String × Options)) : Choice :=
  entries.foldl (fun choice (name, options) => choice.insert name options) []

/-- Adds a target with the standard options unless it is there. -/
def enable (name : String) (choice : Choice) : Choice :=
  if choice.any (·.1 = name) then choice else choice.insert name .standard

/-- Removes a target. -/
def disable (name : String) (choice : Choice) : Choice := choice.filter (·.1 ≠ name)

/-- Reads a choice from a JSON object. -/
def decode (r : Json.Reading) : Json.Node → Option Choice
  | .object members => do
    let r ← r.enter
    let entries ← members.mapM fun (key, node) => return (← key, ← Options.decode r node)
    return ofList entries
  | _ => none

end Choice

end Target

namespace Compilation

/-- The unit that a target makes of a module. -/
def emit (c : Compilation) (target module : String) (options : Target.Options) :
    Except Error Target.SourceUnit := do
  let target ← Target.ofName target
  return target.unit c (← c.module module) options

/-- The units of all modules for one target, in the directory of the target. -/
def emitTarget (c : Compilation) (target : String) (options : Target.Options) :
    Except Error (List Target.SourceUnit) :=
  c.set.modules.mapM fun m => return (← c.emit target m.name options).below target

/-- The units of all modules for several targets. -/
def emitAll (c : Compilation) (choice : Target.Choice) : Except Error (List Target.SourceUnit) :=
  return (← choice.mapM fun (target, options) => c.emitTarget target options).flatten

end Compilation

end Adl
