import Adl.Compile.Library
import Adl.Files.Access

/-!
# Loader — modules from files

A module is read from the first directory of the search path that has a file for it, or from the
prelude.  Loading follows dependencies level by level: the modules that the last level depends on
and that are not loaded yet form the next one.  The levels end because every level takes new files.
-/

namespace Adl

/-- Where modules are looked for. -/
structure Loader (m : Type → Type) where
  files : Reader m
  searchPath : List String

namespace Loader

variable {m : Type → Type} [Monad m] (loader : Loader m)

/-- Reads a module from a file. -/
def loadFile (path : String) : ExceptT Error m Source.Module := do
  let text ← (loader.files.read path).adapt Error.file
  ExceptT.mk (pure (Source.ofText path text))

/-- The first file of a name in a list of directories. -/
def find (name : String) : List String → m (Option String)
  | [] => return none
  | directory :: directories => do
    let path := Path.join directory name
    if ← loader.files.isFile path then return some path else find name directories

/-- Reads the module of a name. -/
def loadModule (name : String) : ExceptT Error m Source.Module := do
  match ← ExceptT.lift (loader.find (Path.schemaFile name) loader.searchPath) with
  | some path => loader.loadFile path
  | none =>
    match Prelude.text? name with
    | some text => ExceptT.mk (pure (Source.ofText name text))
    | none => throw (.moduleNotFound name)

/-- The names of a list that are not among those seen, each once. -/
def newNames (seen : List String) : List String → List String
  | [] => []
  | name :: names =>
    if name ∈ seen then newNames seen names else name :: newNames (name :: seen) names

/-- Reads a module that must have the name by which it was found. -/
def checkName (name : String) (found : Source.Module) : Except Error Unit :=
  if found.name = name then .ok () else .error (.moduleNotFound name)

/-- Adds the modules on which the last level depends, level by level. -/
def follow : Nat → List Source.Module → List Source.Module → ExceptT Error m (List Source.Module)
  | 0, loaded, _ => return loaded
  | fuel + 1, loaded, last => do
    match newNames (loaded.map (·.name)) (last.flatMap (·.dependencies)) with
    | [] => return loaded
    | wanted =>
      let level ← wanted.mapM loader.loadModule
      (wanted.zip level).forM fun (name, found) => ExceptT.mk (pure (checkName name found))
      follow fuel (loaded ++ level) level

/-- Completes modules by those they depend on, in the order in which they are found. -/
def loadDependencies (roots : List Source.Module) : ExceptT Error m (List Source.Module) := do
  ExceptT.mk (pure (Library.checkDistinct roots))
  let capacity ← ExceptT.lift loader.files.capacity
  loader.follow (capacity + Prelude.names.length + 1) roots roots

/-- Reads the modules of a list of names and those they depend on. -/
def load (names : List String) : ExceptT Error m (List Source.Module) := do
  loader.loadDependencies (← names.mapM loader.loadModule)

end Loader

end Adl
