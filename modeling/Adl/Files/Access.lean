import Adl.Files.Tree

/-!
# Access — reading and writing files

What the compiler needs of a file system, as two records of actions.  A tree that does not change
can be read without effects; reading and writing a tree that changes are actions on it.
-/

namespace Adl

/-- Actions that read files. -/
structure Reader (m : Type → Type) where
  /-- A bound on the number of files. -/
  capacity : m Nat
  /-- Whether a path names a file. -/
  isFile : String → m Bool
  /-- The text of a file. -/
  read : String → ExceptT FileFault m String

/-- Actions that write files. -/
structure Writer (m : Type → Type) where
  /-- Whether a path names a directory. -/
  isDirectory : String → m Bool
  /-- Makes a directory in a directory that exists. -/
  createDirectory : String → ExceptT FileFault m Unit
  /-- Writes a text into a file, in a directory that exists. -/
  write : String → String → ExceptT FileFault m Unit

namespace Writer

variable {m : Type → Type} [Monad m] (w : Writer m)

/-- Makes a directory unless it exists. -/
def ensureDirectory (path : String) : ExceptT FileFault m Unit :=
  tryCatch (w.createDirectory path) fun fault => do
    if ← ExceptT.lift (w.isDirectory path) then return else throw fault

/-- Makes a directory and those on the way to it, unless they exist.  The segments of its path are
given in reverse. -/
def createReversed : List String → ExceptT FileFault m Unit
  | [] => return
  | segment :: outer =>
    let path := "/".intercalate (segment :: outer).reverse
    tryCatch (w.ensureDirectory path) fun
      | .notFound => do
        createReversed outer
        w.ensureDirectory path
      | fault => throw fault

/-- Makes a directory and those on the way to it, unless they exist. -/
def createDirectories (path : String) : ExceptT FileFault m Unit :=
  if path.isEmpty then return else w.createReversed (Text.split '/' path).reverse

end Writer

namespace Tree

/-- Reads a tree. -/
def reader (t : Tree) : Reader Id where
  capacity := t.files.length
  isFile path := t.isFile path
  read path := ExceptT.mk (t.read path)

/-- Reads the tree that is the state. -/
def stateReader : Reader (StateM Tree) where
  capacity := return (← get).files.length
  isFile path := return (← get).isFile path
  read path := do ExceptT.mk (pure ((← get).read path))

/-- Replaces the state by the result of a change, unless the change fails. -/
def change (f : Tree → Except FileFault Tree) : ExceptT FileFault (StateM Tree) Unit := do
  match f (← get) with
  | .ok t => set t
  | .error fault => throw fault

/-- Writes into the tree that is the state. -/
def stateWriter : Writer (StateM Tree) where
  isDirectory path := return (← get).isDirectory path
  createDirectory path := change (·.createDirectory path)
  write path text := change (·.write path text.toUTF8)

/-- Writes a file and makes the directories on the way to it. -/
def plant (path : String) (contents : ByteArray) : ExceptT FileFault (StateM Tree) Unit := do
  stateWriter.createDirectories (Path.parent path)
  change (·.write path contents)

/-- The tree that consists of the given files, as far as they can be there together. -/
def ofFiles (files : List (String × ByteArray)) : Tree :=
  files.foldl (fun t (path, contents) => ((plant path contents).run.run t).2) empty

end Tree

end Adl
