import Adl.Command.Run

/-!
# Main — the command on the files of the disk
-/

namespace Adl

/-- The fault that an error of the operating system shows. -/
def FileFault.ofError : IO.Error → FileFault
  | .noFileOrDirectory .. => .notFound
  | .alreadyExists .. => .alreadyExists
  | .inappropriateType _ code _ =>
    if code = 21 ∨ code = 0 - 21 then .isDirectory else .notDirectory
  | .invalidArgument _ code _ =>
    if code = 36 ∨ code = 0 - 36 then .nameTooLong else .nulInName
  | e => .other (toString e)

/-- An action on the disk, whose errors are faults. -/
def onDisk {α : Type} (action : IO α) : ExceptT FileFault BaseIO α := do
  match ← action.toBaseIO with
  | .ok a => return a
  | .error e => throw (.ofError e)

/-- Reads files on the disk; it holds fewer of them than its addresses can tell apart. -/
def diskReader : Reader BaseIO where
  capacity := return 0x10000000000000000
  isFile path := return (← (onDisk (IO.FS.readBinFile path)).run).toOption.isSome
  read path := do
    match String.fromUTF8? (← onDisk (IO.FS.readBinFile path)) with
    | some text => return text
    | none => throw .notText

/-- Writes files on the disk.  A directory is what cannot be read because it is one. -/
def diskWriter : Writer BaseIO where
  isDirectory path := do
    match ← (onDisk (IO.FS.readBinFile path)).run with
    | .error .isDirectory => return true
    | _ => return false
  createDirectory path := onDisk (IO.FS.createDir path)
  write path text := onDisk (IO.FS.writeFile path text)

end Adl

/-- Does what the command line says. -/
def main (args : List String) : IO UInt32 := do
  match Adl.Command.read args with
  | .error .help => IO.println ("\n".intercalate Adl.Command.usage)
  | .error .usage => IO.eprintln ("\n".intercalate Adl.Command.usage)
  | _ => pure ()
  let outcome ← (Adl.Command.execute Adl.diskReader Adl.diskWriter args).toIO
  IO.print outcome.output
  IO.eprint outcome.errors
  return outcome.code.toUInt32
