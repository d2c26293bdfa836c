import Adl.Text.Split

/-!
# Path — names of files

A path is a text whose segments are separated by slashes.  The file of the module `a.b` is `a/b`
with an extension, below some directory.
-/

namespace Adl.Path

/-- Whether a path starts at the root. -/
def isAbsolute (path : String) : Bool := path.toList.head? = some '/'

/-- A path below another one; an absolute path stands for itself. -/
def join (base path : String) : String :=
  if isAbsolute path then path
  else if base.isEmpty ∨ base.toList.getLast? = some '/' then base ++ path
  else base ++ "/" ++ path

/-- The directory of a path: what stands before its last slash. -/
def parent (path : String) : String := "/".intercalate (Text.split '/' path).dropLast

/-- The path with an extension in place of slashes at its end.  A path that names no file is left
alone. -/
def withExtension (path extension : String) : String :=
  let stem := Text.trimEnd '/' path
  if stem.isEmpty then path
  else if extension.isEmpty then stem
  else stem ++ "." ++ extension

/-- The file of a module, with the given extension. -/
def ofModule (module extension : String) : String :=
  withExtension ((Text.split '.' module).foldl join "") extension

/-- The extension of schema files. -/
def schemaExtension : String := "adl"

/-- The schema file of a module. -/
def schemaFile (module : String) : String := ofModule module schemaExtension

end Adl.Path
