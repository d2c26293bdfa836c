import Adl.Error
import Adl.Files.Path

/-!
# Tree — directories and files as a value

A `Tree` is a file or a directory of named trees; relative paths start at the outermost directory.
A path is followed segment by segment.  Every segment but the last must lead to a directory, and
`..` leads back out of it.  A path may leave the tree: the directories around it and the root are
there, as entries of the outermost directory under the names `..` and `/` that no file can have.
What is made there is kept, but `changedFrom` leaves it out.
-/

namespace Adl

/-- A file with its contents, or a directory with its entries under their names. -/
inductive Tree where
  | file (contents : ByteArray)
  | directory (entries : List (String × Tree))

namespace Tree

/-- A directory without entries. -/
def empty : Tree := directory []

/-! ### Places -/

/-- The place of a file or directory: the names on the way to it.  Outside the tree the way begins
with a slash or with steps back. -/
abbrev Place := List String

/-- The name of the root of all files. -/
def root : String := "/"

/-- Whether a place is in the tree. -/
def isInside (place : Place) : Bool :=
  match place with
  | [] => true
  | name :: _ => name ≠ ".." && name ≠ root

/-- The entry of a name in a directory.  The root and the directory around are always there. -/
def child? (t : Tree) (name : String) : Option Tree :=
  match t with
  | file _ => none
  | directory entries =>
    entries.lookup name <|> if name = ".." ∨ name = root then some empty else none

/-- What is at a place. -/
def find? (t : Tree) : Place → Option Tree
  | [] => some t
  | name :: place => (t.child? name).bind fun inner => find? inner place

/-- Gives a directory an entry in place of the one of the same name. -/
def withEntry (t : Tree) (name : String) (inner : Tree) : Tree :=
  match t with
  | file _ => directory [(name, inner)]
  | directory entries => directory ((name, inner) :: entries.filter (·.1 ≠ name))

/-- Puts a tree at a place, in place of what is there. -/
def put (t : Tree) (place : Place) (new : Tree) : Tree :=
  match place with
  | [] => new
  | name :: place => t.withEntry name (((t.child? name).getD empty).put place new)

theorem child?_withEntry (t : Tree) (name : String) (inner : Tree) :
    (t.withEntry name inner).child? name = some inner := by
  cases t <;> simp [withEntry, child?]

/-- What is put at a place is found there. -/
theorem find?_put (new : Tree) :
    ∀ (place : Place) (t : Tree), (t.put place new).find? place = some new
  | [], _ => by simp [put, find?]
  | name :: place, t => by simp [put, find?, child?_withEntry, find?_put new place]

mutual

/-- The files of a tree with their places. -/
def files : Tree → List (Place × ByteArray)
  | file contents => [([], contents)]
  | directory entries => filesOf entries

/-- The files of the entries of a directory. -/
def filesOf : List (String × Tree) → List (Place × ByteArray)
  | [] => []
  | (name, inner) :: entries =>
    (inner.files.map fun (place, contents) => (name :: place, contents)) ++ filesOf entries

end

theorem eq_empty_of_child?_empty {name : String} {inner : Tree}
    (h : empty.child? name = some inner) : inner = empty := by
  simp only [empty, child?, List.lookup_nil] at h
  split at h <;> simp_all [empty]

theorem find?_empty_ne_file {contents : ByteArray} :
    ∀ place : Place, empty.find? place ≠ some (file contents)
  | [] => by simp [find?, empty]
  | name :: place => by
    simp only [find?]
    cases h : empty.child? name with
    | none => simp
    | some inner =>
      rw [eq_empty_of_child?_empty h]
      exact find?_empty_ne_file place

theorem mem_filesOf {name : String} {inner : Tree} {place : Place} {contents : ByteArray} :
    ∀ {entries : List (String × Tree)}, entries.lookup name = some inner →
      (place, contents) ∈ inner.files → (name :: place, contents) ∈ filesOf entries
  | [], h, _ => by simp at h
  | (other, t) :: entries, h, hm => by
    simp only [List.lookup_cons] at h
    simp only [filesOf, List.mem_append, List.mem_map]
    split at h
    · next he =>
      obtain rfl : t = inner := by simpa using h
      exact .inl ⟨_, hm, by simp [beq_iff_eq.mp he]⟩
    · exact .inr (mem_filesOf h hm)

/-- A file that is found is among the files. -/
theorem mem_files_of_find? {contents : ByteArray} : ∀ {place : Place} {t : Tree},
    t.find? place = some (file contents) → (place, contents) ∈ t.files
  | [], t, h => by
    simp only [find?, Option.some.injEq] at h
    simp [h, files]
  | name :: place, file _, h => by simp [find?, child?] at h
  | name :: place, directory entries, h => by
    simp only [find?, child?] at h
    cases hl : entries.lookup name with
    | some inner => exact mem_filesOf hl (mem_files_of_find? (by simpa [hl] using h))
    | none =>
      by_cases hr : name = ".." ∨ name = root
      · exact absurd (by simpa [hl, hr] using h) (find?_empty_ne_file place)
      · simp [hl, hr] at h

/-! ### Paths -/

/-- How far a path was followed: the names of the place, the directories around it, both from the
innermost one, and what is there. -/
structure Position where
  names : List String
  around : List Tree
  here : Option Tree

namespace Position

/-- The place of a position. -/
def place (p : Position) : Place := p.names.reverse

/-- Goes to an entry of the directory that is here. -/
def enter (p : Position) (name : String) : Position :=
  ⟨name :: p.names, p.here.toList ++ p.around, p.here.bind (·.child? name)⟩

/-- Goes to the directory around.  It has a place of its own if it is around the tree, and the
root is in itself. -/
def leave (p : Position) : Position :=
  if p.names.all (· = "..") then p.enter ".."
  else if p.names = [root] then p
  else ⟨p.names.tail, p.around.tail, p.around.head?⟩

/-- The largest number of bytes of a name. -/
def longestName : Nat := 255

/-- Follows a segment of a path. -/
def follow (p : Position) (segment : String) : Except FileFault Position :=
  match p.here with
  | none => .error .notFound
  | some (file _) => .error .notDirectory
  | some (directory _) =>
    if segment = "" ∨ segment = "." then .ok p
    else if segment = ".." then .ok p.leave
    else if segment.utf8ByteSize > longestName then .error .nameTooLong
    else .ok (p.enter segment)

end Position

/-- The largest number of bytes of a path. -/
def longestPath : Nat := 4095

/-- The position at which a path starts. -/
def start (t : Tree) (path : String) : Position :=
  let start := ⟨[], [], some t⟩
  if Path.isAbsolute path then start.enter root else start

/-- The position to which a path leads; nothing needs to be there. -/
def locate (t : Tree) (path : String) : Except FileFault Position :=
  if '\x00' ∈ path.toList then .error .nulInName
  else if path.isEmpty then .error .notFound
  else if path.utf8ByteSize > longestPath then .error .nameTooLong
  else (Text.split '/' path).foldlM Position.follow (t.start path)

/-- What a path names. -/
def lookup (t : Tree) (path : String) : Except FileFault Tree := do
  match (← t.locate path).here with
  | some found => return found
  | none => throw .notFound

/-- Whether a path names a file. -/
def isFile (t : Tree) (path : String) : Bool :=
  match t.lookup path with
  | .ok (file _) => true
  | _ => false

/-- Whether a path names a directory. -/
def isDirectory (t : Tree) (path : String) : Bool :=
  match t.lookup path with
  | .ok (directory _) => true
  | _ => false

/-- The text of a file. -/
def read (t : Tree) (path : String) : Except FileFault String := do
  match ← t.lookup path with
  | directory _ => throw .isDirectory
  | file contents =>
    match String.fromUTF8? contents with
    | some text => return text
    | none => throw .notText

/-! ### Changes -/

/-- Writes a file into a directory that exists. -/
def write (t : Tree) (path : String) (contents : ByteArray) : Except FileFault Tree := do
  let p ← t.locate path
  match p.here with
  | some (directory _) => throw .isDirectory
  | _ => return t.put p.place (file contents)

/-- Makes a directory in a directory that exists. -/
def createDirectory (t : Tree) (path : String) : Except FileFault Tree := do
  let p ← t.locate path
  match p.here with
  | some _ => throw .alreadyExists
  | none => return t.put p.place empty

/-- Whether a place holds a file of the given contents. -/
def holds (t : Tree) (place : Place) (contents : ByteArray) : Bool :=
  match t.find? place with
  | some (file old) => old == contents
  | _ => false

/-- The files of a tree that differ from those of an earlier one, under their paths. -/
def changedFrom (t old : Tree) : List (String × ByteArray) :=
  (t.files.filter fun (place, contents) => isInside place && !old.holds place contents).map
    fun (place, contents) => ("/".intercalate place, contents)

end Tree

end Adl
