import Adl.Name

/-!
# Prelude — the modules that need no file

The module `sys.types` of generic types, and the two newtypes in it whose values must not repeat
themselves.
-/

namespace Adl.Prelude

/-- The name of the module of generic types. -/
def typesName : String := "sys.types"

/-- The text of the module of generic types. -/
def typesText : String := "\n".intercalate [
  "",
  "/// Generic types shared by every ADL schema.", "module sys.types \x7b", "",
  "struct Pair<T1, T2> \x7b", "    T1 v1;", "    T2 v2;", "\x7d;", "",
  "union Either<T1, T2> \x7b", "    T1 left;", "    T2 right;", "\x7d;", "",
  "union Maybe<T> \x7b", "    Void nothing;", "    T just;", "\x7d;", "",
  "union Error<T> \x7b", "    T value;", "    String error;", "\x7d;", "",
  "struct MapEntry<K, V> \x7b", "    @SerializedName \"k\"", "    K key;",
  "    @SerializedName \"v\"", "    V value;", "\x7d;", "",
  "newtype Map<K, V> = Vector<Pair<K, V>>;", "",
  "newtype Set<T> = Vector<T>;", "",
  "union Result<T, E> \x7b", "    T ok;", "    E error;", "\x7d;", "",
  "\x7d;", ""]

/-- The text of a module that needs no file. -/
def text? (name : String) : Option String := if name = typesName then some typesText else none

/-- The modules that need no file, each after those it depends on. -/
def names : List String := [typesName]

/-- What must be distinct in the values of a newtype over a vector: the first fields of its items,
or its items. -/
inductive Uniqueness where
  | keys
  | elements
  deriving DecidableEq, Repr

/-- What is distinct. -/
def Uniqueness.noun : Uniqueness → String
  | keys => "key"
  | elements => "element"

/-- What must be distinct in the values of a newtype. -/
def uniqueness? (name : ScopedName) : Option Uniqueness :=
  if name = ⟨typesName, "Map"⟩ then some .keys
  else if name = ⟨typesName, "Set"⟩ then some .elements
  else none

end Adl.Prelude
