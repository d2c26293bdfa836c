import Adl.Schema.Decode
import Adl.Schema.Encode

/-!
# Catalog — declarations by name

Generated modules carry tables of declarations as JSON texts.  A `Catalog` collects the rows of
such tables; of two declarations with one name the later one counts.
-/

namespace Adl.Schema

/-- Declarations under their scoped names, each name once. -/
structure Catalog where
  entries : List (ScopedName × Decl)

namespace Catalog

/-- No declarations. -/
def empty : Catalog := ⟨[]⟩

/-- The number of declarations. -/
def size (c : Catalog) : Nat := c.entries.length

/-- The declaration of a name. -/
def get? (c : Catalog) (name : ScopedName) : Option Decl := c.entries.lookup name

/-- Adds a declaration, in place of one with the same name. -/
def insert (c : Catalog) (d : Decl) : Catalog :=
  ⟨(d.scopedName, d) :: c.entries.filter (·.1 ≠ d.scopedName)⟩

theorem lookup_filter_ne {key name : ScopedName} (h : name ≠ key)
    (entries : List (ScopedName × Decl)) :
    (entries.filter (·.1 ≠ key)).lookup name = entries.lookup name := by
  induction entries with
  | nil => rfl
  | cons entry entries ih =>
    obtain ⟨k, d⟩ := entry
    by_cases hk : k = key
    · have hn : (name == k) = false := beq_eq_false_iff_ne.2 (hk ▸ h)
      rw [List.lookup_cons, hn, ← ih]
      simp [hk]
    · rw [List.filter_cons_of_pos (by simp [hk]), List.lookup_cons, List.lookup_cons, ih]

/-- A declaration is found under its name, and all other names are as before. -/
theorem get?_insert (c : Catalog) (d : Decl) (name : ScopedName) :
    (c.insert d).get? name = if name = d.scopedName then some d else c.get? name := by
  by_cases h : name = d.scopedName
  · simp [get?, insert, h]
  · have hn : (name == d.scopedName) = false := by simp [h]
    rw [if_neg h, get?, insert, List.lookup_cons, hn]
    exact lookup_filter_ne h c.entries

/-- Adds the declarations of a table row by row, up to the first row that cannot be read; the flag
tells whether all rows could be. -/
def extend (c : Catalog) : List String → Catalog × Bool
  | [] => (c, true)
  | row :: rows =>
    match Decl.ofText? row with
    | some d => (c.insert d).extend rows
    | none => (c, false)

/-- The declarations of a table all of whose rows can be read. -/
def ofTable? (rows : List String) : Option Catalog :=
  match empty.extend rows with
  | (c, true) => some c
  | (_, false) => none

/-- The wording of a name that is not in the catalog. -/
def missingText (name : ScopedName) : String :=
  "No declaration \"" ++ name.text ++ "\" in AST map"

end Catalog

end Adl.Schema
