import Adl.Proofs.Compile.Embedded

/-!
# Faithful — different records have different texts

A record is `Storable` if its integers have 64 bits, signed or not, and its floating point numbers
are finite; the objects in its annotations have sorted keys, as data has.  Such a record is read
back from its text as it is, so no other one has this text (`toText_faithful`).  Only numbers and
nesting are left to ask for: the texts of the numbers must read back, and a reader enters a bounded
number of containers.
-/

namespace Adl

/-- A literal whose integers have 64 bits, signed or not, and whose floating point numbers are
finite. -/
inductive Literal.Storable : Literal → Prop
  | null : Storable .null
  | integer {i : Int} (hle : -(2 ^ 63) ≤ i) (hlt : i < 2 ^ 64) : Storable (.integer i)
  | double {d : Double} (h : d.isFinite) : Storable (.double d)
  | string (s : String) : Storable (.string s)
  | boolean (b : Bool) : Storable (.boolean b)
  | array {items : List Literal} (h : ∀ l ∈ items, Storable l) : Storable (.array items)
  | object {entries : List (String × Literal)} (h : ∀ e ∈ entries, Storable e.2) :
      Storable (.object entries)

namespace Literal.Storable

variable {l : Literal}

theorem fits (h : l.Storable) : l.Fits := by
  induction h with
  | null => exact .null
  | integer hle hlt => exact .integer (by omega) (by omega)
  | double _ => exact .double _
  | string s => exact .string s
  | boolean b => exact .boolean b
  | array _ ih => exact .array ih
  | object _ ih => exact .object ih

theorem finite (h : l.Storable) : l.finite := by
  induction h with
  | null => rfl
  | integer _ _ => rfl
  | double h => exact h
  | string _ => rfl
  | boolean _ => rfl
  | array _ ih =>
    rw [Literal.finite, itemsFinite_eq_all]
    exact List.all_eq_true.mpr ih
  | object _ ih =>
    rw [Literal.finite, entriesFinite_eq_all]
    exact List.all_eq_true.mpr ih

end Literal.Storable

namespace Schema

/-- A default that is storable, if there is one. -/
def DefaultStorable (default : Option Literal) : Prop := ∀ l, default = some l → l.Storable

/-- A field with storable numbers. -/
structure Field.Storable (f : Field) : Prop where
  annotations : ∀ a ∈ f.annotations, a.2.Canonical
  default : DefaultStorable f.default

/-- A body with storable numbers. -/
def Body.Storable : Body → Prop
  | .struct _ fields => ∀ f ∈ fields, f.Storable
  | .union _ fields => ∀ f ∈ fields, f.Storable
  | .alias _ _ => True
  | .newtype _ _ default => DefaultStorable default

/-- A declaration with storable numbers. -/
structure Decl.Storable (d : Decl) : Prop where
  annotations : ∀ a ∈ d.annotations, a.2.Canonical
  body : d.body.Storable

theorem DefaultStorable.fits {default : Option Literal} (h : DefaultStorable default) :
    DefaultFits default := fun l hl => (h l hl).fits

theorem DefaultStorable.finite {default : Option Literal} (h : DefaultStorable default) :
    default.all Literal.finite := by
  cases default with
  | none => rfl
  | some l => exact (h l rfl).finite

theorem Field.Storable.sound {f : Field} (h : f.Storable) : f.Sound :=
  ⟨h.annotations, h.default.fits⟩

theorem Body.Storable.sound {b : Body} (h : b.Storable) : b.Sound := by
  cases b with
  | struct _ fields => exact fun f hf => (h f hf).sound
  | union _ fields => exact fun f hf => (h f hf).sound
  | «alias» _ _ => trivial
  | newtype _ _ default => exact DefaultStorable.fits h

theorem Body.Storable.finite {b : Body} (h : b.Storable) : b.finite := by
  cases b with
  | struct _ fields => exact List.all_eq_true.mpr fun f hf => (h f hf).default.finite
  | union _ fields => exact List.all_eq_true.mpr fun f hf => (h f hf).default.finite
  | «alias» _ _ => rfl
  | newtype _ _ default => exact DefaultStorable.finite h

/-- A storable record is read back from its text. -/
theorem ofText?_toText_of_storable {d : Decl} (hd : d.Storable)
    (hread : d.encode.ReadableIn Json.maxDepth) : Decl.ofText? d.toText = some d := by
  have hsound : d.Sound := ⟨hd.annotations, hd.body.sound⟩
  have hfinite : d.finite := hd.body.finite
  rw [ofText?_toText hsound hread, if_pos hfinite]

/-- A record with 64-bit integers and finite numbers is read back from its text as it is, and every
other such record has another text. -/
theorem toText_faithful {d : Decl} (hd : d.Storable) (hread : d.encode.ReadableIn Json.maxDepth) :
    Decl.ofText? d.toText = some d ∧
      ∀ e : Decl, e.Storable → e.encode.ReadableIn Json.maxDepth → e ≠ d → e.toText ≠ d.toText := by
  have hback := ofText?_toText_of_storable hd hread
  refine ⟨hback, fun e he heread hne htext => hne ?_⟩
  have heback := ofText?_toText_of_storable he heread
  rw [htext, hback] at heback
  exact (Option.some.inj heback).symm

/-- The record of a newtype of `sys.types.Map<String, T>` with a default that repeats a key, and
with an annotation that is an object. -/
def tableRecord (name : String) : Decl :=
  ⟨"tables",
    [(⟨"sys.annotations", "Limits"⟩,
      .object [("least", .integer (-0x8000000000000000)), ("step", .double waveGain)])],
    .newtype ["T"]
      (.mk (.reference ⟨"sys.types", "Map"⟩)
        [.mk (.primitive "String") [], .mk (.typeParam "T") []])
      (some (.object [("key", .integer 0xFFFFFFFFFFFFFFFF), ("key", .double waveGain),
        ("\"\n", .array [.null, .boolean true, .string "\\u0000"])])),
    name, some 7⟩

theorem storable_tableRecord (name : String) : (tableRecord name).Storable := by
  have hgain : waveGain.isFinite := by decide +kernel
  refine ⟨?_, ?_⟩
  · simp only [tableRecord, List.forall_mem_singleton]
    refine .object (by decide) ?_
    simp only [List.forall_mem_cons, List.not_mem_nil, false_implies, implies_true, and_true]
    exact ⟨.integer (by decide) (by decide), .double hgain⟩
  · rintro l ⟨⟩
    refine .object ?_
    simp only [List.forall_mem_cons, List.not_mem_nil, false_implies, implies_true, and_true]
    refine ⟨.integer (by decide) (by decide), .double hgain, .array ?_⟩
    simp only [List.forall_mem_cons, List.not_mem_nil, false_implies, implies_true, and_true]
    exact ⟨.null, .boolean true, .string _⟩

theorem readable_tableRecord (name : String) :
    (tableRecord name).encode.ReadableIn Json.maxDepth := by
  have hdoubles : (tableRecord name).encode.doubles = [waveGain, waveGain] := rfl
  have hdepth : (tableRecord name).encode.depth = 11 := rfl
  refine ⟨?_, ?_⟩
  · rw [Json.Readable, hdoubles]
    simp only [List.forall_mem_cons, List.not_mem_nil, false_implies, implies_true, and_true]
    exact ⟨fun _ => readsBack_waveGain, fun _ => readsBack_waveGain⟩
  · rw [hdepth]
    decide

/-- Two tables are read back from their texts, which differ. -/
theorem table_faithful :
    (tableRecord "Table").Storable ∧ (tableRecord "Table").encode.ReadableIn Json.maxDepth ∧
      Decl.ofText? (tableRecord "Table").toText = some (tableRecord "Table") ∧
      (tableRecord "Row").toText ≠ (tableRecord "Table").toText := by
  have hstorable := storable_tableRecord
  have hreadable := readable_tableRecord
  obtain ⟨hback, hother⟩ := toText_faithful (hstorable "Table") (hreadable "Table")
  have hne : tableRecord "Row" ≠ tableRecord "Table" := fun h => by
    have hname : "Row" = "Table" := congrArg Decl.name h
    exact absurd hname (by decide)
  exact ⟨hstorable _, hreadable _, hback, hother _ (hstorable _) (hreadable _) hne⟩

end Schema

end Adl
