import Adl.Proofs.Model.Keys
import Adl.Proofs.Value.Contained
import Adl.Proofs.Value.RoundTrip

/-!
# Fits — integers of 128 bits

The literals in a resolved set are those that are written in its modules, so if the integers in
these have at most 128 bits, those in the set do (`Resolved.literalsFit`).  A value adds no larger
ones: an integer in its canonical literal belongs to an integer type, or it is written in a literal
that the value is read from.  So the canonical literal has every property that these literals have
and that goes over to parts and back (`Denotes.hereditary`).
-/

namespace Adl

/-! ### Literals of declarations -/

/-- The literals that are written in a member: the values of its annotations and its default. -/
def Source.Member.literals (m : Source.Member) : List Literal :=
  m.annotations.map (·.value) ++ m.default.toList

/-- The literals that are written in a declaration. -/
def Source.Decl.literals (d : Source.Decl) : List Literal :=
  d.annotations.map (·.value) ++ d.members.flatMap Source.Member.literals ++
    match d.body with
    | .newtype _ default => default.toList
    | _ => []

/-- All integers in the literals of a declaration have at most 128 bits. -/
structure Decl.LiteralsFit (d : Decl) : Prop where
  annotations : ∀ a ∈ d.annotations, a.2.Fits
  member_annotations : ∀ m ∈ d.members, ∀ a ∈ m.annotations, a.2.Fits
  defaults : ∀ m ∈ d.members, ∀ l, m.default = some l → l.Fits
  newtypes : ∀ t l, d.body = .newtype t (some l) → l.Fits

theorem Decl.LiteralsFit.declared {d : Decl} (h : d.LiteralsFit) : ∀ l ∈ d.declared, l.Fits := by
  intro l hl
  rw [Decl.declared] at hl
  split at hl
  · next ms hbody =>
    obtain ⟨m, hm, hdefault⟩ := List.mem_filterMap.mp hl
    exact h.defaults m (by rwa [Decl.members, hbody]) l hdefault
  · next hbody =>
    rw [Option.mem_toList] at hl
    exact h.newtypes _ l (hl ▸ hbody)
  · cases hl

namespace Resolve

/-- The values of resolved annotations are those that are written. -/
theorem value_mem_of_resolveAnnotations {scope : Scope} {written : List Source.AnnotationEntry}
    {a : ScopedName × Literal} (h : a ∈ scope.resolveAnnotations written) :
    a.2 ∈ written.map (·.value) := by
  revert h
  refine List.foldlRecOn written _
    (motive := fun found : Annotations => a ∈ found → a.2 ∈ written.map (·.value))
    (fun h => absurd h List.not_mem_nil) fun found hfound e he h => ?_
  rcases mem_insertKey h with rfl | h
  · exact List.mem_map_of_mem he
  · exact hfound h

end Resolve

variable {modules : List Source.Module} {set : ModuleSet}

theorem literalsFit_of_resolveDecl {table : NameTable} {m : Source.Module} {id : DeclId}
    {d : Source.Decl} {x : Decl} (h : Resolve.resolveDecl table m id d = .ok x)
    (hfit : ∀ l ∈ d.literals, l.Fits) : x.LiteralsFit := by
  rw [Source.Decl.literals] at hfit
  simp only [List.forall_mem_append] at hfit
  obtain ⟨⟨hannotations, hliterals⟩, hnewtype⟩ := hfit
  have hmember : ∀ y ∈ x.members, ∃ sm ∈ d.members, y.default = sm.default ∧
      ∀ a ∈ y.annotations, a.2 ∈ sm.annotations.map (·.value) := by
    intro y hy
    obtain ⟨sm, hsm, hr⟩ := exists_of_forall₂ (Resolve.members_of_resolveDecl h) hy
    obtain ⟨type, -, rfl⟩ := Resolve.resolveMember_eq_ok_iff.mp hr
    exact ⟨sm, hsm, rfl, fun a ha => Resolve.value_mem_of_resolveAnnotations ha⟩
  obtain ⟨-, body, hbody, rfl⟩ := Resolve.resolveDecl_eq_ok_iff.mp h
  refine ⟨fun a ha => ?_, fun y hy a ha => ?_, fun y hy l hl => ?_, fun t l hl => ?_⟩
  · exact hannotations _ (Resolve.value_mem_of_resolveAnnotations ha)
  · obtain ⟨sm, hsm, -, hvalues⟩ := hmember y hy
    exact hliterals _ (List.mem_flatMap.mpr ⟨sm, hsm, List.mem_append_left _ (hvalues a ha)⟩)
  · obtain ⟨sm, hsm, hdefault, -⟩ := hmember y hy
    refine hliterals _ (List.mem_flatMap.mpr ⟨sm, hsm, List.mem_append_right _ ?_⟩)
    rw [← hdefault, hl]
    exact List.mem_singleton_self l
  · obtain rfl : body = .newtype t (some l) := hl
    have hbody := Resolve.resolveBody_eq_ok_iff.mp hbody
    generalize d.body = b at hbody hnewtype
    cases hbody
    exact hnewtype l (List.mem_singleton_self l)

/-- The literals in a resolved set are those that are written in the modules. -/
theorem Resolved.literalsFit (h : Resolved modules set)
    (hfit : ∀ m ∈ modules, ∀ d ∈ m.decls, ∀ l ∈ d.literals, l.Fits) (id : DeclId) :
    (set.decl id).LiteralsFit := by
  cases hx : set.decls[id]? with
  | none =>
    rw [ModuleSet.decl, hx, Option.getD_none]
    exact ⟨fun _ h => absurd h List.not_mem_nil, fun _ h => absurd h List.not_mem_nil,
      fun _ h => absurd h List.not_mem_nil, fun _ _ h => by cases h⟩
  | some x =>
    obtain ⟨m, d, hplace, hr⟩ := h.place_of_decls hx
    obtain ⟨hm, hd⟩ := Resolve.mem_places_iff.mp (List.mem_of_getElem? hplace)
    rw [ModuleSet.decl_of_getElem? hx]
    exact literalsFit_of_resolveDecl hr (hfit m hm d hd)

/-! ### Canonical literals -/

/-- A property that literals have just if their parts have it, where an integer has it if it has 64
bits, signed or not. -/
structure Literal.Hereditary (P : Literal → Prop) : Prop where
  null : P .null
  integer {i : Int} (hle : -2 ^ 63 ≤ i) (hlt : i < 2 ^ 64) : P (.integer i)
  double (d : Double) : P (.double d)
  string (s : String) : P (.string s)
  boolean (b : Bool) : P (.boolean b)
  array {items : List Literal} : P (.array items) ↔ ∀ l ∈ items, P l
  object {entries : List (String × Literal)} : P (.object entries) ↔ ∀ e ∈ entries, P e.2

theorem Literal.hereditary_fits : Hereditary Fits where
  null := .null
  integer hle hlt := .integer (by omega) (by omega)
  double := .double
  string := .string
  boolean := .boolean
  array := ⟨fun h => by cases h with | array h => exact h, .array⟩
  object := ⟨fun h => by cases h with | object h => exact h, .object⟩

section

variable {P : Literal → Prop} (hP : Literal.Hereditary P)

include hP

theorem DenotesScalar.hereditary {p : Primitive} {l : Literal} {v : Value}
    (h : DenotesScalar p l v) (hl : P l) : P (v.toLiteral set) := by
  cases h with
  | void => exact hP.null
  | typeToken => exact hP.null
  | bool b => exact hP.boolean b
  | @int p bits i hp hle hlt =>
    have hpow : (2 : Int) ^ (bits - 1) ≤ 2 ^ 63 := by cases p <;> cases hp <;> decide
    exact hP.integer (by omega) (by omega)
  | @word p bits i hp hlt =>
    have hpow : 2 ^ bits ≤ 2 ^ 64 := by cases p <;> cases hp <;> decide
    exact hP.integer (by omega) (by omega)
  | float h => exact hP.double _
  | double d => exact hP.double d
  | floatOfInt i => exact hP.double _
  | doubleOfInt i => exact hP.double _
  | string s => exact hP.string s
  | byteVector h => exact hP.string _
  | json l => exact hl

variable (hdeclared : ∀ id, ∀ l ∈ (set.decl id).declared, P l)

include hdeclared

/-- The canonical literal of a value has the property if the literal that the value is read from and
the declared defaults have it. -/
theorem Denotes.hereditary {n : Nat} {l : Literal} {v : Value} {t : TypeExpr}
    (h : Denotes set n l v t) (hl : P l) : P (v.toLiteral set) := by
  induction h with
  | scalar _ h => exact h.hereditary hP hl
  | @vector n t elem rest items vs _ hlen _ ih =>
    have hitems := hP.array.mp hl
    rw [Value.toLiteral, Value.toLiterals_eq_map, hP.array, List.forall_mem_map]
    intro v hv
    obtain ⟨l, hmem⟩ := exists_mem_zip hlen hv
    exact ih l v hmem (hitems l (List.of_mem_zip hmem).1)
  | @stringMap n t elem rest entries vs _ _ heq _ ih =>
    have hentries := hP.object.mp hl
    rw [Value.toLiteral, Value.toEntries_eq_map, hP.object, List.forall_mem_map]
    intro w hw
    obtain ⟨e, hmem⟩ := exists_mem_zip (length_eq_of_map_eq heq) hw
    exact ih e w hmem (hentries e (List.of_mem_zip hmem).1)
  | absent => exact hP.null
  | present _ _ _ ih => exact ih hl
  | @struct n t id args types ms entries sources vs _ hbody htypes _ _ hsources hlen _ ih =>
    have hentries := hP.object.mp hl
    rw [Value.toLiteral, Value.toLiterals_eq_map, hP.object]
    intro e he
    obtain ⟨v, hv, hvalue⟩ := List.mem_map.mp (List.of_mem_zip he).2
    obtain ⟨i, hi⟩ := List.mem_iff_getElem?.mp hv
    obtain ⟨m, s, type, hm, hs, -, hmem⟩ := exists_fieldSource hbody htypes hsources hlen hi
    rw [← hvalue]
    refine ih s type v hmem ?_
    cases hs with
    | given h => exact hentries _ h
    | declared _ hd =>
      exact hdeclared id _ (Decl.mem_declared_of_struct hbody (List.mem_of_getElem? hm) hd)
  | @union n l payload v t type id args types ms index m _ _ _ hl' _ _ _ ih =>
    have hpayload : P payload := by
      rcases hl' with rfl | ⟨-, rfl⟩
      · exact hP.object.mp hl _ (List.mem_singleton_self _)
      · exact hP.null
    rw [Value.toLiteral]
    split
    · exact hP.string _
    · exact hP.object.mpr (List.forall_mem_singleton.mpr (ih hpayload))
  | enum => exact hP.string _
  | newtype _ _ _ _ _ ih => exact ih hl

/-- The canonical literals of the declared defaults have the property if these have it. -/
theorem DefaultsOf.hereditary {id : DeclId} {d : Decl} {defaults : Defaults}
    (h : DefaultsOf set id d d.body defaults) (hd : ∀ l ∈ d.declared, P l) {v : Value}
    (hv : v ∈ defaults.values) : P (v.toLiteral set) := by
  generalize hbody : d.body = body at h
  cases h with
  | @struct ms vs h =>
    obtain ⟨x, hx, hxv⟩ : ∃ x ∈ vs, x = some v := by
      simpa [Defaults.values] using hv
    obtain ⟨m, hm, hdefault⟩ := exists_of_forall₂ h hx
    subst hxv
    cases hdefault with
    | some hl hown =>
      exact hown.denotes.hereditary hP hdeclared (hd _ (Decl.mem_declared_of_struct hbody hm hl))
  | union ms => simp [Defaults.values] at hv
  | enum ms => simp [Defaults.values] at hv
  | newtype hown =>
    obtain rfl : v = .newtype id _ := by simpa [Defaults.values] using hv
    rw [Value.toLiteral]
    exact hown.denotes.hereditary hP hdeclared (hd _ (Decl.mem_declared_of_newtype hbody))
  | newtype_none t => simp [Defaults.values, Defaults.empty] at hv
  | «alias» t => simp [Defaults.values, Defaults.empty] at hv

end

/-- The canonical literals of the declared defaults have small integers. -/
theorem DefaultsOf.fits {id : DeclId} {d : Decl} {defaults : Defaults}
    (h : DefaultsOf set id d d.body defaults) (hset : ∀ id, (set.decl id).LiteralsFit)
    (hd : d.LiteralsFit) {v : Value} (hv : v ∈ defaults.values) : (v.toLiteral set).Fits :=
  h.hereditary Literal.hereditary_fits (fun id => (hset id).declared) hd.declared hv

end Adl
