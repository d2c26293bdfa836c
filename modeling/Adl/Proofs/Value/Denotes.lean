import Adl.Proofs.Types.Expansion
import Adl.Value.Normalize
import Mathlib.Algebra.Group.Int.Defs
import Mathlib.Algebra.Group.Nat.Defs

/-!
# Denotes — which value a literal stands for at a type

`Denotes set n l v t` says that the literal `l` is written for the value `v` of type `t`, where at
most `n` declared defaults are nested.  The rules follow the type with the aliases at its head
expanded.  They do not mention how a value is computed: a field says where it is read from
(`FieldSource`), items and entries are related one by one, and there is no rule for a type
parameter.
-/

namespace Adl

namespace Primitive

/-- The number of bits of a signed integer type. -/
def signedBits? : Primitive → Option Nat
  | int8 => some 8
  | int16 => some 16
  | int32 => some 32
  | int64 => some 64
  | _ => none

/-- The number of bits of an unsigned integer type. -/
def wordBits? : Primitive → Option Nat
  | word8 => some 8
  | word16 => some 16
  | word32 => some 32
  | word64 => some 64
  | _ => none

end Primitive

/-- What a primitive type that contains no other type reads. -/
inductive DenotesScalar : Primitive → Literal → Value → Prop
  | void : DenotesScalar .void .null .void
  | typeToken : DenotesScalar .typeToken .null .void
  | bool (b : Bool) : DenotesScalar .bool (.boolean b) (.bool b)
  | int {p : Primitive} {bits : Nat} {i : Int} (hp : p.signedBits? = some bits)
      (hle : -(2 ^ (bits - 1) : Int) ≤ i) (hlt : i < 2 ^ (bits - 1)) :
      DenotesScalar p (.integer i) (.int i)
  | word {p : Primitive} {bits i : Nat} (hp : p.wordBits? = some bits) (hlt : i < 2 ^ bits) :
      DenotesScalar p (.integer i) (.word i)
  | float {d : Double} (h : d.overflowsSingle = false) : DenotesScalar .float (.double d) (.float d)
  | double (d : Double) : DenotesScalar .double (.double d) (.float d)
  | floatOfInt (i : Int) : DenotesScalar .float (.integer i) (.float (Double.ofInt i))
  | doubleOfInt (i : Int) : DenotesScalar .double (.integer i) (.float (Double.ofInt i))
  | string (s : String) : DenotesScalar .string (.string s) (.string s)
  | byteVector {s : String} {bytes : List UInt8} (h : Base64.decode s = .ok bytes) :
      DenotesScalar .byteVector (.string s) (.bytes bytes)
  | json (l : Literal) : DenotesScalar .json l (.json l)

/-- Where a field is read from: from the entry of its serialized name, or else from its declared
default, where fewer defaults may be nested. -/
inductive FieldSource (entries : List (String × Literal)) : Nat → Member → Nat × Literal → Prop
  | given {n : Nat} {m : Member} {l : Literal} (h : (m.serializedName, l) ∈ entries) :
      FieldSource entries n m (n, l)
  | declared {n : Nat} {m : Member} {l : Literal} (h : m.serializedName ∉ entries.map Prod.fst)
      (hd : m.default = some l) : FieldSource entries (n + 1) m (n, l)

/-- What must be distinct about an item of a map: its first field, the key. -/
def Value.key : Value → Value
  | .struct _ (first :: _) => first
  | v => v

/-- Nothing is repeated in a value of a newtype of the prelude: no item of a set, no key of a
map. -/
def NothingRepeated (set : ModuleSet) (name : ScopedName) (inner : Value) : Prop :=
  ∀ items, inner = .vector items →
    (name = ⟨"sys.types", "Set"⟩ →
      items.Pairwise fun v w => ¬ (v.toLiteral set).same (w.toLiteral set)) ∧
    (name = ⟨"sys.types", "Map"⟩ →
      items.Pairwise fun v w => ¬ (v.key.toLiteral set).same (w.key.toLiteral set))

/-- The literal `l` denotes the value `v` at the type `t`, with at most `n` nested declared
defaults. -/
inductive Denotes (set : ModuleSet) : Nat → Literal → Value → TypeExpr → Prop
  | scalar {n : Nat} {l : Literal} {v : Value} {t : TypeExpr} {p : Primitive}
      {args : List TypeExpr} (ht : set.Expands t (.mk (.primitive p) args))
      (h : DenotesScalar p l v) : Denotes set n l v t
  | vector {n : Nat} {t elem : TypeExpr} {rest : List TypeExpr} {items : List Literal}
      {vs : List Value} (ht : set.Expands t (.mk (.primitive .vector) (elem :: rest)))
      (hlen : items.length = vs.length)
      (h : ∀ l v, (l, v) ∈ items.zip vs → Denotes set n l v elem) :
      Denotes set n (.array items) (.vector vs) t
  | stringMap {n : Nat} {t elem : TypeExpr} {rest : List TypeExpr}
      {entries : List (String × Literal)} {vs : List (String × Value)}
      (ht : set.Expands t (.mk (.primitive .stringMap) (elem :: rest)))
      (hkeys : (entries.map Prod.fst).Nodup) (heq : entries.map Prod.fst = vs.map Prod.fst)
      (h : ∀ e w, (e, w) ∈ entries.zip vs → Denotes set n e.2 w.2 elem) :
      Denotes set n (.object entries) (.stringMap vs) t
  | absent {n : Nat} {t : TypeExpr} {args : List TypeExpr}
      (ht : set.Expands t (.mk (.primitive .nullable) args)) : Denotes set n .null .absent t
  | present {n : Nat} {l : Literal} {v : Value} {t elem : TypeExpr} {rest : List TypeExpr}
      (ht : set.Expands t (.mk (.primitive .nullable) (elem :: rest))) (hl : l ≠ .null)
      (h : Denotes set n l v elem) : Denotes set n l (.present v) t
  | struct {n : Nat} {t : TypeExpr} {id : DeclId} {args types : List TypeExpr} {ms : List Member}
      {entries : List (String × Literal)} {sources : List (Nat × Literal)} {vs : List Value}
      (ht : set.Expands t (.mk (.decl id) args)) (hbody : (set.decl id).body = .struct ms)
      (htypes : set.BodyAt id args (.fields types)) (hkeys : (entries.map Prod.fst).Nodup)
      (hknown : ∀ key ∈ entries.map Prod.fst, key ∈ ms.map Member.serializedName)
      (hsources : List.Forall₂ (FieldSource entries n) ms sources) (hlen : vs.length = ms.length)
      (h : ∀ s type v, (s, type, v) ∈ sources.zip (types.zip vs) → Denotes set s.1 s.2 v type) :
      Denotes set n (.object entries) (.struct id vs) t
  | union {n : Nat} {l payload : Literal} {v : Value} {t type : TypeExpr} {id : DeclId}
      {args types : List TypeExpr} {ms : List Member} {index : Nat} {m : Member}
      (ht : set.Expands t (.mk (.decl id) args)) (hbody : (set.decl id).body = .union ms)
      (hm : ms[index]? = some m)
      (hl : l = .object [(m.serializedName, payload)] ∨
        l = .string m.serializedName ∧ payload = .null)
      (htypes : set.BodyAt id args (.fields types)) (htype : types[index]? = some type)
      (h : Denotes set n payload v type) : Denotes set n l (.union id index v) t
  | enum {n : Nat} {l : Literal} {t : TypeExpr} {id : DeclId} {args : List TypeExpr}
      {ms : List Member} {index : Nat} {m : Member} (ht : set.Expands t (.mk (.decl id) args))
      (hbody : (set.decl id).body = .enum ms) (hm : ms[index]? = some m)
      (hl : l = .string m.serializedName ∨ l = .object [(m.serializedName, .null)]) :
      Denotes set n l (.enum id index) t
  | newtype {n : Nat} {l : Literal} {v : Value} {t target type : TypeExpr} {id : DeclId}
      {args : List TypeExpr} {default : Option Literal}
      (ht : set.Expands t (.mk (.decl id) args))
      (hbody : (set.decl id).body = .newtype target default)
      (htarget : set.BodyAt id args (.target type)) (h : Denotes set n l v type)
      (hu : NothingRepeated set (set.scopedName id) v) : Denotes set n l (.newtype id v) t

/-! ### More nested defaults -/

theorem FieldSource.weaken {entries : List (String × Literal)} {n : Nat} {m : Member}
    {s : Nat × Literal} (h : FieldSource entries n m s) (k : Nat) :
    FieldSource entries (n + k) m (s.1 + k, s.2) := by
  cases h with
  | given h => exact .given h
  | declared h hd =>
    rw [Nat.add_right_comm]
    exact .declared h hd

/-- What a literal denotes, it also denotes where more declared defaults may be nested. -/
theorem Denotes.weaken {set : ModuleSet} {n : Nat} {l : Literal} {v : Value} {t : TypeExpr}
    (h : Denotes set n l v t) (k : Nat) : Denotes set (n + k) l v t := by
  induction h with
  | scalar ht h => exact .scalar ht h
  | vector ht hlen _ ih => exact .vector ht hlen ih
  | stringMap ht hkeys heq _ ih => exact .stringMap ht hkeys heq ih
  | absent ht => exact .absent ht
  | present ht hl _ ih => exact .present ht hl ih
  | @struct n _ _ _ _ ms entries sources _ ht hbody htypes hkeys hknown hsources hlen _ ih =>
    have hsources' : List.Forall₂ (FieldSource entries (n + k)) ms
        (sources.map fun s => (s.1 + k, s.2)) :=
      List.forall₂_map_right_iff.mpr (hsources.imp fun _ _ hs => hs.weaken k)
    refine .struct ht hbody htypes hkeys hknown hsources' hlen ?_
    intro s' type v hmem
    rw [List.zip_map_left, List.mem_map] at hmem
    obtain ⟨⟨s, tv⟩, hs, heq⟩ := hmem
    cases heq
    exact ih s type v hs
  | union ht hbody hm hl htypes htype _ ih => exact .union ht hbody hm hl htypes htype ih
  | enum ht hbody hm hl => exact .enum ht hbody hm hl
  | newtype ht hbody htarget _ hu ih => exact .newtype ht hbody htarget ih hu

end Adl
