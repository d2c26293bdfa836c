import Adl.Compile.Compilation
import Adl.Proofs.Base64
import Adl.Proofs.Number.Single
import Adl.Proofs.Value.Normalization

/-!
# Round trip — canonical literals denote the values they are made from

The canonical literal of a value that some literal denotes at a type denotes the same value at this
type (`Denotes.toLiteral`).  Nothing is left out of a canonical literal, so no default is read a
second time; the parts of a value that came from nested defaults are read where more of them may
be nested, which does no harm.

Integers are supposed to have at most 128 bits: those that are read at `Float` become doubles that
are written without loss, and that are finite in 32 bits.
-/

namespace Adl

/-- All integers in a literal have at most 128 bits. -/
inductive Literal.Fits : Literal → Prop
  | null : Fits .null
  | integer {i : Int} (hle : -(2 ^ 127) ≤ i) (hlt : i < 2 ^ 127) : Fits (.integer i)
  | double (d : Double) : Fits (.double d)
  | string (s : String) : Fits (.string s)
  | boolean (b : Bool) : Fits (.boolean b)
  | array {items : List Literal} (h : ∀ l ∈ items, Fits l) : Fits (.array items)
  | object {entries : List (String × Literal)} (h : ∀ e ∈ entries, Fits e.2) :
      Fits (.object entries)

/-- All integers in the declared defaults of fields have at most 128 bits. -/
def ModuleSet.DefaultsFit (set : ModuleSet) : Prop :=
  ∀ id, ∀ m ∈ (set.decl id).members, ∀ l, m.default = some l → l.Fits

variable {set : ModuleSet} {n : Nat} {l : Literal} {v : Value} {t : TypeExpr}

namespace Value

/-! ### Canonical literals -/

theorem memberName_eq {id : DeclId} {index : Nat} {ms : List Member} {m : Member}
    (hms : (set.decl id).members = ms) (hm : ms[index]? = some m) :
    memberName set id index = m.serializedName := by
  rw [memberName, hms, hm]
  rfl

end Value

/-- Only null has a null canonical literal. -/
theorem Denotes.toLiteral_eq_null_iff (h : Denotes set n l v t) :
    v.toLiteral set = .null ↔ l = .null := by
  induction h with
  | scalar _ h => cases h <;> simp [Value.toLiteral]
  | vector => simp [Value.toLiteral]
  | stringMap => simp [Value.toLiteral]
  | absent => simp [Value.toLiteral]
  | present _ _ _ ih => simpa only [Value.toLiteral] using ih
  | struct => simp [Value.toLiteral]
  | union _ _ _ hl =>
    rw [Value.toLiteral]
    rcases hl with rfl | ⟨rfl, -⟩ <;> split <;> simp
  | enum _ _ _ hl => rcases hl with rfl | rfl <;> simp [Value.toLiteral]
  | newtype _ _ _ _ _ ih => simpa only [Value.toLiteral] using ih

theorem DenotesScalar.toLiteral {p : Primitive} (h : DenotesScalar p l v) (hl : l.Fits) :
    DenotesScalar p (v.toLiteral set) v := by
  cases h with
  | void => exact .void
  | typeToken => exact .typeToken
  | bool b => exact .bool b
  | int hp hle hlt => exact .int hp hle hlt
  | word hp hlt => exact .word hp hlt
  | float h => exact .float h
  | double d => exact .double d
  | floatOfInt i =>
    cases hl with
    | integer hle hlt => exact .float (Double.ofInt_overflowsSingle hle hlt)
  | doubleOfInt i => exact .double _
  | string s => exact .string s
  | byteVector h => exact .byteVector (Base64.decode_encode _)
  | json => exact .json _

/-! ### Fields -/

theorem FieldSource.fst_le {entries : List (String × Literal)} {m : Member} {s : Nat × Literal}
    (h : FieldSource entries n m s) : s.1 ≤ n := by
  cases h with
  | given _ => exact Nat.le_refl _
  | declared _ _ => exact Nat.le_succ _

theorem FieldSource.fits {entries : List (String × Literal)} {m : Member} {s : Nat × Literal}
    (h : FieldSource entries n m s) (hentries : ∀ e ∈ entries, e.2.Fits)
    (hdefault : ∀ l, m.default = some l → l.Fits) : s.2.Fits := by
  cases h with
  | given h => exact hentries _ h
  | declared _ hd => exact hdefault _ hd

theorem Denotes.struct_toLiteral {id : DeclId} {args types : List TypeExpr} {ms : List Member}
    {entries : List (String × Literal)} {sources : List (Nat × Literal)} {vs : List Value}
    (hnames : set.DistinctNames) (ht : set.Expands t (.mk (.decl id) args))
    (hbody : (set.decl id).body = .struct ms) (htypes : set.BodyAt id args (.fields types))
    (hsources : List.Forall₂ (FieldSource entries n) ms sources) (hlen : vs.length = ms.length)
    (h : ∀ s type v, (s, type, v) ∈ sources.zip (types.zip vs) →
      Denotes set s.1 (v.toLiteral set) v type) :
    Denotes set n ((Value.struct id vs).toLiteral set) (.struct id vs) t := by
  have hms : (set.decl id).members = ms := by rw [Decl.members, hbody]
  have hnd := hnames id
  rw [hms] at hnd
  have hkeys : (((ms.map Member.serializedName).zip (vs.map (Value.toLiteral set))).map
      Prod.fst) = ms.map Member.serializedName :=
    List.map_fst_zip (by rw [List.length_map, List.length_map, hlen])
  have hsources' : List.Forall₂
      (FieldSource ((ms.map Member.serializedName).zip (vs.map (Value.toLiteral set))) n) ms
      (vs.map fun v => (n, v.toLiteral set)) := by
    refine forall₂_iff_getElem?.mpr ⟨by rw [List.length_map, hlen], ?_⟩
    intro i m s hm hs
    obtain ⟨v, hv, rfl⟩ := Option.map_eq_some_iff.mp ((List.getElem?_map ..).symm.trans hs)
    refine .given (mem_zip_iff.mpr ⟨i, ?_, ?_⟩)
    · rw [List.getElem?_map, hm, Option.map_some]
    · rw [List.getElem?_map, hv, Option.map_some]
  rw [Value.toLiteral, hms, Value.toLiterals_eq_map]
  refine .struct ht hbody htypes ?_ ?_ hsources' hlen ?_
  · rwa [hkeys]
  · rw [hkeys]
    exact fun _ hkey => hkey
  · intro s type v hmem
    obtain ⟨i, hs, htv⟩ := mem_zip_iff.mp hmem
    obtain ⟨htype, hv⟩ := List.getElem?_zip_eq_some.mp htv
    obtain ⟨v', hv', rfl⟩ := Option.map_eq_some_iff.mp ((List.getElem?_map ..).symm.trans hs)
    cases hv.symm.trans hv'
    -- The value may come from a default, where fewer defaults could be nested.
    obtain ⟨_, s, _, -, hs, htype', hmem⟩ := exists_fieldSource hbody htypes hsources hlen hv
    cases htype.symm.trans htype'
    obtain ⟨k, hk⟩ := Nat.exists_eq_add_of_le hs.fst_le
    rw [hk]
    exact (h s type v hmem).weaken k

/-- A canonical literal denotes the value that it is made from. -/
theorem Denotes.toLiteral (hnames : set.DistinctNames) (hdefaults : set.DefaultsFit)
    (h : Denotes set n l v t) (hl : l.Fits) : Denotes set n (v.toLiteral set) v t := by
  induction h with
  | scalar ht h => exact .scalar ht (h.toLiteral hl)
  | vector ht hlen _ ih =>
    cases hl with
    | array hitems =>
      rw [Value.toLiteral, Value.toLiterals_eq_map]
      refine .vector ht (List.length_map _) fun l v hmem => ?_
      obtain ⟨i, hi, hv⟩ := mem_zip_iff.mp hmem
      obtain ⟨l', hl'⟩ := exists_getElem?_of_length_eq hlen hv
      rw [List.getElem?_map, hv] at hi
      cases hi
      exact ih l' v (mem_zip_iff.mpr ⟨i, hl', hv⟩) (hitems l' (List.mem_of_getElem? hl'))
  | @stringMap n t elem rest entries vs ht hkeys heq _ ih =>
    cases hl with
    | object hentries =>
      have hlen : entries.length = vs.length := by
        rw [← List.length_map (f := Prod.fst), heq, List.length_map]
      have hfst : (vs.map fun e => (e.1, e.2.toLiteral set)).map Prod.fst = vs.map Prod.fst := by
        rw [List.map_map]
        rfl
      rw [Value.toLiteral, Value.toEntries_eq_map]
      refine .stringMap ht (by rwa [hfst, ← heq]) hfst fun e w hmem => ?_
      obtain ⟨i, hi, hw⟩ := mem_zip_iff.mp hmem
      obtain ⟨e', he'⟩ := exists_getElem?_of_length_eq hlen hw
      rw [List.getElem?_map, hw] at hi
      cases hi
      exact ih e' w (mem_zip_iff.mpr ⟨i, he', hw⟩) (hentries e' (List.mem_of_getElem? he'))
  | absent ht => exact .absent ht
  | present ht hnull h ih =>
    refine .present ht ?_ (ih hl)
    exact fun hnull' => hnull (h.toLiteral_eq_null_iff.mp hnull')
  | @struct n t id args types ms entries sources vs ht hbody htypes hkeys hknown hsources hlen _
      ih =>
    cases hl with
    | object hentries =>
      refine struct_toLiteral hnames ht hbody htypes hsources hlen fun s type v hmem => ?_
      obtain ⟨m, hm, hs⟩ := exists_of_forall₂ hsources (List.of_mem_zip hmem).1
      have hm' : m ∈ (set.decl id).members := by rwa [Decl.members, hbody]
      exact ih s type v hmem (hs.fits hentries (hdefaults id m hm'))
  | @union n l payload v t type id args types ms index m ht hbody hm hl' htypes htype h ih =>
    have hname : Value.memberName set id index = m.serializedName :=
      Value.memberName_eq (by rw [Decl.members, hbody]) hm
    have hpayload : payload.Fits := by
      rcases hl' with rfl | ⟨-, rfl⟩
      · cases hl with
        | object hentries => exact hentries _ (List.mem_singleton_self _)
      · exact .null
    rw [Value.toLiteral, hname]
    by_cases hvoid : v.isVoid
    · rw [if_pos hvoid]
      have hnull : v.toLiteral set = .null := by
        cases v <;> first | rfl | cases hvoid
      exact .union ht hbody hm (.inr ⟨rfl, hnull⟩) htypes htype (ih hpayload)
    · rw [if_neg hvoid]
      exact .union ht hbody hm (.inl rfl) htypes htype (ih hpayload)
  | @enum n l t id args ms index m ht hbody hm _ =>
    have hname : Value.memberName set id index = m.serializedName :=
      Value.memberName_eq (by rw [Decl.members, hbody]) hm
    rw [Value.toLiteral, hname]
    exact .enum ht hbody hm (.inl rfl)
  | newtype ht hbody htarget _ hu ih => exact .newtype ht hbody htarget (ih hl) hu

/-! ### Resolved sets -/

/-- The defaults of a resolved set are those that are written in the modules. -/
theorem Resolved.defaultsFit {modules : List Source.Module} (hset : Resolved modules set)
    (hfit : ∀ m ∈ modules, ∀ d ∈ m.decls, ∀ f ∈ d.members, ∀ l, f.default = some l → l.Fits) :
    set.DefaultsFit := by
  intro id f hf l hl
  cases hx : set.decls[id]? with
  | none => simp [ModuleSet.decl, hx, Decl.members, default] at hf
  | some x =>
    obtain ⟨m, d, hplace, hr⟩ := hset.place_of_decls hx
    obtain ⟨hm, hd⟩ := Resolve.mem_places_iff.mp (List.mem_of_getElem? hplace)
    rw [ModuleSet.decl, hx, Option.getD_some] at hf
    obtain ⟨sf, hsf, hr⟩ := exists_of_forall₂ (Resolve.members_of_resolveDecl hr) hf
    obtain ⟨type, -, rfl⟩ := Resolve.resolveMember_eq_ok_iff.mp hr
    exact hfit m hm d hd sf hsf l hl

namespace Graph

variable {modules : List Source.Module} {location location' : Location}

/-- The canonical literal of the value of a literal has the same value.  So two literals that have
values have the same canonical literal just if they have the same value, and the canonical literal
of a canonical literal is the literal itself. -/
theorem normalize_toLiteral (hset : ModuleSet.resolve modules = .ok set)
    (hfit : ∀ m ∈ modules, ∀ d ∈ m.decls, ∀ f ∈ d.members, ∀ l, f.default = some l → l.Fits)
    (hl : l.Fits) (h : ((plain set).normalize l t location).run = .ok v) :
    ((plain set).normalize (v.toLiteral set) t location').run = .ok v ∧
      (∀ l' v', l'.Fits → ((plain set).normalize l' t location').run = .ok v' →
        (v'.toLiteral set = v.toLiteral set ↔ v' = v)) ∧
      ∀ c : Compilation, c.set = set → c.canonicalLiteral t l = .ok (v.toLiteral set) ∧
        c.canonicalLiteral t (v.toLiteral set) = .ok (v.toLiteral set) := by
  have hresolved := resolve_eq_ok_iff.mp hset
  have hnames := hresolved.distinctNames
  -- The canonical literal of any value that is read at `t` is read as this value, anywhere.
  have again : ∀ {l v location} location', l.Fits →
      ((plain set).normalize l t location).run = .ok v →
        ((plain set).normalize (v.toLiteral set) t location').run = .ok v := by
    intro l v location location' hl h
    have hdenotes := (yields_normalize_iff hnames).mp h
    exact (yields_normalize_iff hnames).mpr
      (hdenotes.toLiteral hnames (hresolved.defaultsFit hfit) hl)
  refine ⟨again location' hl h, ?_, ?_⟩
  · intro l' v' hl' h'
    constructor
    · intro heq
      have hv' := again location' hl' h'
      rw [heq] at hv'
      exact Except.ok.inj (hv'.symm.trans (again location' hl h))
    · rintro rfl
      rfl
  · rintro c rfl
    have canonical : ∀ {l}, (∀ location, ((plain c.set).normalize l t location).run = .ok v) →
        c.canonicalLiteral t l = .ok (v.toLiteral c.set) := by
      intro l hl
      exact bind_pure_eq_ok_iff.mpr ⟨v, hl _, rfl⟩
    refine ⟨canonical fun location => ?_, canonical fun location => again location hl h⟩
    exact (yields_normalize_iff hnames).mpr ((yields_normalize_iff hnames).mp h)

/-- The point that is completed by the default of `y` is read again from its own literal. -/
theorem point_toLiteral :
    ModuleSet.resolve [pointModule] = .ok pointSet ∧
      (∀ m ∈ [pointModule], ∀ d ∈ m.decls, ∀ f ∈ d.members, ∀ l, f.default = some l → l.Fits) ∧
      (Literal.object [("x", .integer 1)]).Fits ∧
      ((plain pointSet).normalize (.object [("x", .integer 1)]) (.mk (.decl 0) [])
        (.ofModule "geometry")).run = .ok (.struct 0 [.int 1, .int 7]) ∧
      ((plain pointSet).normalize ((Value.struct 0 [.int 1, .int 7]).toLiteral pointSet)
        (.mk (.decl 0) []) (.ofModule "drawing")).run = .ok (.struct 0 [.int 1, .int 7]) := by
  have hset : ModuleSet.resolve [pointModule] = .ok pointSet := rfl
  have hfit : ∀ m ∈ [pointModule], ∀ d ∈ m.decls, ∀ f ∈ d.members, ∀ l, f.default = some l →
      l.Fits := by
    intro m hm d hd f hf l hl
    cases List.mem_singleton.mp hm
    cases List.mem_singleton.mp hd
    simp only [Source.Decl.members, List.mem_cons, List.not_mem_nil, or_false] at hf
    rcases hf with rfl | rfl
    · cases hl
    · cases hl
      exact .integer (by decide) (by decide)
  have hl : (Literal.object [("x", .integer 1)]).Fits := by
    refine .object fun e he => ?_
    cases List.mem_singleton.mp he
    exact .integer (by decide) (by decide)
  have hvalue : ((plain pointSet).normalize (.object [("x", .integer 1)]) (.mk (.decl 0) [])
      (.ofModule "geometry")).run = .ok (.struct 0 [.int 1, .int 7]) := by cbv
  exact ⟨hset, hfit, hl, hvalue, (normalize_toLiteral hset hfit hl hvalue).1⟩

end Graph

end Adl
