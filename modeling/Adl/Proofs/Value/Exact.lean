import Adl.Proofs.Value.Distinct
import Adl.Proofs.Value.Fits

/-!
# Exact — where canonical literals repeat what is written

What is written at an integer type or at `Json` stands unchanged in the canonical literal of the
value, at the same place (`Denotes.at?_eq`).  A place is a path of items and keys.  The types on the
way are those of items, entries, fields and alternatives (`ModuleSet.Slot`); `Nullable` and newtypes
hand a literal on to another type, and a field that is left out stands for its declared default,
where the path into what is written begins again (`ModuleSet.StandsAt`).  The casts to 64 bits with
which an integer is read keep its value (`Normalize.scalar_exact`).
-/

namespace Adl

/-! ### Casts -/

/-- The integer that a value is. -/
def Value.integer? : Value → Option Int
  | .int i => some i
  | .word n => some n
  | _ => none

namespace Normalize

/-- An integer after the cast to 64 bits that its range asks for, signed if there are negative
integers in the range. -/
def narrowed (range : Int × Int) (i : Int) : Value :=
  if range.1 < 0 then .int (Int64.ofInt i).toInt else .word (UInt64.ofInt i).toNat

/-- All integer types have at most 64 bits, signed or not. -/
theorem bounds_of_range? {p : Primitive} {range : Int × Int} (hp : p.range? = some range) :
    range.1 < 0 ∧ -2 ^ 63 ≤ range.1 ∧ range.2 < 2 ^ 63 ∨ range.1 = 0 ∧ range.2 < 2 ^ 64 := by
  cases p <;> cases hp <;> decide

/-- What is read at an integer type is an integer, and the cast to 64 bits keeps its value. -/
theorem scalar_exact {p : Primitive} {range : Int × Int} {l : Literal} {v : Value}
    (hp : p.range? = some range) (h : scalar p l = .ok v) :
    ∃ i, l = .integer i ∧ v = narrowed range i ∧ v.integer? = some i := by
  have hbounds := bounds_of_range? hp
  unfold scalar at h
  rw [hp] at h
  dsimp only at h
  unfold integer at h
  split at h
  · next i =>
    split at h
    · next hi =>
      refine ⟨i, rfl, ?_⟩
      rw [narrowed]
      split at h
      · next hneg =>
        cases h
        have hcast : (Int64.ofInt i).toInt = i := Int64.toInt_ofInt_of_le (by omega) (by omega)
        rw [if_pos hneg, hcast]
        exact ⟨rfl, rfl⟩
      · next hneg =>
        cases h
        have hcast : (UInt64.ofInt i).toNat = i.toNat := by
          rw [UInt64.ofInt, UInt64.toNat_ofNat']
          omega
        rw [if_neg hneg, hcast, Value.integer?, Int.toNat_of_nonneg (by omega)]
        exact ⟨rfl, rfl⟩
    · cases h
  · cases h

end Normalize

/-! ### Places -/

namespace Literal

/-- The way to a part of a literal: to an item by its index, to an entry by its key. -/
inductive Step where
  | item (index : Nat)
  | key (name : String)
  deriving DecidableEq

/-- The part that a step leads to; of several entries with one key, the first. -/
def part? : Step → Literal → Option Literal
  | .item index, .array items => items[index]?
  | .key name, .object entries => entries.lookup name
  | _, _ => none

/-- The part at the end of a path. -/
def at? : List Step → Literal → Option Literal
  | [], l => some l
  | s :: path, l => (l.part? s).bind (at? path)

variable {l x : Literal} {s : Step} {path : List Step}

/-- A path behind a path is followed from the part where the first one ends. -/
theorem at?_append {inner : List Step} (h : l.at? path = some x) :
    l.at? (path ++ inner) = x.at? inner := by
  induction path generalizing l with
  | nil =>
    cases h
    rfl
  | cons s path ih =>
    obtain ⟨y, hy, hrest⟩ := Option.bind_eq_some_iff.mp h
    rw [List.cons_append, at?, hy, Option.bind_some]
    exact ih hrest

theorem at?_concat (h : l.at? path = some x) : l.at? (path ++ [s]) = x.part? s :=
  (at?_append h).trans (Option.bind_fun_some _)

theorem part?_null : null.part? s = none := by cases s <;> rfl

theorem part?_item_eq_some_iff {index : Nat} :
    l.part? (.item index) = some x ↔ ∃ items, l = .array items ∧ items[index]? = some x := by
  cases l <;> simp [part?]

theorem part?_key_eq_some_iff {name : String} : l.part? (.key name) = some x ↔
    ∃ entries, l = .object entries ∧ entries.lookup name = some x := by
  cases l <;> simp [part?]

end Literal

open Literal (Step)

namespace ModuleSet

variable (set : ModuleSet)

/-- A part of a literal of one type has another type, if it is where a step leads to. -/
inductive Slot : TypeExpr → Step → TypeExpr → Prop
  | item {t elem : TypeExpr} {rest : List TypeExpr} (index : Nat)
      (ht : set.Expands t (.mk (.primitive .vector) (elem :: rest))) : Slot t (.item index) elem
  | entry {t elem : TypeExpr} {rest : List TypeExpr} (name : String)
      (ht : set.Expands t (.mk (.primitive .stringMap) (elem :: rest))) : Slot t (.key name) elem
  | member {t type : TypeExpr} {id : DeclId} {args types : List TypeExpr} {ms : List Member}
      {i : Nat} {m : Member} (ht : set.Expands t (.mk (.decl id) args))
      (hbody : (set.decl id).body = .struct ms ∨ (set.decl id).body = .union ms)
      (htypes : set.BodyAt id args (.fields types)) (hm : ms[i]? = some m)
      (htype : types[i]? = some type) : Slot t (.key m.serializedName) type

/-- In what is read from the literal `l` at the type `t`: at the end of a path, a literal stands for
a value of a type.  It is written in `l`, or in a declared default, at the end of a path of its
own. -/
inductive StandsAt (l : Literal) (t : TypeExpr) :
    List Step → Literal × List Step → Literal → TypeExpr → Prop
  | here : StandsAt l t [] (l, []) l t
  | part {path inner : List Step} {written x y : Literal} {u u' : TypeExpr} {s : Step}
      (h : StandsAt l t path (written, inner) x u) (hs : set.Slot u s u')
      (hy : x.part? s = some y) : StandsAt l t (path ++ [s]) (written, inner ++ [s]) y u'
  | present {path : List Step} {origin : Literal × List Step} {x : Literal} {u elem : TypeExpr}
      {rest : List TypeExpr} (h : StandsAt l t path origin x u)
      (hu : set.Expands u (.mk (.primitive .nullable) (elem :: rest))) (hx : x ≠ .null) :
      StandsAt l t path origin x elem
  | target {path : List Step} {origin : Literal × List Step} {x : Literal} {u type : TypeExpr}
      {id : DeclId} {args : List TypeExpr} (h : StandsAt l t path origin x u)
      (hu : set.Expands u (.mk (.decl id) args)) (htarget : set.BodyAt id args (.target type)) :
      StandsAt l t path origin x type
  | completed {path : List Step} {origin : Literal × List Step}
      {entries : List (String × Literal)} {declared : Literal} {u type : TypeExpr} {id : DeclId}
      {args types : List TypeExpr} {ms : List Member} {i : Nat} {m : Member}
      (h : StandsAt l t path origin (.object entries) u)
      (hu : set.Expands u (.mk (.decl id) args)) (hbody : (set.decl id).body = .struct ms)
      (htypes : set.BodyAt id args (.fields types)) (hm : ms[i]? = some m)
      (htype : types[i]? = some type) (hleft : entries.lookup m.serializedName = none)
      (hdeclared : m.default = some declared) :
      StandsAt l t (path ++ [.key m.serializedName]) (declared, []) declared type

variable {set} {l x : Literal} {t u : TypeExpr} {path : List Step} {o : Literal × List Step}

/-- What stands at a place is written at the place that it comes from: at the same place of the
literal, or in a declared default. -/
theorem StandsAt.origin (h : set.StandsAt l t path o x u) :
    o.1.at? o.2 = some x ∧ (o = (l, path) ∨ ∃ id, o.1 ∈ (set.decl id).declared) := by
  induction h with
  | here => exact ⟨rfl, .inl rfl⟩
  | part _ _ hy ih =>
    refine ⟨(Literal.at?_concat ih.1).trans hy, ih.2.imp_left fun heq => ?_⟩
    cases heq
    rfl
  | present _ _ _ ih => exact ih
  | target _ _ _ ih => exact ih
  | completed _ _ hbody _ hm _ _ hdeclared =>
    exact ⟨rfl, .inr ⟨_, Decl.mem_declared_of_struct hbody (List.mem_of_getElem? hm) hdeclared⟩⟩

end ModuleSet

/-! ### What is read at a place -/

/-- What is read at an integer type or at `Json` is repeated in canonical literals. -/
def Primitive.Verbatim (p : Primitive) : Prop := p.range?.isSome ∨ p = .json

section

variable {set : ModuleSet} {n : Nat} {l x y : Literal} {t u u' : TypeExpr} {v w : Value} {s : Step}
  {path : List Step} {o : Literal × List Step} {p : Primitive} {id : DeclId}
  {args types : List TypeExpr} {ms : List Member} {i : Nat} {m : Member} {type : TypeExpr}
  {entries : List (String × Literal)}

/-- Only null denotes void. -/
theorem Denotes.eq_null_of_void (h : Denotes set n l .void t) : l = .null := by
  cases h with
  | scalar _ h => cases h <;> rfl

/-- The canonical literal of what is read at an integer type or at `Json` is what is read. -/
theorem Denotes.toLiteral_eq (h : Denotes set n x w u)
    (hu : set.Expands u (.mk (.primitive p) args)) (hp : p.Verbatim) :
    w ≠ .void ∧ w.toLiteral set = x := by
  cases h with
  | scalar hu' h =>
    cases hu.unique hu'
    cases h with
    | int | word | json => exact ⟨Value.noConfusion, rfl⟩
    | _ => rcases hp with hp | hp <;> cases hp
  | struct hu' | union hu' | enum hu' | newtype hu' => cases hu.unique hu'
  | vector hu' | stringMap hu' | absent hu' | present hu' =>
    cases hu.unique hu'
    rcases hp with hp | hp <;> cases hp

variable (hnames : set.DistinctNames)

include hnames

/-- Every field of a struct is in the canonical literal of its value. -/
theorem Denotes.exists_field (h : Denotes set n (.object entries) w u)
    (hu : set.Expands u (.mk (.decl id) args)) (hbody : (set.decl id).body = .struct ms)
    (htypes : set.BodyAt id args (.fields types)) (hm : ms[i]? = some m)
    (htype : types[i]? = some type) :
    ∃ s w', (entries.map Prod.fst).Nodup ∧ FieldSource entries n m s ∧
      Denotes set s.1 s.2 w' type ∧
        (w.toLiteral set).part? (.key m.serializedName) = some (w'.toLiteral set) := by
  have hshape := h.shape hu
  simp only [ModuleSet.Shape, TypeExpr.head, hbody] at hshape
  obtain ⟨vs, rfl, hlen⟩ := hshape
  cases h with
  | scalar _ hs => cases hs
  | struct hu' hbody' htypes' hkeys _ hsources _ hfields =>
    cases hu.unique hu'
    cases hbody.symm.trans hbody'
    cases htypes.unique htypes'
    obtain ⟨w', hw'⟩ := exists_getElem?_of_length_eq hlen hm
    obtain ⟨m', s, type', hm', hs, htype', hmem⟩ :=
      exists_fieldSource hbody htypes hsources hlen hw'
    cases hm.symm.trans hm'
    cases htype.symm.trans htype'
    refine ⟨s, w', hkeys, hs, hfields s type w' hmem, ?_⟩
    have hmembers : (set.decl id).members = ms := by rw [Decl.members, hbody]
    have hnd := hnames id
    rw [hmembers] at hnd
    rw [Value.toLiteral, Value.toLiterals_eq_map, hmembers, Literal.part?]
    refine lookup_of_mem ?_ (mem_zip_iff.mpr ⟨i, ?_, ?_⟩)
    · rwa [List.map_fst_zip]
      rw [List.length_map, List.length_map, hlen]
    · rw [List.getElem?_map, hm, Option.map_some]
    · rw [List.getElem?_map, hw', Option.map_some]

/-- The alternative of a union is in the canonical literal of its value, unless it is void. -/
theorem Denotes.exists_payload (h : Denotes set n (.object entries) w u)
    (hu : set.Expands u (.mk (.decl id) args)) (hbody : (set.decl id).body = .union ms)
    (htypes : set.BodyAt id args (.fields types)) (hm : ms[i]? = some m)
    (htype : types[i]? = some type) (hy : entries.lookup m.serializedName = some y) :
    ∃ w', Denotes set n y w' type ∧ (w' = .void ∨
      (w.toLiteral set).part? (.key m.serializedName) = some (w'.toLiteral set)) := by
  have hshape := h.shape hu
  simp only [ModuleSet.Shape, TypeExpr.head, hbody] at hshape
  obtain ⟨index, m', w', rfl, hm'⟩ := hshape
  cases h with
  | scalar _ hs => cases hs
  | @union _ _ payload _ _ _ _ _ _ _ _ m'' hu' hbody' hm'' hl htypes' htype' hw' =>
    cases hu.unique hu'
    cases hbody.symm.trans hbody'
    cases htypes.unique htypes'
    cases hm'.symm.trans hm''
    have hmembers : (set.decl id).members = ms := by rw [Decl.members, hbody]
    have hnd := hnames id
    rw [hmembers] at hnd
    -- The only entry is that of the alternative, whose name no other one has.
    rcases hl with hl | ⟨hl, -⟩
    · cases hl
      have hentry := mem_of_lookup hy
      rw [List.mem_singleton, Prod.mk.injEq] at hentry
      obtain ⟨hname, rfl⟩ := hentry
      have hindex := Normalize.memberIndex?_of_getElem? hnd hm
      rw [hname, Normalize.memberIndex?_of_getElem? hnd hm''] at hindex
      cases hindex
      cases htype.symm.trans htype'
      refine ⟨w', hw', ?_⟩
      cases hvoid : w'.isVoid with
      | true =>
        cases w' <;> cases hvoid
        exact .inl rfl
      | false =>
        right
        rw [Value.toLiteral, hvoid, if_neg Bool.false_ne_true, Value.memberName_eq hmembers hm'',
          hname, Literal.part?, List.lookup_cons_self]
    · cases hl

/-- What is written at a step into a literal denotes a value, whose canonical literal is there in
that of the whole, unless it is void. -/
theorem Denotes.part? (h : Denotes set n x w u) (hs : set.Slot u s u') (hy : x.part? s = some y) :
    ∃ k w', Denotes set k y w' u' ∧
      (w' = .void ∨ (w.toLiteral set).part? s = some (w'.toLiteral set)) := by
  cases hs with
  | item index hu =>
    obtain ⟨items, rfl, hitem⟩ := Literal.part?_item_eq_some_iff.mp hy
    obtain ⟨vs, rfl⟩ := h.shape hu
    cases h with
    | scalar _ hs => cases hs
    | vector hu' hlen hitems =>
      cases hu.unique hu'
      obtain ⟨w', hw'⟩ := exists_getElem?_of_length_eq hlen.symm hitem
      refine ⟨n, w', hitems y w' (mem_zip_iff.mpr ⟨index, hitem, hw'⟩), .inr ?_⟩
      rw [Value.toLiteral, Value.toLiterals_eq_map, Literal.part?, List.getElem?_map, hw',
        Option.map_some]
  | entry name hu =>
    obtain ⟨entries, rfl, hentry⟩ := Literal.part?_key_eq_some_iff.mp hy
    obtain ⟨vs, rfl, hnd⟩ := h.shape hu
    cases h with
    | scalar _ hs => cases hs
    | stringMap hu' _ heq hentries =>
      cases hu.unique hu'
      obtain ⟨index, hindex⟩ := List.mem_iff_getElem?.mp (mem_of_lookup hentry)
      obtain ⟨e, he⟩ := exists_getElem?_of_length_eq (length_eq_of_map_eq heq).symm hindex
      have hname : e.1 = name := by
        have h := congrArg (·[index]?) heq
        simpa [List.getElem?_map, hindex, he] using h.symm
      refine ⟨n, e.2, hentries _ e (mem_zip_iff.mpr ⟨index, hindex, he⟩), .inr ?_⟩
      rw [Value.toLiteral, Value.toEntries_eq_map, Literal.part?]
      refine lookup_of_mem ?_ (List.mem_map.mpr ⟨e, List.mem_of_getElem? he, by rw [hname]⟩)
      rwa [List.map_map]
  | member hu hbody htypes hm htype =>
    obtain ⟨entries, rfl, hentry⟩ := Literal.part?_key_eq_some_iff.mp hy
    rcases hbody with hbody | hbody
    · obtain ⟨s, w', hkeys, hs, hw', hpart⟩ := h.exists_field hnames hu hbody htypes hm htype
      cases hs with
      | given hmem =>
        cases hentry.symm.trans (lookup_of_mem hkeys hmem)
        exact ⟨_, w', hw', .inr hpart⟩
      | declared hnone => exact absurd (List.mem_map_of_mem (mem_of_lookup hentry)) hnone
    · obtain ⟨w', hw'⟩ := h.exists_payload hnames hu hbody htypes hm htype hentry
      exact ⟨n, w', hw'⟩

/-- What stands at a place denotes a value, whose canonical literal is at this place in that of the
whole, unless it is void. -/
theorem Denotes.at? (h : Denotes set n l v t) (hs : set.StandsAt l t path o x u) :
    ∃ k w, Denotes set k x w u ∧
      (w = .void ∨ (v.toLiteral set).at? path = some (w.toLiteral set)) := by
  induction hs with
  | here => exact ⟨n, v, h, .inr rfl⟩
  | part _ hs hy ih =>
    obtain ⟨k, w, hw, rfl | hat⟩ := ih
    · rw [hw.eq_null_of_void, Literal.part?_null] at hy
      cases hy
    obtain ⟨k', w', hw', hvoid | hpart⟩ := hw.part? hnames hs hy
    · exact ⟨k', w', hw', .inl hvoid⟩
    · exact ⟨k', w', hw', .inr ((Literal.at?_concat hat).trans hpart)⟩
  | present _ hu hx ih =>
    obtain ⟨k, w, hw, hat⟩ := ih
    rcases hw.shape hu with rfl | ⟨w', rfl, -⟩
    · cases hw with
      | scalar _ hs => cases hs
      | absent => exact absurd rfl hx
    · cases hw with
      | scalar _ hs => cases hs
      | present hu' _ hw' =>
        cases hu.unique hu'
        exact ⟨k, w', hw', .inr (hat.resolve_left Value.noConfusion)⟩
  | target _ hu htarget ih =>
    obtain ⟨k, w, hw, hat⟩ := ih
    cases hw with
    | newtype hu' _ htarget' hw' =>
      cases hu.unique hu'
      cases htarget.unique htarget'
      exact ⟨k, _, hw', .inr (hat.resolve_left Value.noConfusion)⟩
    | struct hu' _ htypes | union hu' _ _ _ htypes =>
      cases hu.unique hu'
      cases htarget.unique htypes
    | enum hu' hbody =>
      cases hu.unique hu'
      have heq := htarget.body_eq
      rw [hbody] at heq
      cases heq
    | scalar hu' | vector hu' | stringMap hu' | absent hu' | present hu' => cases hu.unique hu'
  | completed _ hu hbody htypes hm htype hleft hdeclared ih =>
    obtain ⟨k, w, hw, hat⟩ := ih
    obtain ⟨s, w', -, hs, hw', hpart⟩ := hw.exists_field hnames hu hbody htypes hm htype
    cases hs with
    | given hmem => exact absurd (List.mem_map_of_mem hmem) (not_mem_of_lookup_eq_none hleft)
    | declared _ hd =>
      cases hdeclared.symm.trans hd
      refine ⟨_, w', hw', .inr ?_⟩
      rcases hat with rfl | hat
      · cases hw.eq_null_of_void
      · exact (Literal.at?_concat hat).trans hpart

/-- What stands at a place of an integer type or of `Json` is at this place in the canonical literal
of the whole. -/
theorem Denotes.at?_eq (h : Denotes set n l v t) (hs : set.StandsAt l t path o x u)
    (hu : set.Expands u (.mk (.primitive p) args)) (hp : p.Verbatim) :
    (v.toLiteral set).at? path = some x := by
  obtain ⟨k, w, hw, hat⟩ := h.at? hnames hs
  obtain ⟨hne, heq⟩ := hw.toLiteral_eq hu hp
  rw [hat.resolve_left hne, heq]

end

end Adl
