import Adl.Proofs.Json.Reading
import Adl.Proofs.Value.RoundTrip
import Adl.Schema.Decode
import Adl.Schema.Encode

/-!
# Round trip — records are read back from their texts

Every part of a record is read back as it is, with one exception: a default with a number that is
not finite has no text, so the record that holds it cannot be read (`ofText?_toText`).
-/

namespace Adl

namespace Literal

mutual

/-- Whether all numbers in a literal are finite. -/
def finite : Literal → Bool
  | null => true
  | integer _ => true
  | double d => d.isFinite
  | string _ => true
  | boolean _ => true
  | array items => itemsFinite items
  | object entries => entriesFinite entries

/-- Whether all numbers in a list of literals are finite. -/
def itemsFinite : List Literal → Bool
  | [] => true
  | item :: items => finite item && itemsFinite items

/-- Whether all numbers in a list of entries are finite. -/
def entriesFinite : List (String × Literal) → Bool
  | [] => true
  | (_, value) :: entries => finite value && entriesFinite entries

end

theorem itemsFinite_eq_all (items : List Literal) : itemsFinite items = items.all finite := by
  induction items with
  | nil => rfl
  | cons item items ih => rw [itemsFinite, ih, List.all_cons]

theorem entriesFinite_eq_all (entries : List (String × Literal)) :
    entriesFinite entries = entries.all fun e => e.2.finite := by
  induction entries with
  | nil => rfl
  | cons e entries ih => rw [entriesFinite, ih, List.all_cons]

theorem taggedItems_eq_map (items : List Literal) : taggedItems items = items.map tagged := by
  induction items with
  | nil => rfl
  | cons item items ih => rw [taggedItems, ih, List.map_cons]

theorem taggedEntries_eq_map (entries : List (String × Literal)) :
    taggedEntries entries =
      entries.map fun e => .object [("v1", .string e.1), ("v2", tagged e.2)] := by
  induction entries with
  | nil => rfl
  | cons e entries ih => rw [taggedEntries, ih, List.map_cons]

end Literal

namespace Schema

open Json (Node Reading ReadableIn)

/-- What follows a step that succeeds goes on from its result. -/
theorem bind_of_eq_some {α β : Type} {o : Option α} {a : α} {f : α → Option β} (h : o = some a) :
    (o >>= f) = f a := by
  rw [h, Option.bind_eq_bind, Option.bind_some]

/-! ### Literals -/

theorem asInteger_node {i : Int} (hle : -(2 ^ 127) ≤ i) (hlt : i < 2 ^ 127) (n : Nat) :
    (Json.integer i).node.asInteger ⟨n, false⟩ = some i := by
  have hinteger : (Numeral.ofInt i).isInteger = true := rfl
  rw [Json.node, Node.asInteger, Numeral.toInt_ofInt]
  exact if_pos ⟨Bool.false_ne_true, hinteger, hle, hlt⟩

/-- A number is read back if it is finite, else its text is that of null. -/
theorem asDouble_node {d : Double} {n : Nat} (h : (Json.double d).ReadableIn n) :
    (Json.double d).node.asDouble = if d.isFinite then some d else none := by
  by_cases hd : d.isFinite
  · obtain ⟨m, -, hm, hnode⟩ :=
      Node.number_of_readsBack (h.readable d (List.mem_singleton_self d) hd)
    rw [hnode, Node.asDouble, hm, if_pos hd]
  · rw [if_neg hd, Json.node, Json.doubleText, if_neg hd]
    rfl

/-- An entry of an object literal is read back if its value is. -/
theorem decodeEntry_tagged {decode : Reading → Node → Option Literal} {n : Nat}
    {e : String × Literal}
    (h : (Json.object [("v1", .string e.1), ("v2", e.2.tagged)]).ReadableIn n)
    (hdecode : ∀ k < n, e.2.tagged.ReadableIn k →
      decode ⟨k, false⟩ e.2.tagged.node = if e.2.finite then some e.2 else none) :
    decodeEntry decode ⟨n, false⟩ (Json.object [("v1", .string e.1), ("v2", e.2.tagged)]).node =
      if e.2.finite then some e else none := by
  obtain ⟨k, hk, hparts, hrecord⟩ := Json.asRecord_node (by simp) h
  have hvalue := hdecode k hk (hparts ("v2", e.2.tagged) (by simp))
  rw [decodeEntry]
  simp only [List.map_cons, List.map_nil] at hrecord
  rw [hrecord]
  show (do return (e.1, ← decode ⟨k, false⟩ e.2.tagged.node)) = _
  rw [hvalue]
  cases e.2.finite <;> rfl

/-- A literal is read back if all numbers in it are finite. -/
theorem decodeLiteral_tagged {l : Literal} (hl : l.Fits) {fuel n : Nat} (hfuel : n < fuel)
    (h : l.tagged.ReadableIn n) :
    decodeLiteral fuel ⟨n, false⟩ l.tagged.node = if l.finite then some l else none := by
  induction hl generalizing fuel n with
    obtain ⟨fuel, rfl⟩ := Nat.exists_eq_add_of_le' (Nat.zero_lt_of_lt hfuel)
  | null =>
    obtain ⟨k, htag⟩ := Json.asTagged_bare literalKinds h
    rw [decodeLiteral, Literal.tagged, htag]
    rfl
  | @integer i hle hlt =>
    obtain ⟨k, hk, -, htag⟩ := Json.asTagged_tag literalKinds h
    rw [decodeLiteral, Literal.tagged, htag]
    show (do return Literal.integer (← (Json.integer i).node.asInteger ⟨k, false⟩)) = _
    rw [asInteger_node hle hlt]
    rfl
  | double d =>
    obtain ⟨k, hk, hvalue, htag⟩ := Json.asTagged_tag literalKinds h
    rw [decodeLiteral, Literal.tagged, htag]
    show (do return Literal.double (← (Json.double d).node.asDouble)) = _
    rw [asDouble_node hvalue, Literal.finite]
    cases d.isFinite <;> rfl
  | string s =>
    obtain ⟨k, hk, -, htag⟩ := Json.asTagged_tag literalKinds h
    rw [decodeLiteral, Literal.tagged, htag]
    rfl
  | boolean b =>
    obtain ⟨k, hk, -, htag⟩ := Json.asTagged_tag literalKinds h
    rw [decodeLiteral, Literal.tagged, htag]
    rfl
  | @array items _ ih =>
    obtain ⟨k, hk, hvalue, htag⟩ := Json.asTagged_tag literalKinds h
    obtain ⟨k', hk', hitems, harray⟩ := Json.asArray_node hvalue
    have hall : ∀ l ∈ items, decodeLiteral fuel ⟨k', false⟩ l.tagged.node =
        if l.finite then some l else none := by
      intro l hl
      refine ih l hl (by omega) (hitems _ ?_)
      rw [Literal.taggedItems_eq_map]
      exact List.mem_map_of_mem hl
    rw [decodeLiteral, Literal.tagged, htag]
    refine (bind_of_eq_some harray).trans ?_
    show (do return Literal.array (← ((Literal.taggedItems items).map Json.node).mapM
      (decodeLiteral fuel ⟨k', false⟩))) = _
    rw [Literal.taggedItems_eq_map, List.map_map,
      mapM_map_eq_ite (g := Json.node ∘ Literal.tagged) hall, Literal.finite,
      Literal.itemsFinite_eq_all]
    cases items.all Literal.finite <;> rfl
  | @object entries _ ih =>
    obtain ⟨k, hk, hvalue, htag⟩ := Json.asTagged_tag literalKinds h
    obtain ⟨k', hk', hitems, harray⟩ := Json.asArray_node hvalue
    let encode (e : String × Literal) : Json := .object [("v1", .string e.1), ("v2", e.2.tagged)]
    have hall : ∀ e ∈ entries, decodeEntry (decodeLiteral fuel) ⟨k', false⟩ (encode e).node =
        if e.2.finite then some e else none := by
      intro e he
      refine decodeEntry_tagged (hitems _ ?_) fun k'' hk'' => ih e he (by omega)
      rw [Literal.taggedEntries_eq_map]
      exact List.mem_map_of_mem he
    rw [decodeLiteral, Literal.tagged, htag]
    refine (bind_of_eq_some harray).trans ?_
    show (do return Literal.object (← ((Literal.taggedEntries entries).map Json.node).mapM
      (decodeEntry (decodeLiteral fuel) ⟨k', false⟩))) = _
    rw [Literal.taggedEntries_eq_map, List.map_map,
      mapM_map_eq_ite (g := Json.node ∘ encode) hall, Literal.finite,
      Literal.entriesFinite_eq_all]
    cases entries.all fun e => e.2.finite <;> rfl

/-! ### Names and types -/

theorem decodeName_encodeName {name : ScopedName} {n : Nat} (h : (encodeName name).ReadableIn n) :
    decodeName ⟨n, false⟩ (encodeName name).node = some name := by
  obtain ⟨k, -, -, hrecord⟩ := Json.asRecord_node (by simp) h
  simp only [List.map_cons, List.map_nil] at hrecord
  rw [decodeName, encodeName, hrecord]
  rfl

theorem decodeStrings_encodeStrings {names : List String} {n : Nat}
    (h : (encodeStrings names).ReadableIn n) :
    decodeStrings ⟨n, false⟩ (encodeStrings names).node = some names := by
  obtain ⟨k, -, -, harray⟩ := Json.asArray_node h
  simp only [decodeStrings, encodeStrings, harray, Option.bind_eq_bind, Option.bind_some]
  rw [List.map_map]
  exact mapM_map_eq_some fun _ _ => rfl

theorem TypeRef.decode_encode {head : TypeRef} {n : Nat} (h : head.encode.ReadableIn n) :
    TypeRef.decode ⟨n, false⟩ head.encode.node = some head := by
  cases head with
  | primitive name =>
    obtain ⟨k, -, -, htag⟩ := Json.asTagged_tag ["primitive", "typeParam", "reference"] h
    rw [TypeRef.decode, TypeRef.encode, htag]
    rfl
  | typeParam name =>
    obtain ⟨k, -, -, htag⟩ := Json.asTagged_tag ["primitive", "typeParam", "reference"] h
    rw [TypeRef.decode, TypeRef.encode, htag]
    rfl
  | reference name =>
    obtain ⟨k, -, hvalue, htag⟩ := Json.asTagged_tag ["primitive", "typeParam", "reference"] h
    rw [TypeRef.decode, TypeRef.encode, htag]
    show (do return TypeRef.reference (← decodeName ⟨k, false⟩ (encodeName name).node)) = _
    rw [decodeName_encodeName hvalue]
    rfl

/-- Induction on a type, where a property may be assumed of all parameters. -/
@[elab_as_elim, induction_eliminator]
theorem TypeExpr.ind {motive : TypeExpr → Prop}
    (mk : ∀ head parameters, (∀ t ∈ parameters, motive t) → motive (.mk head parameters))
    (t : TypeExpr) : motive t :=
  @TypeExpr.rec motive (fun ts => ∀ t ∈ ts, motive t) mk (fun _ h => nomatch h)
    (fun _ _ h hs _ ht => (List.mem_cons.mp ht).elim (fun e => e ▸ h) (hs _)) t

theorem encodeTypes_eq_map (ts : List TypeExpr) : encodeTypes ts = ts.map TypeExpr.encode := by
  induction ts with
  | nil => rfl
  | cons t ts ih => rw [encodeTypes, ih, List.map_cons]

theorem TypeExpr.decode_encode {t : TypeExpr} {fuel n : Nat} (hfuel : n < fuel)
    (h : t.encode.ReadableIn n) : TypeExpr.decode ⟨n, false⟩ fuel t.encode.node = some t := by
  induction t generalizing fuel n with
  | mk head parameters ih =>
    obtain ⟨fuel, rfl⟩ := Nat.exists_eq_add_of_le' (Nat.zero_lt_of_lt hfuel)
    obtain ⟨k, hk, hparts, hrecord⟩ := Json.asRecord_node (by simp) h
    simp only [List.map_cons, List.map_nil] at hrecord
    have hhead := hparts ("typeRef", head.encode) (by simp)
    have hparameters := hparts ("parameters", .array (encodeTypes parameters)) (by simp)
    obtain ⟨k', hk', hitems, harray⟩ := Json.asArray_node hparameters
    rw [TypeExpr.decode, TypeExpr.encode, hrecord]
    refine (bind_of_eq_some (TypeRef.decode_encode hhead)).trans ?_
    refine (bind_of_eq_some harray).trans ?_
    show (do return TypeExpr.mk head (← ((encodeTypes parameters).map Json.node).mapM
      (TypeExpr.decode ⟨k', false⟩ fuel))) = _
    rw [encodeTypes_eq_map] at hitems ⊢
    have hall : ∀ t ∈ parameters, TypeExpr.decode ⟨k', false⟩ fuel t.encode.node = some t :=
      fun t ht => ih t ht (by omega) (hitems _ (List.mem_map_of_mem ht))
    rw [List.map_map, mapM_map_eq_some (g := Json.node ∘ TypeExpr.encode) hall]
    rfl

/-! ### Optional values and annotations -/

theorem decodeOption_encodeOption {α : Type} {decode : Reading → Node → Option α}
    {encode : α → Json} {p : α → Bool} {o : Option α} {n : Nat}
    (h : (encodeOption (o.map encode)).ReadableIn n)
    (hdecode : ∀ a, o = some a → ∀ k < n, (encode a).ReadableIn k →
      decode ⟨k, false⟩ (encode a).node = if p a then some a else none) :
    decodeOption decode ⟨n, false⟩ (encodeOption (o.map encode)).node =
      if o.all p then some o else none := by
  cases o with
  | none =>
    obtain ⟨k, htag⟩ := Json.asTagged_bare ["nothing", "just"] h
    rw [decodeOption, Option.map_none, encodeOption, htag]
    rfl
  | some a =>
    obtain ⟨k, hk, hvalue, htag⟩ := Json.asTagged_tag ["nothing", "just"] h
    rw [decodeOption, Option.map_some, encodeOption, htag]
    show (do return some (← decode ⟨k, false⟩ (encode a).node)) = _
    rw [hdecode a rfl k hk hvalue, Option.all_some]
    cases p a <;> rfl

theorem decodeAnnotations_encodeAnnotations {annotations : Annotations} {n : Nat}
    (hannotations : ∀ a ∈ annotations, a.2.Canonical)
    (h : (encodeAnnotations annotations).ReadableIn n) :
    decodeAnnotations ⟨n, false⟩ (encodeAnnotations annotations).node = some annotations := by
  obtain ⟨k, -, hitems, harray⟩ := Json.asArray_node h
  simp only [decodeAnnotations, encodeAnnotations, harray, Option.bind_eq_bind, Option.bind_some]
  rw [List.map_map]
  refine mapM_map_eq_some fun a ha => ?_
  have hentry := hitems _ (List.mem_map_of_mem ha)
  obtain ⟨k', -, hparts, hrecord⟩ := Json.asRecord_node (by simp) hentry
  simp only [List.map_cons, List.map_nil] at hrecord
  have hkey := decodeName_encodeName (hparts ("v1", encodeName a.1) (by simp))
  have hvalue := Json.toJson?_node (hannotations a ha) (hparts ("v2", a.2) (by simp))
  rw [Function.comp_apply, decodeAnnotationEntry, hrecord]
  show (do return (← decodeName ⟨k', false⟩ (encodeName a.1).node,
    ← a.2.node.asJson ⟨k', false⟩)) = _
  rw [hkey]
  show (do return (a.1, ← a.2.node.toJson? k')) = _
  rw [hvalue]
  rfl

/-! ### Declarations -/

/-- The default of a field or newtype has 128-bit integers only. -/
def DefaultFits (default : Option Literal) : Prop := ∀ l, default = some l → l.Fits

/-- Whether all numbers in the default of a field are finite. -/
def Field.finite (f : Field) : Bool := f.default.all Literal.finite

/-- A field whose annotations are data, and whose default has 128-bit integers only. -/
structure Field.Sound (f : Field) : Prop where
  annotations : ∀ a ∈ f.annotations, a.2.Canonical
  default : DefaultFits f.default

/-- Whether all numbers in the defaults of a body are finite. -/
def Body.finite : Body → Bool
  | .struct _ fields => fields.all Field.finite
  | .union _ fields => fields.all Field.finite
  | .alias _ _ => true
  | .newtype _ _ default => default.all Literal.finite

/-- A body all of whose fields and defaults are sound. -/
def Body.Sound : Body → Prop
  | .struct _ fields => ∀ f ∈ fields, f.Sound
  | .union _ fields => ∀ f ∈ fields, f.Sound
  | .alias _ _ => True
  | .newtype _ _ default => DefaultFits default

/-- Whether all numbers in the defaults of a declaration are finite. -/
def Decl.finite (d : Decl) : Bool := d.body.finite

/-- A declaration that can be held in a record: its annotations are data, and its defaults have
128-bit integers only. -/
structure Decl.Sound (d : Decl) : Prop where
  annotations : ∀ a ∈ d.annotations, a.2.Canonical
  body : d.body.Sound

/-- A default is read back if all numbers in it are finite. -/
theorem decodeDefault {default : Option Literal} {n : Nat} (hn : n < nestingFuel)
    (hdefault : DefaultFits default)
    (h : (encodeOption (default.map Literal.tagged)).ReadableIn n) :
    decodeOption (decodeLiteral nestingFuel) ⟨n, false⟩
        (encodeOption (default.map Literal.tagged)).node =
      if default.all Literal.finite then some default else none :=
  decodeOption_encodeOption h fun l hl _ hk hread =>
    decodeLiteral_tagged (hdefault l hl) (hk.trans hn) hread

theorem Field.decode_encode {f : Field} {n : Nat} (hn : n < nestingFuel) (hf : f.Sound)
    (h : f.encode.ReadableIn n) :
    Field.decode ⟨n, false⟩ f.encode.node = if f.finite then some f else none := by
  obtain ⟨k, hk, hparts, hrecord⟩ := Json.asRecord_node (by simp) h
  simp only [List.map_cons, List.map_nil] at hrecord
  simp only [List.forall_mem_cons] at hparts
  obtain ⟨hannotations, -, hdefault, -, htype, -⟩ := hparts
  rw [Field.decode, Field.encode, hrecord]
  show (do
    let annotations ← decodeAnnotations ⟨k, false⟩ (encodeAnnotations f.annotations).node
    let default ← decodeOption (decodeLiteral nestingFuel) ⟨k, false⟩
      (encodeOption (f.default.map Literal.tagged)).node
    let typeExpr ← TypeExpr.decode ⟨k, false⟩ nestingFuel f.typeExpr.encode.node
    return Field.mk annotations f.serializedName default f.name typeExpr) = _
  rw [decodeAnnotations_encodeAnnotations hf.annotations hannotations,
    decodeDefault (hk.trans hn) hf.default hdefault,
    TypeExpr.decode_encode (hk.trans hn) htype, Field.finite]
  cases f.default.all Literal.finite <;> rfl

theorem decodeFields_encode {params : List String} {fields : List Field} {n : Nat}
    (hn : n < nestingFuel) (hfields : ∀ f ∈ fields, f.Sound)
    (h : (Json.object [("typeParams", encodeStrings params),
      ("fields", .array (fields.map Field.encode))]).ReadableIn n) :
    decodeFields ⟨n, false⟩ (Json.object [("typeParams", encodeStrings params),
      ("fields", .array (fields.map Field.encode))]).node =
        if fields.all Field.finite then some (params, fields) else none := by
  obtain ⟨k, hk, hparts, hrecord⟩ := Json.asRecord_node (by simp) h
  simp only [List.map_cons, List.map_nil] at hrecord
  simp only [List.forall_mem_cons] at hparts
  obtain ⟨hparams, harray, -⟩ := hparts
  obtain ⟨k', hk', hitems, hitemsEq⟩ := Json.asArray_node harray
  have hall : ∀ f ∈ fields, Field.decode ⟨k', false⟩ f.encode.node =
      if f.finite then some f else none := fun f hf =>
    Field.decode_encode (by omega) (hfields f hf) (hitems _ (List.mem_map_of_mem hf))
  rw [decodeFields, hrecord]
  refine (bind_of_eq_some (decodeStrings_encodeStrings hparams)).trans ?_
  refine (bind_of_eq_some hitemsEq).trans ?_
  show (do return (params, ← ((fields.map Field.encode).map Json.node).mapM
    (Field.decode ⟨k', false⟩))) = _
  rw [List.map_map, mapM_map_eq_ite (g := Json.node ∘ Field.encode) hall]
  cases fields.all Field.finite <;> rfl

theorem Body.decode_encode {b : Body} {n : Nat} (hn : n < nestingFuel) (hb : b.Sound)
    (h : b.encode.ReadableIn n) :
    Body.decode ⟨n, false⟩ b.encode.node = if b.finite then some b else none := by
  cases b with
  | struct params fields =>
    obtain ⟨k, hk, hvalue, htag⟩ := Json.asTagged_tag ["struct_", "union_", "type_", "newtype_"] h
    rw [Body.decode, Body.encode, htag]
    show (do
      let read ← decodeFields ⟨k, false⟩ (Json.object [
        ("typeParams", encodeStrings params), ("fields", .array (fields.map Field.encode))]).node
      return Body.struct read.1 read.2) = _
    rw [decodeFields_encode (hk.trans hn) hb hvalue, Body.finite]
    cases fields.all Field.finite <;> rfl
  | union params fields =>
    obtain ⟨k, hk, hvalue, htag⟩ := Json.asTagged_tag ["struct_", "union_", "type_", "newtype_"] h
    rw [Body.decode, Body.encode, htag]
    show (do
      let read ← decodeFields ⟨k, false⟩ (Json.object [
        ("typeParams", encodeStrings params), ("fields", .array (fields.map Field.encode))]).node
      return Body.union read.1 read.2) = _
    rw [decodeFields_encode (hk.trans hn) hb hvalue, Body.finite]
    cases fields.all Field.finite <;> rfl
  | «alias» params target =>
    obtain ⟨k, hk, hvalue, htag⟩ := Json.asTagged_tag ["struct_", "union_", "type_", "newtype_"] h
    obtain ⟨k', hk', hparts, hrecord⟩ := Json.asRecord_node (by simp) hvalue
    simp only [List.map_cons, List.map_nil] at hrecord
    simp only [List.forall_mem_cons] at hparts
    obtain ⟨hparams, htarget, -⟩ := hparts
    rw [Body.decode, Body.encode, htag]
    refine (bind_of_eq_some hrecord).trans ?_
    show (do
      let params ← decodeStrings ⟨k', false⟩ (encodeStrings params).node
      let target ← TypeExpr.decode ⟨k', false⟩ nestingFuel target.encode.node
      return Body.alias params target) = _
    rw [decodeStrings_encodeStrings hparams, TypeExpr.decode_encode (by omega) htarget]
    rfl
  | newtype params target default =>
    obtain ⟨k, hk, hvalue, htag⟩ := Json.asTagged_tag ["struct_", "union_", "type_", "newtype_"] h
    obtain ⟨k', hk', hparts, hrecord⟩ := Json.asRecord_node (by simp) hvalue
    simp only [List.map_cons, List.map_nil] at hrecord
    simp only [List.forall_mem_cons] at hparts
    obtain ⟨hparams, htarget, hdefault, -⟩ := hparts
    rw [Body.decode, Body.encode, htag]
    refine (bind_of_eq_some hrecord).trans ?_
    show (do
      let params ← decodeStrings ⟨k', false⟩ (encodeStrings params).node
      let target ← TypeExpr.decode ⟨k', false⟩ nestingFuel target.encode.node
      let default ← decodeOption (decodeLiteral nestingFuel) ⟨k', false⟩
        (encodeOption (default.map Literal.tagged)).node
      return Body.newtype params target default) = _
    rw [decodeStrings_encodeStrings hparams, TypeExpr.decode_encode (by omega) htarget,
      decodeDefault (by omega) hb hdefault, Body.finite]
    cases default.all Literal.finite <;> rfl

theorem decodeVersion_node (v : UInt32) (r : Reading) :
    decodeVersion r (Json.integer v.toNat).node = some v := by
  have hlt := v.toNat_lt
  have hnumber := Json.toNumber?_ofInt (i := v.toNat) (by omega) (by omega)
  have hrange : (0 : Int) ≤ v.toNat ∧ (v.toNat : Int) < 0x100000000 := ⟨by omega, by omega⟩
  rw [decodeVersion, Json.node, Node.asWord32, hnumber]
  dsimp only
  rw [if_pos hrange, Option.map_some, Int.toNat_natCast, UInt32.ofNat_toNat]

theorem Decl.decode_encode {d : Decl} (hd : d.Sound) (h : d.encode.ReadableIn Json.maxDepth) :
    Decl.decode Reading.start d.encode.node = if d.finite then some d else none := by
  obtain ⟨n, hn, hparts, hrecord⟩ := Json.asRecord_node (by simp) h
  obtain ⟨k, hk, hparts', hrecord'⟩ := Json.asRecord_node (by simp)
    (hparts ("decl", .object _) (List.mem_cons_of_mem _ List.mem_cons_self))
  simp only [List.map_cons, List.map_nil] at hrecord hrecord'
  simp only [List.forall_mem_cons] at hparts'
  obtain ⟨hannotations, hbody, -, hversion, -⟩ := hparts'
  have hfuel : k < nestingFuel := by
    rw [nestingFuel]
    omega
  have hversion : decodeOption decodeVersion ⟨k, false⟩
      (encodeOption (d.version.map fun v : UInt32 => .integer v.toNat)).node = some d.version := by
    refine (decodeOption_encodeOption (p := fun _ => true) hversion fun v _ _ _ _ => ?_).trans ?_
    · exact decodeVersion_node v _
    · cases d.version <;> rfl
  rw [Decl.decode, Decl.encode, Reading.start, hrecord]
  refine (bind_of_eq_some hrecord').trans ?_
  show (do
    let annotations ← decodeAnnotations ⟨k, false⟩ (encodeAnnotations d.annotations).node
    let body ← Body.decode ⟨k, false⟩ d.body.encode.node
    let version ← decodeOption decodeVersion ⟨k, false⟩
      (encodeOption (d.version.map fun v : UInt32 => .integer v.toNat)).node
    return Decl.mk d.module annotations body d.name version) = _
  rw [decodeAnnotations_encodeAnnotations hd.annotations hannotations,
    Body.decode_encode hfuel hd.body hbody, hversion, Decl.finite]
  cases d.body.finite <;> rfl

/-- The record of a declaration is read back from its text if all numbers in its defaults are
finite, and else it cannot be read. -/
theorem ofText?_toText {d : Decl} (hd : d.Sound) (h : d.encode.ReadableIn Json.maxDepth) :
    Decl.ofText? d.toText = if d.finite then some d else none := by
  rw [Decl.ofText?, Decl.toText, Json.parse?_compact h.readable]
  exact Decl.decode_encode hd h

end Schema

end Adl
