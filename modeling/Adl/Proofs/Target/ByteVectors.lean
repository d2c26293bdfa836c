import Adl.Proofs.Base64
import Adl.Proofs.Number.Numeral
import Adl.Proofs.Target.Built
import Adl.Proofs.Text.Split
import Adl.Proofs.Types.Checked

/-!
# ByteVectors — byte sequences in literals and in generated Rust

A default of the type `ByteVector` is a text in Base64, and the generated code has its bytes as a
list of numbers.  `readBytes?` reads such an expression.  The main statement says that a literal is
accepted exactly if it is the text of some bytes, that it is written again as it was, and that the
generated expression has the bytes that the text has (`byteVector_laws`).
-/

namespace Adl.Rust

open Target (Options)

/-! ### Reading -/

/-- The byte that is written in decimal digits; blanks before them do not count. -/
def byteOf? (cs : List Char) : Option UInt8 :=
  let digits := cs.dropWhile (· = ' ')
  let value := Numeral.readDigits 0 digits
  if digits ≠ [] ∧ digits.all Text.isAsciiDigit ∧ value < 256 then some (.ofNat value) else none

/-- The bytes of a list of numbers with commas between them. -/
def listedBytes? (cs : List Char) : Option (List UInt8) :=
  if cs.isEmpty then some [] else (Text.splitChars ',' cs).mapM byteOf?

/-- The bytes that the expression `path(vec![…])` is made of. -/
def readBytes? (path text : String) : Option (List UInt8) := do
  let rest ← (path ++ "(vec![").toList.isPrefixOf? text.toList
  listedBytes? (← "])".toList.isSuffixOf? rest)

/-! ### What is written is read -/

/-- The number of a byte, as it is written. -/
def byteDigits (b : UInt8) : List Char := Nat.toDigits 10 b.toNat

theorem isAsciiDigit_of_mem_byteDigits {b : UInt8} {c : Char} (h : c ∈ byteDigits b) :
    Text.isAsciiDigit c := Numeral.isAsciiDigit_of_mem_toDigits h

theorem notMem_byteDigits {b : UInt8} {c : Char} (h : Text.isAsciiDigit c = false) :
    c ∉ byteDigits b := by
  intro hmem
  have hdigit := isAsciiDigit_of_mem_byteDigits hmem
  rw [h] at hdigit
  cases hdigit

theorem byteOf?_byteDigits (blanks : Nat) (b : UInt8) :
    byteOf? (List.replicate blanks ' ' ++ byteDigits b) = some b := by
  have hread : Numeral.readDigits 0 (byteDigits b) = b.toNat := Numeral.readDigits_toDigits _
  have hne : byteDigits b ≠ [] := Nat.toDigits_ne_nil
  have hall : (byteDigits b).all Text.isAsciiDigit := by
    rw [List.all_eq_true]
    exact fun c hc => isAsciiDigit_of_mem_byteDigits hc
  have hdrop : (byteDigits b).dropWhile (· = ' ') = byteDigits b := by
    cases hcs : byteDigits b with
    | nil => rfl
    | cons c cs =>
      have hc : c ≠ ' ' := by
        rintro rfl
        exact notMem_byteDigits (by decide) (hcs ▸ List.mem_cons_self)
      rw [List.dropWhile_cons_of_neg (by simpa using hc)]
  rw [byteOf?, List.dropWhile_append_of_pos (by simp), hdrop]
  rw [hread, if_pos ⟨hne, hall, b.toNat_lt⟩, UInt8.ofNat_toNat]

/-- Only the first number has no blank before it. -/
theorem splitChars_listed (b : UInt8) (bytes : List UInt8) :
    Text.splitChars ',' (Text.listed ((b :: bytes).map fun x => toString x.toNat)).toList =
      (List.replicate 0 ' ' ++ byteDigits b) ::
        bytes.map fun x => List.replicate 1 ' ' ++ byteDigits x := by
  have hdigits : ∀ x : UInt8, (toString x.toNat).toList = byteDigits x := fun x => Nat.toList_repr
  have hlist : ∀ bs : List UInt8, (bs.map fun x => toString x.toNat).map String.toList =
      bs.map byteDigits := by
    intro bs
    rw [List.map_map]
    exact List.map_congr_left fun x _ => hdigits x
  have hno : ∀ x, ',' ∉ byteDigits x := fun x => notMem_byteDigits (by decide)
  rw [Text.listed, String.toList_intercalate, hlist]
  induction bytes generalizing b with
  | nil => simp [Text.splitChars_of_notMem (hno b)]
  | cons next bytes ih =>
    -- the blank behind the comma belongs to the next part
    have hblank := ih next
    obtain ⟨part, parts, hparts, hcons⟩ := Text.splitChars_cons ',' ' '
      (", ".toList.intercalate ((next :: bytes).map byteDigits))
    rw [hblank] at hparts
    obtain ⟨rfl, rfl⟩ := List.cons.inj hparts
    rw [if_neg (by decide)] at hcons
    rw [List.map_cons, List.map_cons, List.intercalate_cons_cons, ← List.map_cons]
    have happend := Text.splitChars_append ',' (byteDigits b)
      (' ' :: ", ".toList.intercalate ((next :: bytes).map byteDigits))
    rw [Text.splitChars_of_notMem (hno b), hcons] at happend
    simpa using happend

theorem listedBytes?_listed (bytes : List UInt8) :
    listedBytes? (Text.listed (bytes.map fun x => toString x.toNat)).toList = some bytes := by
  cases bytes with
  | nil => rfl
  | cons b bytes =>
    have hsplit := splitChars_listed b bytes
    have hne : (Text.listed ((b :: bytes).map fun x => toString x.toNat)).toList ≠ [] := by
      intro hnil
      rw [hnil, Text.splitChars_nil] at hsplit
      exact Nat.toDigits_ne_nil (List.cons.inj hsplit).1.symm
    rw [listedBytes?, if_neg (by simpa using hne), hsplit, List.mapM_cons, byteOf?_byteDigits 0 b,
      mapM_map_eq_some fun x _ => byteOf?_byteDigits 1 x]
    rfl

theorem Expr.text_bytes (path : String) (bytes : List UInt8) :
    (Expr.bytes path bytes).text =
      path ++ "(vec![" ++ Text.listed (bytes.map fun x => toString x.toNat) ++ "])" := rfl

/-- The bytes of an expression are read back from its text. -/
theorem readBytes?_text (path : String) (bytes : List UInt8) :
    readBytes? path (Expr.bytes path bytes).text = some bytes := by
  rw [readBytes?, Expr.text_bytes]
  generalize path ++ "(vec![" = opening
  have hstarts : ∀ rest, opening.toList.isPrefixOf? (opening.toList ++ rest) = some rest :=
    fun _ => List.isPrefixOf?_eq_some_iff_append_eq.mpr rfl
  have hsuffix : ∀ items, "])".toList.isSuffixOf? (items ++ "])".toList) = some items :=
    fun _ => List.isSuffixOf?_eq_some_iff_append_eq.mpr rfl
  rw [String.toList_append, String.toList_append, List.append_assoc, hstarts, Option.bind_eq_bind,
    Option.bind_some, hsuffix]
  exact listedBytes?_listed bytes

/-! ### Values at a type of byte sequences -/

/-- The value `v` of a literal is written again as the literal, and the expression `e` for it, where
`path` makes byte sequences, has the bytes that the text of the literal has. -/
structure KeepsBytes (set : ModuleSet) (path : String) (l : Literal) (v : Value) (e : Expr) :
    Prop where
  canonical : v.toLiteral set = l
  emitted : ∃ text bytes, l = .string text ∧ Base64.decode text = .ok bytes ∧
    readBytes? path e.text = some bytes

/-- How literals are read where a byte sequence is asked for: those that are the text of some bytes
have a value, which keeps its text and its bytes. -/
structure ReadsBytes (set : ModuleSet) (read : Literal → Value → Prop) : Prop where
  accepts : ∀ l, (∃ v, read l v) ↔ ∃ bytes, l = .string (Base64.encode bytes)
  keeps : ∀ l v, read l v → ∀ ctx : Context, KeepsBytes set ctx.bytesPath l v (ctx.expr v)

theorem scalar_byteVector_eq_ok_iff {l : Literal} {v : Value} :
    Normalize.scalar .byteVector l = .ok v ↔
      ∃ bytes, l = .string (Base64.encode bytes) ∧ v = .bytes bytes := by
  rw [Normalize.scalar_eq_ok_iff (by decide)]
  constructor
  · intro h
    cases h with
    | int hp => cases hp
    | word hp => cases hp
    | byteVector h => exact ⟨_, congrArg Literal.string (Base64.encode_of_decode h).symm, rfl⟩
  · rintro ⟨bytes, rfl, rfl⟩
    exact .byteVector (Base64.decode_encode bytes)

theorem keepsBytes_encode (set : ModuleSet) (ctx : Context) (bytes : List UInt8) :
    KeepsBytes set ctx.bytesPath (.string (Base64.encode bytes)) (.bytes bytes)
      (ctx.expr (.bytes bytes)) where
  canonical := rfl
  emitted := ⟨_, bytes, rfl, Base64.decode_encode bytes, readBytes?_text _ bytes⟩

theorem readsBytes_of_iff {set : ModuleSet} {read : Literal → Value → Prop}
    (h : ∀ l v, read l v ↔ ∃ bytes, l = .string (Base64.encode bytes) ∧ v = .bytes bytes) :
    ReadsBytes set read where
  accepts l := by
    simp only [h]
    constructor
    · rintro ⟨_, bytes, hl, -⟩
      exact ⟨bytes, hl⟩
    · rintro ⟨bytes, hl⟩
      exact ⟨_, bytes, hl, rfl⟩
  keeps l v hread ctx := by
    obtain ⟨bytes, rfl, rfl⟩ := (h l v).mp hread
    exact keepsBytes_encode set ctx bytes

variable {set : ModuleSet} {location : Location} {t : TypeExpr} {args : List TypeExpr} {d : Decl}
  {l : Literal} {v : Value}

theorem yields_normalize_byteVector_iff (location : Location)
    (ht : set.Expands t (.mk (.primitive .byteVector) args)) :
    Yields ((Graph.plain set).normalize l t location) v ↔
      ∃ bytes, l = .string (Base64.encode bytes) ∧ v = .bytes bytes := by
  rw [Graph.normalize, yields_adapt, Graph.yields_value_scalar ht (by decide),
    scalar_byteVector_eq_ok_iff]

/-- Where the type is one of a declaration, it makes no difference that its parameters stand for
themselves. -/
theorem yields_ownValue_byteVector_iff (hd : set.DistinctNames) (hproper : set.Proper d)
    (hmem : t ∈ d.types) (ht : set.Expands t (.mk (.primitive .byteVector) args)) :
    Yields ((Graph.plain set).ownValue d location t l) v ↔
      ∃ bytes, l = .string (Base64.encode bytes) ∧ v = .bytes bytes := by
  rw [Graph.yields_ownValue_iff hd, ← yields_normalize_byteVector_iff location ht,
    Graph.yields_normalize_iff hd]
  obtain ⟨hsaturated, hbound⟩ := hproper t hmem
  exact ⟨fun h => h.denotes, fun h => ⟨hsaturated, hbound, h⟩⟩

/-! ### Stored defaults -/

/-- The default `l` of the field `m`, which is the `i`-th of the struct `id`, keeps its text where
it is stored and its bytes in the function of the item that gives it. -/
def FieldKeepsBytes (c : Compilation) (options : Options) (id : DeclId) (i : Nat) (m : Member)
    (l : Literal) : Prop :=
  ∃ v r f fn e, (c.defaultsOf id).member? i = some v ∧ itemOf c options id = .record r ∧
    r.fields[i]? = some f ∧ f.default = some fn ∧
    Boxes ((homeContext c options id).type m.type) e f.type fn.value ∧
    KeepsBytes c.set (homeContext c options id).bytesPath l v e

/-- The default `l` of the newtype `id` keeps its text where it is stored and its bytes in the
item. -/
def NewtypeKeepsBytes (c : Compilation) (options : Options) (id : DeclId) (l : Literal) : Prop :=
  ∃ v n path e marked, (c.defaultsOf id).newtype = some (.newtype id v) ∧
    itemOf c options id = .newtype n ∧ n.default = some (.wrapped path e marked) ∧
    KeepsBytes c.set (homeContext c options id).bytesPath l (.newtype id v) e

section

variable {modules : List Source.Module} {c : Compilation} {id : DeclId} (hc : Compiled modules c)
  (options : Options)

include hc

/-- A literal that is declared at a type of byte sequences is the text of the bytes it denotes. -/
theorem exists_bytes_of_ownDenotes
    (ht : c.set.Expands t (.mk (.primitive .byteVector) args)) (h : OwnDenotes c.set d t l v) :
    ∃ bytes, l = .string (Base64.encode bytes) ∧ v = .bytes bytes := by
  rw [← yields_normalize_byteVector_iff d.location ht,
    Graph.yields_normalize_iff hc.resolved.distinctNames]
  exact h.denotes

theorem fieldKeepsBytes {ms : List Member} {m : Member} {i : Nat}
    (hbody : (c.set.decl id).body = .struct ms) (hm : ms[i]? = some m) (hl : m.default = some l)
    (ht : c.set.Expands m.type (.mk (.primitive .byteVector) args)) :
    FieldKeepsBytes c options id i m l := by
  have hdefaults := hc.defaultsAt id
  rw [hbody] at hdefaults
  obtain ⟨v, hv, hown⟩ := hdefaults.member_of_default hm hl
  obtain ⟨bytes, rfl, rfl⟩ := exists_bytes_of_ownDenotes hc ht hown
  obtain ⟨r, hitem, -, -, hfields⟩ := itemOf_struct hc.resolved options hbody
  have hfield := hfields i m hm
  rw [hv] at hfield
  exact ⟨_, r, _, _, _, hv, hitem, hfield, rfl, Context.boxes_member _ m _ rfl,
    keepsBytes_encode _ _ bytes⟩

theorem newtypeKeepsBytes (hbody : (c.set.decl id).body = .newtype t (some l))
    (ht : c.set.Expands t (.mk (.primitive .byteVector) args)) :
    NewtypeKeepsBytes c options id l := by
  have hdefaults := hc.defaultsAt id
  rw [hbody] at hdefaults
  obtain ⟨v, hv, hown⟩ := hdefaults.newtype_of_default
  obtain ⟨bytes, rfl, rfl⟩ := exists_bytes_of_ownDenotes hc ht hown
  obtain ⟨n, hitem, -, -, hdefault⟩ := itemOf_newtype options hbody
  rw [hv, Option.map_some, Context.expr] at hdefault
  have hkeeps := keepsBytes_encode c.set (homeContext c options id) bytes
  exact ⟨_, n, _, _, _, hv, hitem, hdefault, hkeeps.canonical, hkeeps.emitted⟩

end

/-! ### Main statement -/

/-- **Byte sequences have one text.**  Every byte sequence is read back from its text, and a text
that is read is the one of its bytes.  So where a byte sequence is asked for, be it by any type that
stands for one or by a declared default, exactly the texts of byte sequences are accepted, and what
was read keeps its text and has the same bytes in the generated code.  This holds in particular of
the defaults that a compilation stores. -/
theorem byteVector_laws :
    (∀ bytes, Base64.decode (Base64.encode bytes) = .ok bytes) ∧
    (∀ text bytes, Base64.decode text = .ok bytes → Base64.encode bytes = text) ∧
    (∀ (set : ModuleSet) t args, set.Expands t (.mk (.primitive .byteVector) args) →
      ∀ location, ReadsBytes set fun l v =>
        ((Graph.plain set).normalize l t location).run = .ok v) ∧
    (∀ modules set, ModuleSet.resolve modules = .ok set → set.checkAll = .ok () →
      ∀ id, ∀ t ∈ (set.decl id).types, ∀ args, set.Expands t (.mk (.primitive .byteVector) args) →
        ∀ location, ReadsBytes set fun l v =>
          ((Graph.plain set).ownValue (set.decl id) location t l).run = .ok v) ∧
    ∀ modules c, Compilation.ofModules modules = .ok c → ∀ options id,
      (∀ ms i m l args, (c.set.decl id).body = .struct ms → ms[i]? = some m →
        m.default = some l → c.set.Expands m.type (.mk (.primitive .byteVector) args) →
          FieldKeepsBytes c options id i m l) ∧
      ∀ t l args, (c.set.decl id).body = .newtype t (some l) →
        c.set.Expands t (.mk (.primitive .byteVector) args) → NewtypeKeepsBytes c options id l := by
  refine ⟨Base64.decode_encode, fun _ _ => Base64.encode_of_decode, ?_, ?_, ?_⟩
  · intro set t args ht location
    exact readsBytes_of_iff fun _ _ => yields_normalize_byteVector_iff location ht
  · intro modules set hset hchecked id t hmem args ht location
    have hresolved := resolve_eq_ok_iff.mp hset
    have hproper := ModuleSet.proper_of_checkAll hresolved hchecked id
    exact readsBytes_of_iff fun _ _ =>
      yields_ownValue_byteVector_iff hresolved.distinctNames hproper hmem ht
  · intro modules c h options id
    have hc := ofModules_eq_ok_iff.mp h
    exact ⟨fun ms i m l args hbody hm hl ht => fieldKeepsBytes hc options hbody hm hl ht,
      fun t l args hbody ht => newtypeKeepsBytes hc options hbody ht⟩

/-- The module of `type Seed<T> = ByteVector;`, `struct Key { Seed<Key> seed = "AAH/"; };` and
`newtype Salt = ByteVector = "aGk=";`, as it is parsed. -/
def saltModule : Source.Module :=
  let type (name : String) (args : List Source.TypeExpr) : Source.TypeExpr := .mk name args .start
  ⟨"keys", [],
    [⟨"Seed", ["T"], [], .alias (type "ByteVector" []), .start⟩,
      ⟨"Key", [], [], .struct
        [⟨"seed", "seed", type "Seed" [type "Key" []], some (.string "AAH/"), [], .start⟩], .start⟩,
      ⟨"Salt", [], [], .newtype (type "ByteVector" []) (some (.string "aGk=")), .start⟩], []⟩

/-- The field of `saltModule`. -/
def seedMember : Member :=
  ⟨"seed", "seed", .mk (.decl 0) [.mk (.decl 1) []], some (.string "AAH/"), []⟩

/-- What `saltModule` resolves to. -/
def saltSet : ModuleSet :=
  let bytes := TypeExpr.mk (.primitive .byteVector) []
  ⟨[⟨"keys", [], [0, 1, 2], []⟩],
    [⟨0, "keys", "Seed", ["T"], [], .alias bytes⟩, ⟨1, "keys", "Key", [], [], .struct [seedMember]⟩,
      ⟨2, "keys", "Salt", [], [], .newtype bytes (some (.string "aGk="))⟩],
    [(⟨"keys", "Seed"⟩, 0), (⟨"keys", "Key"⟩, 1), (⟨"keys", "Salt"⟩, 2)]⟩

/-- What `saltModule` compiles to. -/
def saltCompilation : Compilation :=
  let defaults : List Defaults :=
    [.empty, ⟨[some (.bytes [0, 1, 255])], none⟩, ⟨[], some (.newtype 2 (.bytes [104, 105]))⟩]
  ⟨saltSet, defaults,
    saltSet.decls.map fun d => saltSet.exportDecl d.id (defaults[d.id]?.getD .empty)⟩

/-- The seed, whose type is another name for byte sequences and stands in a box, and the salt keep
their texts and bytes.  A text for the first byte of the salt that has stray bits is not read. -/
theorem salt_byteVector :
    Base64.decode "aGk=" = .ok [104, 105] ∧ Base64.encode [104, 105] = "aGk=" ∧
      ModuleSet.resolve [saltModule] = .ok saltSet ∧ saltSet.checkAll = .ok () ∧
      (¬ ∃ v, ((Graph.plain saltSet).ownValue (saltSet.decl 1) (.ofDecl "keys" "Key")
        seedMember.type (.string "aB==")).run = .ok v) ∧
      Compilation.ofModules [saltModule] = .ok saltCompilation ∧
      FieldKeepsBytes saltCompilation .standard 1 0 seedMember (.string "AAH/") ∧
      NewtypeKeepsBytes saltCompilation .standard 2 (.string "aGk=") := by
  have hdecode : Base64.decode "aGk=" = .ok [104, 105] := by cbv
  have hset : ModuleSet.resolve [saltModule] = .ok saltSet := rfl
  have hchecked : saltSet.checkAll = .ok () := rfl
  have h : Compilation.ofModules [saltModule] = .ok saltCompilation := by cbv
  have hseed : saltSet.Expands seedMember.type (.mk (.primitive .byteVector) []) := by
    have hproper := ModuleSet.proper_of_checkAll (resolve_eq_ok_iff.mp hset) hchecked 0
    have hsteps : saltSet.AliasSteps 1 seedMember.type (.mk (.primitive .byteVector) []) :=
      .step ⟨rfl, rfl, hproper, rfl⟩ (.refl _)
    exact ⟨⟨1, by decide, hsteps⟩, (ModuleSet.Expands.of_primitive _ _).no_alias⟩
  obtain ⟨-, hencode, -, hown, hstored⟩ := byteVector_laws
  have hreads := hown _ _ hset hchecked 1 seedMember.type List.mem_cons_self [] hseed
    (.ofDecl "keys" "Key")
  refine ⟨hdecode, hencode _ _ hdecode, hset, hchecked, ?_, h, ?_, ?_⟩
  · rw [hreads.accepts]
    rintro ⟨bytes, hl⟩
    have hstray : Base64.decode "aB==" = .error (.lastSymbol 1 66) := by cbv
    rw [Literal.string.inj hl, Base64.decode_encode] at hstray
    cases hstray
  · exact (hstored _ _ h .standard 1).1 _ 0 seedMember _ _ rfl rfl rfl hseed
  · exact (hstored _ _ h .standard 2).2 _ _ [] rfl (.of_primitive _ _)

end Adl.Rust
