import Adl.Proofs.Compile.Sources
import Adl.Proofs.Model.Documentation
import Adl.Proofs.Source.Taken
import Adl.Proofs.Types.Checked
import Adl.Proofs.Value.Exact

/-!
# Integers — from digits to records

All integers in literals of compiled texts have 64 bits, signed or not: those that are parsed, and
those of canonical literals.  So their JSON encodings are integers as well (`Literal.Encodes`), and
never the floating point numbers that larger ones would become.  A declared default is spelled by
the tokens at its place in the text.  What stands in it at an integer type or at `Json` is in the
default of the record, at the same place (`Compilation.KeepsDefault`), and an integer in it is the
number that the digits there write (`PartKept`).  The main statement is `ofSources_integers`.
-/

namespace Adl

open Literal (Step)
open Source (InRange)

/-! ### Encodings -/

/-- A JSON value encodes a literal, each integer in it as that integer. -/
inductive Literal.Encodes : Literal → Json → Prop
  | null : Encodes .null .null
  | integer (i : Int) : Encodes (.integer i) (.integer i)
  | double (d : Double) : Encodes (.double d) (if d.isFinite then .double d else .null)
  | string (s : String) : Encodes (.string s) (.string s)
  | boolean (b : Bool) : Encodes (.boolean b) (.bool b)
  | array {items : List (Literal × Json)} (h : ∀ i ∈ items, Encodes i.1 i.2) :
      Encodes (.array (items.map Prod.fst)) (.array (items.map Prod.snd))
  | object {entries : List (String × Literal × Json)} (h : ∀ e ∈ entries, Encodes e.2.1 e.2.2) :
      Encodes (.object (entries.map fun e => (e.1, e.2.1)))
        (.sorted (entries.map fun e => (e.1, e.2.2)))

/-- Integers of 64 bits are encoded as integers. -/
theorem Source.InRange.encodes {l : Literal} (h : InRange l) : l.Encodes l.toJson := by
  induction h with
  | null => exact .null
  | @integer i hle hge =>
    unfold Parser.minInteger at hle
    unfold Parser.maxInteger at hge
    rw [Literal.toJson, if_pos ⟨hle, by omega⟩]
    exact .integer i
  | double d => exact .double d
  | string s => exact .string s
  | boolean b => exact .boolean b
  | @array items _ ih =>
    have hencodes := @Literal.Encodes.array (items.map fun l => (l, l.toJson))
      (List.forall_mem_map.mpr ih)
    have hid : items.map (Prod.fst ∘ fun l => (l, l.toJson)) = items := List.map_id items
    rw [List.map_map, List.map_map, hid] at hencodes
    rw [Literal.toJson, Literal.itemsToJson_eq_map]
    exact hencodes
  | @object entries _ ih =>
    have hencodes := @Literal.Encodes.object (entries.map fun e => (e.1, e.2, e.2.toJson))
      (List.forall_mem_map.mpr ih)
    have hid : entries.map ((fun e => (e.1, e.2.1)) ∘ fun e => (e.1, e.2, e.2.toJson)) = entries :=
      List.map_id entries
    rw [List.map_map, List.map_map, hid] at hencodes
    rw [Literal.toJson, Literal.entriesToJson_eq_map]
    exact hencodes

/-- The integers of a literal have 64 bits and are encoded as integers. -/
structure Literal.Exact (l : Literal) : Prop where
  inRange : InRange l
  encodes : l.Encodes l.toJson

theorem Source.InRange.exact {l : Literal} (h : InRange l) : l.Exact := ⟨h, h.encodes⟩

/-! ### Spelled places -/

namespace Source

/-- The words that spell a literal, a path into it, and the words that spell the part at the end of
the path. -/
inductive SpelledAt : List String → Literal → List Step → List String → Literal → Prop
  | here {words : List String} {l : Literal} (h : Spells words l) : SpelledAt words l [] words l
  | item {items : List (List String × Literal)} {index : Nat} {i : List String × Literal}
      {path : List Step} {words : List String} {part : Literal}
      (hitems : ∀ i ∈ items, Spells i.1 i.2) (hi : items[index]? = some i)
      (h : SpelledAt i.1 i.2 path words part) :
      SpelledAt (enclosed "[" "]" (items.map Prod.fst)) (.array (items.map Prod.snd))
        (.item index :: path) words part
  | entry {before after : List ((String × List String) × String × Literal)}
      {e : (String × List String) × String × Literal} {path : List Step} {words : List String}
      {part : Literal} (hkeys : ∀ e' ∈ before ++ e :: after, Quotes e'.1.1 e'.2.1)
      (hentries : ∀ e' ∈ before ++ e :: after, Spells e'.1.2 e'.2.2)
      (hfirst : ∀ e' ∈ before, e'.2.1 ≠ e.2.1) (h : SpelledAt e.1.2 e.2.2 path words part) :
      SpelledAt
        (enclosed "\x7b" "\x7d" ((before ++ e :: after).map fun e => e.1.1 :: ":" :: e.1.2))
        (.object ((before ++ e :: after).map Prod.snd)) (.key e.2.1 :: path) words part

variable {words : List String} {l x : Literal} {path : List Step}

/-- The parts of a spelled literal are spelled where they are. -/
theorem Spells.at? (h : Spells words l) (hx : l.at? path = some x) :
    ∃ ws, SpelledAt words l path ws x := by
  induction path generalizing words l with
  | nil =>
    cases hx
    exact ⟨words, .here h⟩
  | cons s path ih =>
    obtain ⟨y, hy, hrest⟩ := Option.bind_eq_some_iff.mp hx
    cases s with
    | item index =>
      obtain ⟨items, rfl, hitem⟩ := Literal.part?_item_eq_some_iff.mp hy
      cases h with
      | @array items hitems =>
        rw [List.getElem?_map, Option.map_eq_some_iff] at hitem
        obtain ⟨i, hi, rfl⟩ := hitem
        obtain ⟨ws, hws⟩ := ih (hitems i (List.mem_of_getElem? hi)) hrest
        exact ⟨ws, .item hitems hi hws⟩
    | key name =>
      obtain ⟨entries, rfl, hentry⟩ := Literal.part?_key_eq_some_iff.mp hy
      cases h with
      | @object entries hkeys hentries =>
        obtain ⟨before, after, hsplit, hfirst⟩ := List.lookup_eq_some_iff.mp hentry
        obtain ⟨before, behind, rfl, rfl, hbehind⟩ := List.map_eq_append_iff.mp hsplit
        obtain ⟨e, after, rfl, he, -⟩ := List.map_eq_cons_iff.mp hbehind
        obtain ⟨⟨word, own⟩, key, value⟩ := e
        cases he
        obtain ⟨ws, hws⟩ := ih (hentries _ (List.mem_append_right _ List.mem_cons_self)) hrest
        refine ⟨ws, .entry hkeys hentries (fun e' he' => ?_) hws⟩
        have hne := hfirst _ (List.mem_map_of_mem he')
        exact fun heq => absurd heq.symm (by simpa using hne)

/-- The words at a place spell the part that is there. -/
theorem SpelledAt.spells {ws : List String} (h : SpelledAt words l path ws x) : Spells ws x := by
  induction h with
  | here h => exact h
  | item _ _ _ ih => exact ih
  | entry _ _ _ _ ih => exact ih

/-- A spelled integer is what its digits write. -/
theorem Spells.writes {i : Int} (h : Spells words (.integer i)) :
    ∃ word, words = [word] ∧ Writes word.toList i := by
  cases h with
  | integer h => exact ⟨_, rfl, h⟩

end Source

/-! ### Declared defaults -/

/-- A module declares a literal as a default: at the place of a member of a declaration, or as that
of a newtype; the position is that of the name of the member, or that of the keyword of the
newtype. -/
inductive Source.Module.Declares (m : Module) :
    ScopedName → Option Nat → Position → Literal → Prop
  | field {d : Decl} {i : Nat} {sm : Member} {l : Literal} (hd : d ∈ m.decls)
      (hsm : d.members[i]? = some sm) (hl : sm.default = some l) :
      m.Declares ⟨m.name, d.name⟩ (some i) sm.position l
  | newtype {d : Decl} {target : TypeExpr} {l : Literal} (hd : d ∈ m.decls)
      (hbody : d.body = .newtype target (some l)) : m.Declares ⟨m.name, d.name⟩ none d.position l

/-- The type of the member at a place, or the target of a newtype. -/
def Decl.typeAt? (d : Decl) : Option Nat → Option TypeExpr
  | some i => d.members[i]?.map Member.type
  | none =>
    match d.body with
    | .newtype t _ => some t
    | _ => none

/-- The default of the field at a place, or that of a newtype. -/
def Schema.Decl.default? (r : Schema.Decl) : Option Nat → Option Literal
  | some i => r.body.fields[i]?.bind Field.default
  | none =>
    match r.body with
    | .newtype _ _ default => default
    | _ => none

section

variable {modules : List Source.Module} {set : ModuleSet} {m : Source.Module} {name : ScopedName}
  {place : Option Nat} {position : Position} {l : Literal}

theorem Source.Module.WellFormed.literals {P : Literal → Prop} (h : m.WellFormed P) :
    ∀ l ∈ m.literals, P l := by
  rw [Source.Module.literals, List.forall_mem_append, List.forall_mem_map, List.forall_mem_flatMap]
  exact ⟨fun a ha => (h.annotations a ha).value, fun d hd => (h.decls d hd).literals⟩

theorem Source.Module.Declares.mem_literals (h : m.Declares name place position l) :
    l ∈ m.literals := by
  refine List.mem_append_right _ ?_
  cases h with
  | field hd hsm hl =>
    refine List.mem_flatMap.mpr ⟨_, hd, List.mem_append_left _ (List.mem_append_right _ ?_)⟩
    refine List.mem_flatMap.mpr ⟨_, List.mem_of_getElem? hsm, List.mem_append_right _ ?_⟩
    exact Option.mem_toList.mpr hl
  | newtype hd hbody =>
    refine List.mem_flatMap.mpr ⟨_, hd, List.mem_append_right _ ?_⟩
    rw [hbody]
    exact Option.mem_toList.mpr rfl

/-- The default is spelled by the tokens at its place. -/
theorem Source.Module.Declares.defines {tokens : List Token} (h : m.Declares name place position l)
    (hm : m.ReadFrom tokens) : Defines tokens position l := by
  cases h with
  | field hd hsm hl => exact ((hm.decls _ hd).members _ (List.mem_of_getElem? hsm)).default l hl
  | newtype hd hbody => exact (hm.decls _ hd).newtype _ l hbody

/-- What is declared in a set is declared in its modules. -/
theorem Resolved.exists_declares (h : Resolved modules set) {id : DeclId}
    (hl : l ∈ (set.decl id).declared) :
    ∃ m ∈ modules, ∃ name place position, m.Declares name place position l := by
  cases hx : set.decls[id]? with
  | none =>
    rw [ModuleSet.decl, hx] at hl
    cases hl
  | some x =>
    obtain ⟨m, d, hplace, hr⟩ := h.place_of_decls hx
    obtain ⟨hm, hd⟩ := Resolve.mem_places_iff.mp (List.mem_of_getElem? hplace)
    obtain ⟨-, body, hbody, rfl⟩ := Resolve.resolveDecl_eq_ok_iff.mp hr
    rw [ModuleSet.decl_of_getElem? hx, Decl.declared] at hl
    have hresolved := Resolve.resolveBody_eq_ok_iff.mp hbody
    generalize hb : d.body = b at hresolved
    cases hresolved with
    | struct hys =>
      obtain ⟨y, hy, hdefault⟩ := List.mem_filterMap.mp hl
      obtain ⟨sm, hsm, hresolved⟩ := exists_of_forall₂ hys hy
      obtain ⟨type, -, rfl⟩ := Resolve.resolveMember_eq_ok_iff.mp hresolved
      obtain ⟨i, hi⟩ := List.mem_iff_getElem?.mp hsm
      refine ⟨m, hm, _, _, _, .field (i := i) hd ?_ hdefault⟩
      rwa [Source.Decl.members, hb]
    | newtype =>
      cases Option.mem_toList.mp hl
      exact ⟨m, hm, _, _, _, .newtype hd hb⟩
    | _ => cases hl

end

/-! ### Defaults of records -/

theorem ModuleSet.getElem?_exportMembers {set : ModuleSet} {ms : List Member}
    {ds : List (Option Value)} {i : Nat} :
    (set.exportMembers ms ds)[i]? = ms[i]?.map fun m => set.exportMember m ds[i]?.join := by
  induction ms generalizing ds i with
  | nil => rfl
  | cons m ms ih =>
    cases ds with
    | nil =>
      cases i with
      | zero => rfl
      | succ i => exact ih
    | cons d ds =>
      cases i with
      | zero => rfl
      | succ i => exact ih

/-- The defaults in a record are canonical literals. -/
theorem ModuleSet.exists_of_default? {set : ModuleSet} {id : DeclId} {defaults : Defaults}
    {place : Option Nat} {l : Literal} (hl : (set.exportDecl id defaults).default? place = some l) :
    ∃ v ∈ defaults.values, l = v.toLiteral set := by
  have hmember (ms : List Member) {i : Nat}
      (hl : (set.exportMembers ms defaults.fields)[i]?.bind Schema.Field.default = some l) :
      ∃ v ∈ defaults.values, l = v.toLiteral set := by
    rw [getElem?_exportMembers, Option.bind_map] at hl
    obtain ⟨m, -, hl⟩ := Option.bind_eq_some_iff.mp hl
    obtain ⟨v, hv, rfl⟩ := Option.map_eq_some_iff.mp hl
    refine ⟨v, List.mem_append_left _ ?_, rfl⟩
    exact List.mem_filterMap.mpr ⟨_, List.mem_of_getElem? (Option.join_eq_some_iff.mp hv), rfl⟩
  have hbody : (set.exportDecl id defaults).body = set.exportBody (set.decl id) defaults := rfl
  rw [exportBody] at hbody
  cases place with
  | some i =>
    rw [Schema.Decl.default?, hbody] at hl
    cases hb : (set.decl id).body with
    | struct ms | union ms | enum ms =>
      rw [hb] at hl
      exact hmember ms hl
    | _ =>
      rw [hb] at hl
      cases hl
  | none =>
    rw [Schema.Decl.default?, hbody] at hl
    cases hb : (set.decl id).body with
    | newtype t default =>
      rw [hb] at hl
      obtain ⟨v, hv, rfl⟩ := Option.map_eq_some_iff.mp hl
      exact ⟨v, List.mem_append_right _ (Option.mem_toList.mpr hv), rfl⟩
    | _ =>
      rw [hb] at hl
      cases hl

namespace Compiled

variable {modules : List Source.Module} {c : Compilation} (h : Compiled modules c)
  {m : Source.Module} {name : ScopedName} {place : Option Nat} {position : Position} {l : Literal}

include h

/-- The record of a written declaration is that of what it is resolved to. -/
theorem exists_record {d : Source.Decl} (hm : m ∈ modules) (hd : d ∈ m.decls) :
    ∃ id body, c.set.lookup ⟨m.name, d.name⟩ = some id ∧ (c.set.decl id).body = body ∧
      Resolve.ResolvedBody (Resolve.declScope c.set.names m d) d.body body ∧
      c.record? ⟨m.name, d.name⟩ = some (c.set.exportDecl id (c.defaultsOf id)) := by
  obtain ⟨id, hid, hr⟩ := h.resolved.exists_decl hm hd
  obtain ⟨hlt, -⟩ := (h.resolved.indexed.lookup_iff _ _).mp hid
  obtain ⟨-, body, hbody, hdecl⟩ := Resolve.resolveDecl_eq_ok_iff.mp hr
  refine ⟨id, body, hid, by rw [← hdecl], Resolve.resolveBody_eq_ok_iff.mp hbody, ?_⟩
  rw [Compilation.record?, hid]
  exact h.record_eq (List.getElem?_eq_getElem hlt)

/-- The canonical literal of what a declared default denotes is the default in the record. -/
theorem exists_default (hm : m ∈ modules) (hwf : m.WellFormed InRange)
    (hl : m.Declares name place position l) :
    ∃ id t r v, c.set.lookup name = some id ∧ (c.set.decl id).typeAt? place = some t ∧
      c.record? name = some r ∧ r.default? place = some (v.toLiteral c.set) ∧
        Denotes c.set maxDefaultDepth l v t := by
  cases hl with
  | @field d i sm l hd hsm hl =>
    obtain ⟨id, body, hid, hbody, hresolved, hrecord⟩ := h.exists_record hm hd
    have hdefaults := h.defaultsAt id
    have hwritten := (hwf.decls d hd).body
    rw [Source.Decl.members] at hsm
    generalize d.body = b at hsm hwritten hresolved
    cases hresolved with
    | @struct sms ys hys =>
      obtain ⟨y, hy⟩ := exists_getElem?_of_length_eq hys.length_eq.symm hsm
      obtain ⟨type, -, rfl⟩ :=
        Resolve.resolveMember_eq_ok_iff.mp ((forall₂_iff_getElem?.mp hys).2 i sm y hsm hy)
      rw [hbody] at hdefaults
      obtain ⟨v, hv, hown⟩ := hdefaults.member_of_default hy hl
      refine ⟨id, type, _, v, hid, ?_, hrecord, ?_, hown.denotes⟩
      · rw [Decl.typeAt?, Decl.members, hbody]
        dsimp only
        rw [hy, Option.map_some]
      · rw [Schema.Decl.default?, ModuleSet.exportDecl]
        dsimp only
        rw [ModuleSet.exportBody, hbody]
        show ((c.set.exportMembers ys _)[i]?).bind _ = _
        rw [ModuleSet.getElem?_exportMembers, hy]
        show Option.map _ (Defaults.member? _ i) = _
        rw [hv, Option.map_some]
    | union =>
      have hnone := (hwritten sm (List.mem_of_getElem? hsm)).2
      exact absurd (hl.symm.trans hnone) (Option.some_ne_none _)
    | enum =>
      have hnone := (hwritten sm (List.mem_of_getElem? hsm)).2.default
      exact absurd (hl.symm.trans hnone) (Option.some_ne_none _)
    | «alias» => cases hsm
    | newtype => cases hsm
  | @newtype d target l hd hl =>
    obtain ⟨id, body, hid, hbody, hresolved, hrecord⟩ := h.exists_record hm hd
    have hdefaults := h.defaultsAt id
    rw [hl] at hresolved
    cases hresolved with
    | @newtype _ u _ _ =>
      rw [hbody] at hdefaults
      obtain ⟨v, hv, hown⟩ := hdefaults.newtype_of_default
      refine ⟨id, u, _, v, hid, ?_, hrecord, ?_, hown.denotes⟩
      · rw [Decl.typeAt?, hbody]
      · rw [Schema.Decl.default?, ModuleSet.exportDecl]
        dsimp only
        rw [ModuleSet.exportBody, hbody]
        dsimp only
        rw [hv]
        rfl

/-- The integers of declared defaults have 64 bits, if those in the modules have. -/
theorem inRange_declared (hwf : ∀ m ∈ modules, m.WellFormed InRange) (id : DeclId) :
    ∀ l ∈ (c.set.decl id).declared, InRange l := by
  intro l hl
  obtain ⟨m, hm, _, _, _, hdeclares⟩ := h.resolved.exists_declares hl
  exact (hwf m hm).literals l hdeclares.mem_literals

end Compiled

/-! ### Main statement -/

/-- What stands at a place of an integer type or of `Json`, in what is read from the declared
default `l`, is at this place in the canonical literal.  It is written in `l` at the same place, or
in another declared default.  Whatever words spell this default, those at the place spell it, and an
integer in it is in the canonical literal the number that its own word writes. -/
structure PartKept (modules : List Source.Module) (l canonical : Literal) (path : List Step)
    (o : Literal × List Step) (x : Literal) : Prop where
  at?_eq : canonical.at? path = some x
  origin : o = (l, path) ∨ ∃ m ∈ modules, ∃ name place position, m.Declares name place position o.1
  spelled : ∀ words, Source.Spells words o.1 → ∃ ws, Source.SpelledAt words o.1 o.2 ws x
  digits : ∀ words inner i, Source.Spells words o.1 → x.at? inner = some (.integer i) →
    canonical.at? (path ++ inner) = some (.integer i) ∧ ∃ word,
      Source.SpelledAt words o.1 (o.2 ++ inner) [word] (.integer i) ∧ Source.Writes word.toList i

/-- The declared default `l` of the member at a place, or of a newtype, is in the record of its
declaration, and what is read at integer types and at `Json` is kept. -/
def Compilation.KeepsDefault (c : Compilation) (modules : List Source.Module) (name : ScopedName)
    (place : Option Nat) (l : Literal) : Prop :=
  ∃ id t r canonical, c.set.lookup name = some id ∧ (c.set.decl id).typeAt? place = some t ∧
    c.record? name = some r ∧ r.default? place = some canonical ∧ canonical.Exact ∧
    ∀ path o x u p args, c.set.StandsAt l t path o x u →
      c.set.Expands u (.mk (.primitive p) args) → p.Verbatim → PartKept modules l canonical path o x

theorem Compiled.keepsDefault {modules : List Source.Module} {c : Compilation}
    (h : Compiled modules c) (hwf : ∀ m ∈ modules, m.WellFormed InRange) {m : Source.Module}
    (hm : m ∈ modules) {name : ScopedName} {place : Option Nat} {position : Position} {l : Literal}
    (hl : m.Declares name place position l) : c.KeepsDefault modules name place l := by
  have hnames := h.resolved.distinctNames
  have hrange := (hwf m hm).literals l hl.mem_literals
  obtain ⟨id, t, r, v, hid, ht, hr, hcanonical, hv⟩ := h.exists_default hm (hwf m hm) hl
  refine ⟨id, t, r, _, hid, ht, hr, hcanonical, Source.InRange.exact ?_, ?_⟩
  · exact hv.hereditary Source.inRange_hereditary (h.inRange_declared hwf) hrange
  intro path o x u p args hs hu hp
  obtain ⟨hx, horigin⟩ := hs.origin
  have hat := hv.at?_eq hnames hs hu hp
  refine ⟨hat, ?_, fun words hwords => hwords.at? hx, fun words inner i hwords hi => ⟨?_, ?_⟩⟩
  · exact horigin.imp_right fun ⟨_, hdeclared⟩ => h.resolved.exists_declares hdeclared
  · exact (Literal.at?_append hat).trans hi
  · obtain ⟨ws, hws⟩ := hwords.at? ((Literal.at?_append hx).trans hi)
    obtain ⟨word, rfl, hword⟩ := hws.spells.writes
    exact ⟨word, hws, hword⟩

/-- In what is compiled from texts, integers stay exact.  Those in the literals of modules and in
canonical literals have 64 bits, signed or not, and are encoded as integers.  The literals are
spelled by the tokens that their module is parsed from, declared defaults at their places.  What
stands in a declared default at integer types and at `Json` is at the same place in the record.  The
casts with which integers are read keep their values. -/
theorem ofSources_integers {texts : List String} {c : Compilation}
    (hc : Compilation.ofSources texts = .ok c) :
    (∃ modules, Compiled modules c ∧
      (∀ text ∈ texts, ∃ m ∈ modules, ∃ label, Source.ofText label text = .ok m) ∧
      ∀ m ∈ modules, Source.ReadOf texts m ∧ (∀ l ∈ m.literals, l.Exact) ∧
        (∀ tokens, Source.parse tokens = .ok m → (∀ l ∈ m.literals, Source.Noted tokens l) ∧
          ∀ name place position l, m.Declares name place position l →
            Source.Defines tokens position l) ∧
        ∀ name place position l, m.Declares name place position l →
          c.KeepsDefault modules name place l) ∧
    (∀ r ∈ c.records, ∀ place canonical, r.default? place = some canonical → canonical.Exact) ∧
    (∀ t l canonical, InRange l → c.canonicalLiteral t l = .ok canonical → canonical.Exact) ∧
    ∀ p range l v, p.range? = some range → Normalize.scalar p l = .ok v →
      ∃ i, l = .integer i ∧ v = Normalize.narrowed range i ∧ v.integer? = some i := by
  obtain ⟨modules, h, hall, hread⟩ := Compilation.exists_readOf hc
  have hwf : ∀ m ∈ modules, m.WellFormed InRange := by
    intro m hm
    obtain ⟨label, text, -, hm⟩ := hread m hm
    exact Source.wellFormed_of_ofText hm
  have hdeclared := h.inRange_declared hwf
  refine ⟨⟨modules, h, hall, fun m hm => ⟨hread m hm, ?_, fun tokens htokens => ?_, ?_⟩⟩,
    fun r hr place canonical hcanonical => ?_, fun t l canonical hl hcanonical => ?_,
    fun p range l v => Normalize.scalar_exact⟩
  · exact fun l hl => ((hwf m hm).literals l hl).exact
  · have hm := Source.readFrom_of_parse htokens
    exact ⟨hm.noted, fun _ _ _ l hl => hl.defines hm⟩
  · exact fun _ _ _ l hl => h.keepsDefault hwf hm hl
  · rw [h.records_eq] at hr
    obtain ⟨d, -, rfl⟩ := List.mem_map.mp hr
    obtain ⟨v, hv, rfl⟩ := ModuleSet.exists_of_default? hcanonical
    have hdefaults := h.defaultsAt d.id
    exact (hdefaults.hereditary Source.inRange_hereditary hdeclared (hdeclared d.id) hv).exact
  · obtain ⟨v, hv, rfl⟩ := bind_pure_eq_ok_iff.mp hcanonical
    have hdenotes := (Graph.yields_normalize_iff h.resolved.distinctNames).mp hv
    exact (hdenotes.hereditary Source.inRange_hereditary hdeclared hl).exact

/-- A text with the largest integer that can be read, at an integer type, and others at `Json`. -/
def ledgerText : String :=
  "module m \x7b struct Ledger \x7b Word64 most = 18446744073709551615; " ++
    "Json marks = [-7, 9223372036854775808]; \x7d; \x7d;"

/-- The tokens of `ledgerText`. -/
def ledgerTokens : List Token :=
  [("module", 1), ("m", 8), ("\x7b", 10), ("struct", 12), ("Ledger", 19), ("\x7b", 26),
    ("Word64", 28), ("most", 35), ("=", 40), ("18446744073709551615", 42), (";", 62), ("Json", 64),
    ("marks", 69), ("=", 75), ("[", 77), ("-7", 78), (",", 80), ("9223372036854775808", 82),
    ("]", 101), (";", 102), ("\x7d", 104), (";", 105), ("\x7d", 107), (";", 108)].map
      fun (word, column) => ⟨word, ⟨1, column⟩⟩

/-- The default of the second field. -/
def ledgerList : Literal := .array [.integer (-7), .integer 9223372036854775808]

/-- The fields as they are parsed. -/
def ledgerFields : List Source.Member :=
  [⟨"most", "most", .mk "Word64" [] ⟨1, 28⟩, some (.integer 18446744073709551615), [], ⟨1, 35⟩⟩,
    ⟨"marks", "marks", .mk "Json" [] ⟨1, 64⟩, some ledgerList, [], ⟨1, 69⟩⟩]

/-- The declaration as it is parsed. -/
def ledgerDecl : Source.Decl := ⟨"Ledger", [], [], .struct ledgerFields, ⟨1, 12⟩⟩

/-- The module of `ledgerText`. -/
def ledgerModule : Source.Module := ⟨"m", [], [ledgerDecl], []⟩

/-- What `ledgerModule` compiles to. -/
def ledgerCompilation : Compilation :=
  let set : ModuleSet := ⟨[⟨"m", [], [0], []⟩],
    [⟨0, "m", "Ledger", [], [], .struct
      [⟨"most", "most", .mk (.primitive .word64) [], some (.integer 18446744073709551615), []⟩,
        ⟨"marks", "marks", .mk (.primitive .json) [], some ledgerList, []⟩]⟩],
    [(⟨"m", "Ledger"⟩, 0)]⟩
  let defaults : Defaults := ⟨[some (.word 18446744073709551615), some (.json ledgerList)], none⟩
  ⟨set, [defaults], [set.exportDecl 0 defaults]⟩

theorem ofModules_ledgerModule :
    Compilation.ofModules [ledgerModule] = .ok ledgerCompilation := by
  have hresolve : ModuleSet.resolve [ledgerModule] = .ok ledgerCompilation.set := by cbv
  have hcheck : ledgerCompilation.set.checkAll = .ok () := by cbv
  have hresolved := resolve_eq_ok_iff.mp hresolve
  have hproper := ModuleSet.proper_of_checkAll hresolved hcheck 0
  obtain ⟨hmost, hmostBound⟩ := hproper _ List.mem_cons_self
  obtain ⟨hmarks, hmarksBound⟩ := hproper _ (List.mem_cons_of_mem _ List.mem_cons_self)
  have hword : DenotesScalar .word64 (.integer 18446744073709551615) (.word 18446744073709551615) :=
    @DenotesScalar.word _ 64 18446744073709551615 rfl (by decide)
  refine ofModules_eq_ok_iff.mpr ⟨hresolved, hcheck, .cons ?_ .nil, rfl⟩
  refine (Graph.yields_defaults_iff hresolved.distinctNames).mpr
    (.struct (.cons (.some rfl ⟨hmost, hmostBound, ?_⟩)
      (.cons (.some rfl ⟨hmarks, hmarksBound, ?_⟩) .nil)))
  · exact .scalar (.of_primitive _ _) hword
  · exact .scalar (.of_primitive _ _) (.json ledgerList)

theorem scan_ledgerText : Token.scan ledgerText = .ok ⟨ledgerTokens, ⟨1, 109⟩⟩ :=
  toOption_eq_some_iff.mp (by decide +kernel)

theorem parse_ledgerTokens : Source.parse ledgerTokens = .ok ledgerModule := by rfl

theorem ofSources_ledgerText : Compilation.ofSources [ledgerText] = .ok ledgerCompilation := by
  have htext (label : String) : Source.ofText label ledgerText = .ok ledgerModule :=
    Source.ofText_eq_ok_iff.mpr ⟨_, scan_ledgerText, parse_ledgerTokens⟩
  exact (Compilation.ofSources_singleton htext rfl).trans ofModules_ledgerModule

/-- Both defaults are in the record as they are written, and the digits of the first one write the
integer. -/
theorem ledger_integers :
    Compilation.ofSources [ledgerText] = .ok ledgerCompilation ∧
    ∃ r, ledgerCompilation.record? ⟨"m", "Ledger"⟩ = some r ∧
      r.default? (some 0) = some (.integer 18446744073709551615) ∧
      r.default? (some 1) = some ledgerList ∧ ledgerList.Exact ∧
      ∃ word, Source.DefaultAt ledgerTokens ⟨1, 35⟩ [word] ∧
        Source.Writes word.toList 18446744073709551615 := by
  refine ⟨ofSources_ledgerText, ?_⟩
  obtain ⟨⟨modules, -, htexts, hmodules⟩, -⟩ := ofSources_integers ofSources_ledgerText
  obtain ⟨m, hm, label, hread⟩ := htexts _ (List.mem_singleton_self _)
  obtain ⟨tokens, hscan, hparse⟩ := Source.ofText_eq_ok_iff.mp hread
  cases scan_ledgerText.symm.trans hscan
  cases parse_ledgerTokens.symm.trans hparse
  obtain ⟨-, hexact, htokens, hdefaults⟩ := hmodules _ hm
  have hdeclares {i : Nat} {sm : Source.Member} {l : Literal} (hsm : ledgerFields[i]? = some sm)
      (hl : sm.default = some l) : ledgerModule.Declares ⟨"m", "Ledger"⟩ (some i) sm.position l :=
    .field (d := ledgerDecl) List.mem_cons_self hsm hl
  -- What is kept is the whole literal, since it stands at an integer type or at `Json`.
  have hkept {i : Nat} {sm : Source.Member} {l : Literal} {p : Primitive} (hp : p.Verbatim)
      (hsm : ledgerFields[i]? = some sm) (hl : sm.default = some l)
      (ht : (ledgerCompilation.set.decl 0).typeAt? (some i) = some (.mk (.primitive p) [])) :
      ∃ r, ledgerCompilation.record? ⟨"m", "Ledger"⟩ = some r ∧ r.default? (some i) = some l ∧
        PartKept modules l l [] (l, []) l := by
    obtain ⟨id, t, r, canonical, hid, ht', hr, hcanonical, -, hall⟩ :=
      hdefaults _ _ _ _ (hdeclares hsm hl)
    cases (show _ = some 0 from rfl).symm.trans hid
    cases ht.symm.trans ht'
    have hkept := hall [] (l, []) l _ p [] .here (.of_primitive p []) hp
    cases hkept.at?_eq
    exact ⟨r, hr, hcanonical, hkept⟩
  obtain ⟨r, hr, hdefault, hdigits⟩ := hkept (i := 0) (p := .word64) (.inl rfl) rfl rfl rfl
  obtain ⟨r', hr', hdefault', -⟩ := hkept (i := 1) (p := .json) (.inr rfl) rfl rfl rfl
  cases hr.symm.trans hr'
  obtain ⟨words, hwords, hspells⟩ :=
    (htokens ledgerTokens parse_ledgerTokens).2 _ _ _ _ (hdeclares (i := 0) rfl rfl)
  obtain ⟨-, word, hword, hwrites⟩ := hdigits.digits words [] _ hspells rfl
  cases hword
  have hlist := (hdeclares (i := 1) rfl rfl).mem_literals
  exact ⟨r, hr, hdefault, hdefault', hexact _ hlist, word, hwords, hwrites⟩

end Adl
