import Adl.Proofs.Source.Written

/-!
# WellFormed — the modules that are read

Whatever tokens a module is read from, its names are identifiers, with points between them where
the grammar has a dotted name; its integers have 64 bits, signed or not; and what cannot be written,
such as the default of an alternative, is not there (`wellFormed_of_parse`).  What a parser gives
back is followed through each production (`Gives`).
-/

namespace Adl.Source

/-! ### Well-formed modules -/

/-- Identifiers with points between them. -/
def IsDotted (name : String) : Prop :=
  ∃ parts, parts ≠ [] ∧ (∀ part ∈ parts, isName part) ∧ name = ".".intercalate parts

/-- A type whose names are dotted names, at any depth. -/
inductive TypeExpr.Named : TypeExpr → Prop
  | mk {name : String} {args : List TypeExpr} {position : Position} (hname : IsDotted name)
      (hargs : ∀ t ∈ args, Named t) : Named (.mk name args position)

/-- A literal whose integers have 64 bits, signed or not. -/
inductive InRange : Literal → Prop
  | null : InRange .null
  | integer {i : Int} (hle : Parser.minInteger ≤ i) (hge : i ≤ Parser.maxInteger) :
      InRange (.integer i)
  | double (d : Double) : InRange (.double d)
  | string (s : String) : InRange (.string s)
  | boolean (b : Bool) : InRange (.boolean b)
  | array {items : List Literal} (h : ∀ l ∈ items, InRange l) : InRange (.array items)
  | object {entries : List (String × Literal)} (h : ∀ e ∈ entries, InRange e.2) :
      InRange (.object entries)

section

variable (P : Literal → Prop)

/-- An annotation with a proper name. -/
structure AnnotationEntry.WellFormed (a : AnnotationEntry) : Prop where
  name : IsDotted a.name
  value : P a.value

/-- An import with proper names. -/
structure Import.WellFormed (i : Import) : Prop where
  module : IsDotted i.module
  name : ∀ name, i.kind = .name name → isName name

/-- A member with proper names. -/
structure Member.WellFormed (m : Member) : Prop where
  name : isName m.name
  type : m.type.Named
  default : ∀ l ∈ m.default, P l
  annotations : ∀ a ∈ m.annotations, a.WellFormed P

/-- A member that is only a name: a field of type `Void`, wherever this stands. -/
structure Member.IsLabel (m : Member) : Prop where
  type : ∃ p, m.type = .mk "Void" [] p
  default : m.default = none

/-- A body with proper members; only fields and newtypes have defaults. -/
def Body.WellFormed : Body → Prop
  | .struct members => ∀ m ∈ members, m.WellFormed P
  | .union members => ∀ m ∈ members, m.WellFormed P ∧ m.default = none
  | .enum members => ∀ m ∈ members, m.WellFormed P ∧ m.IsLabel
  | .alias target => target.Named
  | .newtype target default => target.Named ∧ ∀ l ∈ default, P l

/-- A declaration with proper names; an enum has no type parameters. -/
structure Decl.WellFormed (d : Decl) : Prop where
  name : isName d.name
  typeParams : ∀ p ∈ d.typeParams, isName p
  enumParams : ∀ members, d.body = .enum members → d.typeParams = []
  annotations : ∀ a ∈ d.annotations, a.WellFormed P
  body : d.body.WellFormed P

/-- A module with proper names, whose literals have the property `P`. -/
structure Module.WellFormed (m : Module) : Prop where
  name : IsDotted m.name
  imports : ∀ i ∈ m.imports, i.WellFormed
  decls : ∀ d ∈ m.decls, d.WellFormed P
  annotations : ∀ a ∈ m.annotations, a.WellFormed P

end

theorem isDotted_of_isName {name : String} (h : isName name) : IsDotted name :=
  ⟨[name], List.cons_ne_nil _ _, List.forall_mem_singleton.mpr h,
    String.intercalate_singleton.symm⟩

namespace Parser

variable {α β : Type} {P : α → Prop} {Q : β → Prop} {p q : Parser α}

/-! ### What a parser gives back -/

/-- Whatever the tokens, the parser gives back something with the property `P`. -/
def Gives (p : Parser α) (P : α → Prop) : Prop := ∀ ts a rest, p ts = .ok (a, rest) → P a

theorem Gives.any (p : Parser α) : Gives p fun _ => True := fun _ _ _ _ => trivial

theorem Gives.pure {a : α} (h : P a) : Gives (pure a) P := by
  rintro ts _ _ ⟨⟩
  exact h

theorem Gives.bind {f : α → Parser β} (hp : Gives p P) (hf : ∀ a, P a → Gives (f a) Q) :
    Gives (p >>= f) Q := by
  intro ts b rest h
  change (p ts >>= fun x => f x.1 x.2) = .ok (b, rest) at h
  cases hx : p ts with
  | error e =>
    rw [hx] at h
    cases h
  | ok x =>
    rw [hx] at h
    exact hf x.1 (hp ts x.1 x.2 hx) x.2 b rest h

theorem Gives.map {f : α → β} (hp : Gives p P) (hf : ∀ a, P a → Q (f a)) : Gives (f <$> p) Q := by
  rw [← bind_pure_comp]
  exact hp.bind fun a ha => .pure (hf a ha)

theorem Gives.ite {c : Prop} [Decidable c] (hp : c → Gives p P) (hq : ¬ c → Gives q P) :
    Gives (if c then p else q) P := by
  by_cases h : c
  · rw [if_pos h]
    exact hp h
  · rw [if_neg h]
    exact hq h

theorem gives_fail (fault : ParseFault) (token : Option Token) : Gives (fail fault token) P :=
  fun _ _ _ h => nomatch h

theorem gives_unexpected : Gives unexpected P := by
  rintro (_ | _) _ _ ⟨⟩

theorem gives_expectWhere (test : Token → Bool) (what : String) :
    Gives (expectWhere test what) fun t => test t := by
  intro ts a rest h
  cases ts with
  | nil => cases h
  | cons t ts =>
    rw [expectWhere] at h
    split at h
    · next ht =>
      cases h
      exact ht
    · cases h

theorem gives_expectName (what : String) : Gives (expectName what) fun t => isName t.text :=
  gives_expectWhere _ what

theorem gives_many {close : String} {item : Parser α} (hitem : Gives item P) (fuel : Nat) :
    Gives (many close item fuel) fun as => ∀ a ∈ as, P a := by
  induction fuel with
  | zero => exact gives_unexpected
  | succ fuel ih =>
    rw [many]
    refine .bind (.any _) fun closed _ => .ite (fun _ => .pure (fun _ h => nomatch h)) fun _ => ?_
    refine .bind (.any _) fun next _ =>
      .ite (fun _ => .bind gives_unexpected fun _ (h : False) => h.elim) ?_
    intro _
    refine .bind hitem fun first hfirst => .bind ih fun rest hrest => .pure ?_
    exact List.forall_mem_cons.mpr ⟨hfirst, hrest⟩

theorem gives_separated {close what : String} {item : Parser α} (hitem : Gives item P)
    (fuel : Nat) : Gives (separated close what item fuel) fun as => ∀ a ∈ as, P a := by
  induction fuel with
  | zero => exact gives_unexpected
  | succ fuel ih =>
    rw [separated]
    refine .bind hitem fun first hfirst => .bind (.any _) fun closed _ =>
      .ite (fun _ => .pure ?_) ?_
    · exact List.forall_mem_singleton.mpr hfirst
    intro _
    refine .bind (.any _) fun _ _ => .bind ih fun rest hrest => .pure ?_
    exact List.forall_mem_cons.mpr ⟨hfirst, hrest⟩

/-! ### Names and imports -/

theorem gives_nameParts (fuel : Nat) :
    Gives (nameParts fuel) fun parts => ∀ part ∈ parts, isName part := by
  induction fuel with
  | zero => exact .pure fun _ h => (nomatch h)
  | succ fuel ih =>
    rw [nameParts]
    refine .bind (.any _) fun point _ => .ite (fun _ => ?_) fun _ => .pure fun _ h => (nomatch h)
    refine .bind (gives_expectName _) fun part hpart => .bind ih fun parts hparts => .pure ?_
    exact List.forall_mem_cons.mpr ⟨hpart, hparts⟩

theorem gives_dottedName (fuel : Nat) : Gives (dottedName fuel) fun x => IsDotted x.1 := by
  rw [dottedName]
  refine .bind (gives_expectName _) fun first hfirst => .bind (gives_nameParts fuel) ?_
  intro parts hparts
  exact .pure ⟨_, List.cons_ne_nil _ _, List.forall_mem_cons.mpr ⟨hfirst, hparts⟩, rfl⟩

theorem gives_importParts (fuel : Nat) :
    Gives (importParts fuel) fun x => ∀ part ∈ x.1, isName part := by
  induction fuel with
  | zero => exact .pure fun _ h => (nomatch h)
  | succ fuel ih =>
    rw [importParts]
    refine .bind (.any _) fun point _ => .ite (fun _ => ?_) fun _ => .pure fun _ h => (nomatch h)
    refine .bind (.any _) fun star _ => .ite (fun _ => .pure fun _ h => (nomatch h)) fun _ => ?_
    refine .bind (gives_expectName _) fun part hpart => .bind ih fun x hparts => .pure ?_
    exact List.forall_mem_cons.mpr ⟨hpart, hparts⟩

theorem gives_importDecl (fuel : Nat) : Gives (importDecl fuel) Import.WellFormed := by
  rw [importDecl]
  refine .bind (gives_expectName _) fun first hfirst => .bind (gives_importParts fuel) ?_
  rintro ⟨parts, all⟩ hparts
  have hnames : ∀ part ∈ first.text :: parts, isName part :=
    List.forall_mem_cons.mpr ⟨hfirst, hparts⟩
  refine .bind (.any _) fun _ _ => .ite (fun _ => .pure ?_) fun _ => ?_
  · exact ⟨⟨_, List.cons_ne_nil _ _, hnames, rfl⟩, fun _ h => nomatch h⟩
  refine .ite (fun _ => .bind (gives_fail _ _) fun _ (h : False) => h.elim) fun hne => .pure ?_
  have hlast : (first.text :: parts).getLast?.getD "" ∈ first.text :: parts := by
    rw [List.getLast?_eq_getLast_of_ne_nil (List.cons_ne_nil _ _), Option.getD_some]
    exact List.getLast_mem _
  constructor
  · refine ⟨_, ?_, fun part hpart => hnames part (List.dropLast_subset _ hpart), rfl⟩
    cases parts with
    | nil => exact absurd rfl hne
    | cons part parts => exact List.cons_ne_nil _ _
  · rintro _ ⟨⟩
    exact hnames _ hlast

/-! ### Literals and types -/

theorem gives_numberLiteral (t : Token) (n : Numeral) : Gives (numberLiteral t n) InRange := by
  rw [numberLiteral]
  refine .ite (fun _ => .ite (fun h => .pure (.integer h.2.1 h.2.2)) fun _ => gives_fail _ _) ?_
  intro _
  exact .ite (fun _ => .pure (.double _)) fun _ => gives_fail _ _

theorem gives_entry {value : Parser Literal} (hvalue : Gives value InRange) :
    Gives (entry value) fun e => InRange e.2 := by
  rw [entry]
  refine .bind (.any _) fun key _ => .bind (.any _) fun name _ => .bind (.any _) fun _ _ => ?_
  exact .bind hvalue fun l hl => .pure hl

theorem gives_literal (fuel : Nat) : Gives (literal fuel) InRange := by
  induction fuel with
  | zero => exact gives_unexpected
  | succ fuel ih =>
    rw [literal]
    refine .bind (.any _) fun next _ => ?_
    cases next with
    | none => exact gives_unexpected
    | some t =>
      refine .ite (fun _ => ?_) fun _ => ?_
      · exact .bind (.any _) fun _ _ => .bind (.any _) fun s _ => .pure (.string s)
      cases numeral? t with
      | some n => exact .bind (.any _) fun _ _ => gives_numberLiteral t n
      | none =>
        refine .bind (.any _) fun _ _ => .ite (fun _ => .pure (.boolean true)) fun _ => ?_
        refine .bind (.any _) fun _ _ => .ite (fun _ => .pure (.boolean false)) fun _ => ?_
        refine .bind (.any _) fun _ _ => .ite (fun _ => .pure .null) fun _ => ?_
        refine .bind (.any _) fun _ _ => .ite (fun _ => ?_) fun _ => ?_
        · refine .bind (.any _) fun _ _ => .ite (fun _ => .pure (.array fun _ h => (nomatch h))) ?_
          exact fun _ => .bind (gives_separated ih _) fun items hitems => .pure (.array hitems)
        refine .bind (.any _) fun _ _ => .ite (fun _ => ?_) fun _ => gives_unexpected
        refine .bind (.any _) fun _ _ => .ite (fun _ => .pure (.object fun _ h => (nomatch h))) ?_
        intro _
        exact .bind (gives_separated (gives_entry ih) _) fun es hes => .pure (.object hes)

theorem gives_typeExpr (fuel : Nat) : Gives (typeExpr fuel) TypeExpr.Named := by
  induction fuel with
  | zero => exact gives_unexpected
  | succ fuel ih =>
    rw [typeExpr]
    refine .bind (gives_dottedName _) fun x hname => .bind (.any _) fun _ _ => .ite ?_ fun _ => ?_
    · exact fun _ => .bind (gives_separated ih _) fun args hargs => .pure (.mk hname hargs)
    · exact .pure (.mk hname fun _ h => nomatch h)

theorem gives_typeParams (fuel : Nat) :
    Gives (typeParams fuel) fun params => ∀ p ∈ params, isName p := by
  rw [typeParams]
  refine .bind (.any _) fun _ _ => .ite (fun _ => ?_) fun _ => .pure fun _ h => (nomatch h)
  exact gives_separated (.bind (gives_expectName _) fun t ht => .pure ht) fuel

/-! ### Annotations and members -/

theorem gives_annotations (fuel : Nat) :
    Gives (annotations fuel) fun as => ∀ a ∈ as, a.WellFormed InRange := by
  induction fuel with
  | zero => exact .pure fun _ h => (nomatch h)
  | succ fuel ih =>
    rw [annotations]
    refine .bind (.any _) fun doc _ => ?_
    cases doc with
    | some doc =>
      have hdoc : isName docName := by decide
      refine .bind ih fun rest hrest => .pure (List.forall_mem_cons.mpr ⟨?_, hrest⟩)
      exact ⟨isDotted_of_isName hdoc, .string doc⟩
    | none =>
      refine .bind (.any _) fun _ _ => .ite (fun _ => ?_) fun _ => .pure fun _ h => (nomatch h)
      refine .bind (gives_dottedName _) fun x hname => .bind (.any _) fun next _ => ?_
      have hrest : ∀ value, InRange value →
          Gives (do let rest ← annotations fuel; return ⟨x.1, value⟩ :: rest)
            fun as => ∀ a ∈ as, a.WellFormed InRange := fun value hvalue =>
        .bind ih fun rest hrest => .pure (List.forall_mem_cons.mpr ⟨⟨hname, hvalue⟩, hrest⟩)
      cases next with
      | some t =>
        refine .ite (fun _ => .bind (gives_literal _) hrest) fun _ => ?_
        exact .bind (.pure .null) hrest
      | none => exact .bind (.pure .null) hrest

theorem gives_takeSerializedName (name : Token) {as : List AnnotationEntry}
    (has : ∀ a ∈ as, a.WellFormed InRange) :
    Gives (takeSerializedName name as) fun x => ∀ a ∈ x.2, a.WellFormed InRange := by
  rw [takeSerializedName]
  cases as.find? isSerializedName with
  | none => exact .pure has
  | some a =>
    dsimp only
    cases a.value with
    | string s => exact .pure fun a ha => has a (List.mem_of_mem_eraseP ha)
    | _ => exact gives_fail _ _

theorem gives_member (allowDefault : Bool) (fuel : Nat) :
    Gives (member allowDefault fuel) fun m =>
      m.WellFormed InRange ∧ (allowDefault = false → m.default = none) := by
  rw [member]
  refine .bind (gives_annotations fuel) fun written hwritten => ?_
  refine .bind (gives_typeExpr fuel) fun type htype => ?_
  refine .bind (gives_expectName _) fun name hname => .bind (.any _) fun equals _ => ?_
  refine .bind (.any _) fun _ _ => ?_
  have hrest : ∀ default : Option Literal, (∀ l ∈ default, InRange l) →
      (allowDefault = false → default = none) →
      Gives (do
        expect ";" "\";\""
        let taken ← takeSerializedName name written
        return ⟨name.text, taken.1, type, default, taken.2, name.position⟩)
        fun m : Member => m.WellFormed InRange ∧ (allowDefault = false → m.default = none) := by
    intro default hdefault hnone
    refine .bind (.any _) fun _ _ => .bind (gives_takeSerializedName name hwritten) ?_
    exact fun x hx => .pure ⟨⟨hname, htype, hdefault, hx⟩, hnone⟩
  refine .ite (fun _ => .ite (fun _ => ?_) fun hallow => ?_) fun _ => ?_
  · exact .bind (gives_fail _ _) fun _ (h : False) => h.elim
  · refine .bind (.map (gives_literal fuel) fun l hl => ?_) fun default h => hrest default h ?_
    · rintro _ ⟨⟩
      exact hl
    · intro hfalse
      exact absurd hfalse (by simpa using hallow)
  · exact .bind (P := (· = none)) (.pure rfl) fun default h =>
      hrest default (by simp [h]) fun _ => h

theorem gives_label (fuel : Nat) :
    Gives (label fuel) fun m => m.WellFormed InRange ∧ m.IsLabel := by
  rw [label]
  refine .bind (gives_annotations fuel) fun written hwritten => ?_
  refine .bind (gives_expectName _) fun name hname => .bind (.any _) fun _ _ => ?_
  refine .bind (gives_takeSerializedName name hwritten) fun x hx => .pure ⟨?_, ⟨_, rfl⟩, rfl⟩
  exact ⟨hname, .mk (isDotted_of_isName (by decide)) fun _ h => (nomatch h),
    fun _ h => (nomatch h), hx⟩

theorem gives_members {P : Member → Prop} {item : Parser Member} (hitem : Gives item P)
    (fuel : Nat) : Gives (members item fuel) fun ms => ∀ m ∈ ms, P m := by
  rw [members]
  exact .bind (.any _) fun _ _ => gives_many hitem fuel

/-! ### Declarations and modules -/

theorem gives_body (fuel : Nat) (k : Keyword) :
    Gives (body fuel k) fun b => b.WellFormed InRange ∧ ∀ ms, b = .enum ms → k = .enum := by
  cases k with
  | struct =>
    refine .bind (gives_members (gives_member true fuel) fuel) fun ms hms => .pure ⟨?_, ?_⟩
    · exact fun m hm => (hms m hm).1
    · exact fun _ h => nomatch h
  | union =>
    refine .bind (gives_members (gives_member false fuel) fuel) fun ms hms => .pure ⟨?_, ?_⟩
    · exact fun m hm => ⟨(hms m hm).1, (hms m hm).2 rfl⟩
    · exact fun _ h => nomatch h
  | enum =>
    refine .bind (gives_members (gives_label fuel) fuel) fun ms hms => .pure ⟨hms, ?_⟩
    exact fun _ _ => rfl
  | «alias» =>
    refine .bind (.any _) fun _ _ => .bind (gives_typeExpr fuel) fun t ht => .pure ⟨ht, ?_⟩
    exact fun _ h => nomatch h
  | newtype =>
    refine .bind (.any _) fun _ _ => .bind (gives_typeExpr fuel) fun t ht => ?_
    have hrest : ∀ default : Option Literal, (∀ l ∈ default, InRange l) →
        Gives (pure (Body.newtype t default)) fun b =>
          b.WellFormed InRange ∧ ∀ ms, b = .enum ms → Keyword.newtype = .enum :=
      fun default hdefault => .pure ⟨⟨ht, hdefault⟩, fun _ h => nomatch h⟩
    refine .bind (.any _) fun _ _ => .ite (fun _ => ?_) fun _ => ?_
    · refine .bind (.map (gives_literal fuel) fun l hl => ?_) hrest
      rintro _ ⟨⟩
      exact hl
    · exact .bind (.pure fun _ h => nomatch h) hrest

theorem gives_decl (fuel : Nat) : Gives (decl fuel) fun d => d.WellFormed InRange := by
  rw [decl]
  refine .bind (gives_annotations fuel) fun written hwritten => ?_
  refine .bind (.any _) fun ⟨kind, position⟩ _ => ?_
  refine .bind (gives_expectName _) fun name hname => ?_
  have hrest : ∀ params : List String, (∀ p ∈ params, isName p) →
      (kind = .enum → params = []) →
      Gives (do
        let body ← body fuel kind
        expect ";" "\";\""
        return ⟨name.text, params, written, body, position⟩)
      fun d : Decl => d.WellFormed InRange := by
    intro params hparams henum
    refine .bind (gives_body fuel kind) fun b hb => .bind (.any _) fun _ _ => .pure ?_
    exact ⟨hname, hparams, fun ms h => henum (hb.2 ms h), hwritten, hb.1⟩
  refine .ite (fun _ => ?_) fun hkind => ?_
  · exact .bind (P := (· = [])) (.pure rfl) fun params h => hrest params (by simp [h]) fun _ => h
  · exact .bind (gives_typeParams fuel) fun params h => hrest params h fun heq => absurd heq hkind

theorem gives_imports (fuel n : Nat) :
    Gives (imports fuel n) fun is => ∀ i ∈ is, i.WellFormed := by
  induction n with
  | zero => exact .pure fun _ h => (nomatch h)
  | succ n ih =>
    rw [imports]
    refine .bind (.any _) fun _ _ => .ite (fun _ => ?_) fun _ => .pure fun _ h => (nomatch h)
    refine .bind (gives_importDecl fuel) fun first hfirst => .bind ih fun rest hrest => .pure ?_
    exact List.forall_mem_cons.mpr ⟨hfirst, hrest⟩

theorem gives_module (fuel : Nat) : Gives (module fuel) (Module.WellFormed InRange) := by
  rw [module]
  refine .bind (gives_annotations fuel) fun written hwritten => .bind (.any _) fun _ _ => ?_
  refine .bind (gives_dottedName fuel) fun ⟨name, _⟩ hname => .bind (.any _) fun _ _ => ?_
  refine .bind (gives_imports fuel fuel) fun imports himports => ?_
  refine .bind (gives_many (gives_decl fuel) fuel) fun decls hdecls => ?_
  refine .bind (.any _) fun _ _ => .bind (.any _) fun _ _ => .ite (fun _ => ?_) fun _ => ?_
  · exact .bind gives_unexpected fun _ (h : False) => h.elim
  · exact .pure ⟨hname, himports, hdecls, hwritten⟩

end Parser

/-- What a module is read as is well-formed, whatever the tokens. -/
theorem wellFormed_of_parse {tokens : List Token} {m : Module} (h : parse tokens = .ok m) :
    m.WellFormed InRange := by
  rw [parse] at h
  cases hm : Parser.module (tokens.length + 1) tokens with
  | error e =>
    rw [hm] at h
    cases h
  | ok x =>
    rw [hm] at h
    cases h
    exact Parser.gives_module _ _ _ _ hm

end Adl.Source
