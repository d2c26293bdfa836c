import Adl.Proofs.Source.RoundTrip
import Adl.Proofs.Source.WellFormed

/-!
# Notes — what is written before modules, declarations and members

Before a module, a declaration or a member stand its notes: blocks of documentation comments, and
annotations (`Notes`).  A block is as long as there are such comments, so two blocks have an
annotation between them.  In a layout of tokens every documentation comment, and every mark of an
annotation, belongs to the notes of the item that begins right behind them (`Layout`).

The tokens that a module is read from are laid out over the items of the module, each of which has
the annotations that its notes stand for (`layout_of_parse`): the text of each block under the name
`Doc`, and the other annotations as they are written.
-/

namespace Adl

/-- A token that is neither a documentation comment nor the mark of an annotation. -/
def Token.Plain (t : Token) : Prop := t.isDoc = false ∧ t.text ≠ "@"

namespace Source

/-! ### Notes -/

/-- A block of documentation comments, or an annotation. -/
inductive Note where
  | lines (block : List Token)
  | entry (a : AnnotationEntry)

namespace Note

/-- The text of a block of documentation comments: each line is ended. -/
def docText (block : List Token) : String := "\n".intercalate (block.map Parser.docLine) ++ "\n"

/-- The annotation that a note stands for. -/
def annotation : Note → AnnotationEntry
  | lines block => ⟨Parser.docName, .string (docText block)⟩
  | entry a => a

/-- The documentation comments of a note. -/
def block? : Note → Option (List Token)
  | lines block => some block
  | entry _ => none

end Note

/-- The first tokens of a list are notes; the others are left. -/
inductive Notes : List Token → List Note → List Token → Prop
  | none (rest : List Token) : Notes rest [] rest
  | lines {block behind rest : List Token} {notes : List Note} (hne : block ≠ [])
      (hdoc : ∀ t ∈ block, t.isDoc) (hend : ∀ t ∈ behind.head?, ¬ t.isDoc)
      (h : Notes behind notes rest) : Notes (block ++ behind) (.lines block :: notes) rest
  | entry {mark : Token} {name value behind rest : List Token} {a : AnnotationEntry}
      {notes : List Note} (hmark : mark.text = "@")
      (hname : String.join (name.map Token.text) = a.name)
      (hplain : ∀ t ∈ name ++ value, t.Plain) (h : Notes behind notes rest) :
      Notes (mark :: (name ++ value ++ behind)) (.entry a :: notes) rest

/-! ### Layouts -/

/-- What can have notes: a module, a declaration, and a member of a declaration. -/
inductive Item where
  | module (m : Module)
  | decl (d : Decl)
  | member (d : Decl) (m : Member)

/-- A declaration and its members, in order. -/
def Decl.items (d : Decl) : List Item := .decl d :: d.members.map (.member d)

/-- A module, its declarations and their members, in order. -/
def Module.items (m : Module) : List Item := .module m :: m.decls.flatMap Decl.items

theorem decl_mem_items {m : Module} {d : Decl} : .decl d ∈ m.items ↔ d ∈ m.decls := by
  simp [Module.items, Decl.items]

theorem member_mem_items {m : Module} {d : Decl} {sm : Member} :
    .member d sm ∈ m.items ↔ d ∈ m.decls ∧ sm ∈ d.members := by
  simp only [Module.items, Decl.items, List.mem_cons, List.mem_flatMap, List.mem_map,
    reduceCtorEq, false_or, Item.member.injEq]
  constructor
  · rintro ⟨_, hd, _, hm, rfl, rfl⟩
    exact ⟨hd, hm⟩
  · rintro ⟨hd, hm⟩
    exact ⟨d, hd, sm, hm, rfl, rfl⟩

namespace Item

/-- The tokens begin with the keyword and the name of a module or a declaration, with the type and
the name of a member, or with the name of a label. -/
def Heads : Item → List Token → Prop
  | module m, ts => ∃ word name rest, ts = word :: (name ++ rest) ∧ word.text = "module" ∧
      String.join (name.map Token.text) = m.name
  | decl d, ts => ∃ word name rest, ts = word :: name :: rest ∧ (Parser.keyword? word).isSome ∧
      word.position = d.position ∧ name.text = d.name
  | member _ m, ts => ∃ type name rest, ts = type ++ name :: rest ∧ (∀ t ∈ type, t.Plain) ∧
      name.position = m.position ∧ name.text = m.name

/-- The item has the annotations that the notes stand for.  Of a member, the first one that gives a
serialized name is taken away. -/
def Keeps : Item → List Note → Prop
  | module m, notes => m.annotations = notes.map Note.annotation
  | decl d, notes => d.annotations = notes.map Note.annotation
  | member _ m, notes =>
    m.annotations = (notes.map Note.annotation).eraseP Parser.isSerializedName

end Item

/-- The tokens up to the rest are those of the items: the notes of an item stand right before the
tokens that it begins with, and no other token could be of a note. -/
inductive Layout : List Token → List (Item × List Note) → List Token → Prop
  | done (rest : List Token) : Layout rest [] rest
  | plain {t : Token} {ts rest : List Token} {placed : List (Item × List Note)} (ht : t.Plain)
      (h : Layout ts placed rest) : Layout (t :: ts) placed rest
  | item {ts mid rest : List Token} {item : Item} {notes : List Note}
      {placed : List (Item × List Note)} (hnotes : Notes ts notes mid) (hheads : item.Heads mid)
      (h : Layout mid placed rest) : Layout ts ((item, notes) :: placed) rest

/-- The tokens are laid out over the items, which keep their notes. -/
def Reads (ts : List Token) (items : List Item) (rest : List Token) : Prop :=
  ∃ placed : List (Item × List Note), placed.map Prod.fst = items ∧
    (∀ p ∈ placed, p.1.Keeps p.2) ∧ Layout ts placed rest

section

variable {ts mid rest used : List Token} {items items' : List Item} {first : Item}
  {notes : List Note} {placed placed' : List (Item × List Note)}

theorem Layout.append (h : Layout ts placed mid) (h' : Layout mid placed' rest) :
    Layout ts (placed ++ placed') rest := by
  induction h with
  | done => exact h'
  | plain ht _ ih => exact .plain ht (ih h')
  | item hnotes hheads _ ih => exact .item hnotes hheads (ih h')

theorem Reads.append (h : Reads ts items mid) (h' : Reads mid items' rest) :
    Reads ts (items ++ items') rest := by
  obtain ⟨placed, rfl, hkeeps, hlayout⟩ := h
  obtain ⟨placed', rfl, hkeeps', hlayout'⟩ := h'
  exact ⟨placed ++ placed', List.map_append, List.forall_mem_append.mpr ⟨hkeeps, hkeeps'⟩,
    hlayout.append hlayout'⟩

theorem Reads.plain (h : Reads mid items rest) (hused : ∀ t ∈ used, t.Plain) :
    Reads (used ++ mid) items rest := by
  induction used with
  | nil => exact h
  | cons t used ih =>
    obtain ⟨ht, hused⟩ := List.forall_mem_cons.mp hused
    obtain ⟨placed, heq, hkeeps, hlayout⟩ := ih hused
    exact ⟨placed, heq, hkeeps, .plain ht hlayout⟩

theorem Reads.item (h : Reads mid items rest) (hnotes : Notes ts notes mid)
    (hheads : first.Heads mid) (hkeeps : first.Keeps notes) : Reads ts (first :: items) rest := by
  obtain ⟨placed, rfl, hplaced, hlayout⟩ := h
  exact ⟨(first, notes) :: placed, rfl, List.forall_mem_cons.mpr ⟨hkeeps, hplaced⟩,
    .item hnotes hheads hlayout⟩

theorem Reads.refl (rest : List Token) : Reads rest [] rest :=
  ⟨[], rfl, List.forall_mem_nil _, .done rest⟩

end

namespace Parser

variable {α β : Type} {p q : Parser α}

/-! ### The tokens that a parser uses -/

theorem bind_eq_ok_iff {f : α → Parser β} {ts rest : List Token} {b : β} :
    (p >>= f) ts = .ok (b, rest) ↔ ∃ a mid, p ts = .ok (a, mid) ∧ f a mid = .ok (b, rest) := by
  change (p ts >>= fun x => f x.1 x.2) = .ok (b, rest) ↔ _
  cases hx : p ts with
  | error e =>
    constructor
    · intro h
      cases h
    · rintro ⟨a, mid, ⟨⟩, -⟩
  | ok x =>
    constructor
    · exact fun h => ⟨x.1, x.2, rfl, h⟩
    · rintro ⟨a, mid, ⟨⟩, h⟩
      exact h

/-- The parser takes plain tokens from the front. -/
def Uses (p : Parser α) : Prop :=
  ∀ ts a rest, p ts = .ok (a, rest) → ∃ used, ts = used ++ rest ∧ ∀ t ∈ used, t.Plain

theorem Uses.pure (a : α) : Uses (pure a) := by
  rintro ts _ _ ⟨⟩
  exact ⟨[], rfl, fun _ h => nomatch h⟩

theorem Uses.bind {f : α → Parser β} (hp : Uses p) (hf : ∀ a, Uses (f a)) : Uses (p >>= f) := by
  intro ts b rest h
  obtain ⟨a, mid, ha, hb⟩ := bind_eq_ok_iff.mp h
  obtain ⟨used, rfl, hused⟩ := hp ts a mid ha
  obtain ⟨used', rfl, hused'⟩ := hf a mid b rest hb
  exact ⟨used ++ used', (List.append_assoc ..).symm, List.forall_mem_append.mpr ⟨hused, hused'⟩⟩

theorem Uses.map (f : α → β) (hp : Uses p) : Uses (f <$> p) := by
  rw [← bind_pure_comp]
  exact hp.bind fun a => .pure (f a)

theorem Uses.ite {c : Prop} [Decidable c] (hp : Uses p) (hq : Uses q) :
    Uses (if c then p else q) := by
  split
  · exact hp
  · exact hq

theorem uses_fail (fault : ParseFault) (token : Option Token) :
    Uses (fail fault token : Parser α) := fun _ _ _ h => nomatch h

theorem uses_unexpected : Uses (unexpected : Parser α) := by
  rintro (_ | _) _ _ ⟨⟩

theorem uses_peek : Uses peek := by
  rintro ts _ _ ⟨⟩
  exact ⟨[], rfl, fun _ h => nomatch h⟩

theorem plain_of_text {text : String} (h : Lexeme.isDoc text.toList = false ∧ text ≠ "@")
    {t : Token} (ht : t.text = text) : t.Plain := by
  rw [Token.Plain, Token.isDoc, ht]
  exact h

theorem eat_eq_ok {text : String} {ts rest : List Token} {eaten : Bool}
    (h : eat text ts = .ok (eaten, rest)) :
    if eaten then ∃ t, ts = t :: rest ∧ t.text = text else rest = ts := by
  cases ts with
  | nil =>
    cases h
    rfl
  | cons t ts =>
    rw [eat] at h
    split at h
    · next ht =>
      cases h
      exact ⟨t, rfl, ht⟩
    · cases h
      rfl

theorem uses_eat {text : String} (h : Lexeme.isDoc text.toList = false ∧ text ≠ "@") :
    Uses (eat text) := by
  intro ts eaten rest hp
  have heat := eat_eq_ok hp
  cases eaten with
  | false => exact ⟨[], heat.symm, fun _ h => nomatch h⟩
  | true =>
    obtain ⟨t, rfl, ht⟩ := heat
    exact ⟨[t], rfl, List.forall_mem_singleton.mpr (plain_of_text h ht)⟩

theorem peek_eq_ok {ts rest : List Token} {next : Option Token} (h : peek ts = .ok (next, rest)) :
    rest = ts ∧ next = ts.head? := by
  cases h
  exact ⟨rfl, rfl⟩

theorem expectWhere_eq_ok {test : Token → Bool} {what : String} {ts rest : List Token} {t : Token}
    (h : expectWhere test what ts = .ok (t, rest)) : ts = t :: rest ∧ test t := by
  cases ts with
  | nil => cases h
  | cons t' ts =>
    rw [expectWhere] at h
    split at h
    · next ht =>
      cases h
      exact ⟨rfl, ht⟩
    · cases h

theorem uses_expectWhere {test : Token → Bool} (what : String) (h : ∀ t, test t → t.Plain) :
    Uses (expectWhere test what) := by
  intro ts t rest hp
  obtain ⟨rfl, ht⟩ := expectWhere_eq_ok hp
  exact ⟨[t], rfl, List.forall_mem_singleton.mpr (h t ht)⟩

theorem uses_expect {text : String} (what : String)
    (h : Lexeme.isDoc text.toList = false ∧ text ≠ "@") : Uses (expect text what) :=
  (uses_expectWhere what fun _ ht => plain_of_text h (of_decide_eq_true ht)).bind fun _ => .pure _

theorem uses_separated {close : String} (what : String) {item : Parser α}
    (hclose : Lexeme.isDoc close.toList = false ∧ close ≠ "@") (hitem : Uses item) (fuel : Nat) :
    Uses (separated close what item fuel) := by
  induction fuel with
  | zero => exact uses_unexpected
  | succ fuel ih =>
    rw [separated]
    refine .bind hitem fun _ => .bind (uses_eat hclose) fun _ => .ite (.pure _) ?_
    exact .bind (uses_expect _ (by decide)) fun _ => .bind ih fun _ => .pure _

/-! ### Tokens of names, literals and types -/

theorem plain_of_isName {t : Token} (h : isName t.text) : t.Plain := by
  refine ⟨not_isDoc_of_isName h, fun hmark => ?_⟩
  rw [hmark] at h
  exact absurd h (by decide)

theorem plain_of_isQuoted {t : Token} (h : isQuoted t) : t.Plain := by
  rw [isQuoted, beq_iff_eq] at h
  refine ⟨?_, fun hmark => ?_⟩
  · rw [Token.isDoc]
    cases hcs : t.text.toList with
    | nil => simp [Lexeme.isDoc]
    | cons c cs =>
      rw [hcs, List.head?_cons, Option.some.injEq] at h
      subst h
      simp [Lexeme.isDoc]
  · rw [hmark] at h
    exact absurd h (by decide)

theorem plain_of_numeral {t : Token} {n : Numeral} (h : numeral? t = some n) : t.Plain := by
  -- no number begins with this character
  have hfirst {c : Char} {cs : List Char} (hcs : t.text.toList = c :: cs)
      (hsign : c ≠ '-') (hdigit : ¬ Text.isDigit c) : False := by
    have hdigits : (c :: cs).takeWhile Text.isDigit = [] := List.takeWhile_cons_of_neg hdigit
    have hnone : Numeral.scan? Text.isDigit (c :: cs) = none := by
      simp [Numeral.scan?, Numeral.scanSign, hdigits, hsign]
    rw [numeral?, hcs, hnone] at h
    cases h
  refine ⟨Bool.eq_false_iff.mpr fun hdoc => ?_, fun hmark => ?_⟩
  · rw [Token.isDoc, Token.isDoc_iff] at hdoc
    obtain ⟨cs, hcs⟩ := hdoc
    exact hfirst hcs.symm (by decide) (by decide)
  · have hcs : t.text.toList = ['@'] := by rw [hmark]; rfl
    exact hfirst hcs (by decide) (by decide)

theorem uses_expectName (what : String) : Uses (expectName what) :=
  uses_expectWhere what fun _ h => plain_of_isName h

theorem uses_dottedName (fuel : Nat) : Uses (dottedName fuel) := by
  have hparts : ∀ fuel, Uses (nameParts fuel) := by
    intro fuel
    induction fuel with
    | zero => exact .pure _
    | succ fuel ih =>
      rw [nameParts]
      refine .bind (uses_eat (by decide)) fun _ => .ite ?_ (.pure _)
      exact .bind (uses_expectName _) fun _ => .bind ih fun _ => .pure _
  rw [dottedName]
  exact .bind (uses_expectName _) fun _ => .bind (hparts fuel) fun _ => .pure _

theorem uses_unquoted (t : Token) : Uses (unquoted t) := by
  rw [unquoted]
  cases Text.unquote t.text with
  | ok s => exact .pure s
  | error e => exact uses_fail _ _

theorem uses_numberLiteral (t : Token) (n : Numeral) : Uses (numberLiteral t n) := by
  rw [numberLiteral]
  exact .ite (.ite (.pure _) (uses_fail _ _)) (.ite (.pure _) (uses_fail _ _))

theorem uses_entry {value : Parser Literal} (h : Uses value) : Uses (entry value) := by
  rw [entry]
  refine .bind (uses_expectWhere _ fun _ => plain_of_isQuoted) fun _ => ?_
  refine .bind (uses_unquoted _) fun _ => .bind (uses_expect _ (by decide)) fun _ => ?_
  exact .bind h fun _ => .pure _

theorem uses_literal (fuel : Nat) : Uses (literal fuel) := by
  induction fuel with
  | zero => exact uses_unexpected
  | succ fuel ih =>
    rw [literal]
    refine .bind uses_peek fun next => ?_
    cases next with
    | none => exact uses_unexpected
    | some t =>
      dsimp only
      split
      · next hquoted =>
        exact .bind (uses_eat (plain_of_isQuoted hquoted)) fun _ =>
          .bind (uses_unquoted t) fun _ => .pure _
      cases hn : numeral? t with
      | some n =>
        exact .bind (uses_eat (plain_of_numeral hn)) fun _ => uses_numberLiteral t n
      | none =>
        dsimp only
        refine .bind (uses_eat (by decide)) fun _ => .ite (.pure _) ?_
        refine .bind (uses_eat (by decide)) fun _ => .ite (.pure _) ?_
        refine .bind (uses_eat (by decide)) fun _ => .ite (.pure _) ?_
        refine .bind (uses_eat (by decide)) fun _ => .ite ?_ ?_
        · refine .bind (uses_eat (by decide)) fun _ => .ite (.pure _) ?_
          exact .bind (uses_separated _ (by decide) ih _) fun _ => .pure _
        refine .bind (uses_eat (by decide)) fun _ => .ite ?_ uses_unexpected
        refine .bind (uses_eat (by decide)) fun _ => .ite (.pure _) ?_
        exact .bind (uses_separated _ (by decide) (uses_entry ih) _) fun _ => .pure _

theorem uses_typeExpr (fuel : Nat) : Uses (typeExpr fuel) := by
  induction fuel with
  | zero => exact uses_unexpected
  | succ fuel ih =>
    rw [typeExpr]
    refine .bind (uses_dottedName _) fun _ => .bind (uses_eat (by decide)) fun _ => ?_
    exact .ite (.bind (uses_separated _ (by decide) ih _) fun _ => .pure _) (.pure _)

theorem uses_typeParams (fuel : Nat) : Uses (typeParams fuel) := by
  rw [typeParams]
  refine .bind (uses_eat (by decide)) fun _ => .ite ?_ (.pure _)
  exact uses_separated _ (by decide) (.bind (uses_expectName _) fun _ => .pure _) fuel

theorem uses_imports (fuel n : Nat) : Uses (imports fuel n) := by
  have hparts : ∀ fuel, Uses (importParts fuel) := by
    intro fuel
    induction fuel with
    | zero => exact .pure _
    | succ fuel ih =>
      rw [importParts]
      refine .bind (uses_eat (by decide)) fun _ => .ite ?_ (.pure _)
      refine .bind (uses_eat (by decide)) fun _ => .ite (.pure _) ?_
      exact .bind (uses_expectName _) fun _ => .bind ih fun _ => .pure _
  have hline : Uses (importDecl fuel) := by
    rw [importDecl]
    refine .bind (uses_expectName _) fun _ => .bind (hparts fuel) fun _ => ?_
    refine .bind (uses_expect _ (by decide)) fun _ => .ite (.pure _) ?_
    exact .ite (.bind (uses_fail _ _) fun _ => .pure _) (.pure _)
  induction n with
  | zero => exact .pure _
  | succ n ih =>
    rw [imports]
    exact .bind (uses_eat (by decide)) fun _ =>
      .ite (.bind hline fun _ => .bind ih fun _ => .pure _) (.pure _)

/-! ### Annotations -/

/-- The comments in front of other tokens are one block, if there are any. -/
theorem docs_eq_ok {ts rest : List Token} {doc : Option String} (h : docs ts = .ok (doc, rest)) :
    doc = none ∧ rest = ts ∨ ∃ block, doc = some (Note.docText block) ∧ ts = block ++ rest ∧
      block ≠ [] ∧ (∀ t ∈ block, t.isDoc) ∧ ∀ t ∈ rest.head?, ¬ t.isDoc := by
  have hsplit := List.takeWhile_append_dropWhile (p := Token.isDoc) (l := ts)
  have hend : ∀ t ∈ (ts.dropWhile Token.isDoc).head?, ¬ t.isDoc := by
    intro t ht
    have hnot := List.head?_dropWhile_not Token.isDoc ts
    rw [Option.mem_def.mp ht] at hnot
    simpa using hnot
  unfold docs at h
  cases h
  by_cases hnil : ts.takeWhile Token.isDoc = []
  · refine .inl ⟨by simp [hnil], ?_⟩
    rwa [hnil, List.nil_append] at hsplit
  · refine .inr ⟨ts.takeWhile Token.isDoc, by simp [hnil, Note.docText], hsplit.symm, hnil,
      fun t ht => ?_, hend⟩
    exact List.mem_takeWhile_imp ht

theorem join_intercalate (first : String) (parts : List String) :
    ".".intercalate (first :: parts) = first ++ String.join (parts.map ("." ++ ·)) := by
  induction parts generalizing first with
  | nil => rw [String.intercalate_singleton, List.map_nil, String.join_nil, String.append_empty]
  | cons part parts ih =>
    rw [String.intercalate_cons_cons, ih, List.map_cons, String.join_cons, String.append_assoc,
      String.append_assoc]

theorem nameParts_eq_ok {fuel : Nat} {ts rest : List Token} {parts : List String}
    (h : nameParts fuel ts = .ok (parts, rest)) :
    ∃ used, ts = used ++ rest ∧ (∀ t ∈ used, t.Plain) ∧
      String.join (used.map Token.text) = String.join (parts.map ("." ++ ·)) := by
  induction fuel generalizing ts parts with
  | zero =>
    cases h
    exact ⟨[], rfl, List.forall_mem_nil _, rfl⟩
  | succ fuel ih =>
    rw [nameParts] at h
    obtain ⟨eaten, mid, heat, hbehind⟩ := bind_eq_ok_iff.mp h
    have hpoint := eat_eq_ok heat
    cases eaten with
    | false =>
      cases hbehind
      exact ⟨[], hpoint.symm, List.forall_mem_nil _, rfl⟩
    | true =>
      obtain ⟨point, rfl, hpoint⟩ := hpoint
      obtain ⟨part, mid', hpart, hafter⟩ := bind_eq_ok_iff.mp hbehind
      obtain ⟨rfl, hname⟩ := expectWhere_eq_ok hpart
      obtain ⟨parts', mid'', hparts, hend⟩ := bind_eq_ok_iff.mp hafter
      cases hend
      obtain ⟨used, rfl, hplain, hjoin⟩ := ih hparts
      refine ⟨point :: part :: used, rfl, ?_, ?_⟩
      · have hdot : point.Plain := plain_of_text (by decide) hpoint
        exact List.forall_mem_cons.mpr ⟨hdot, List.forall_mem_cons.mpr
          ⟨plain_of_isName hname, hplain⟩⟩
      · simp only [List.map_cons, String.join_cons, hjoin, hpoint, String.append_assoc]

/-- The tokens of a dotted name make up its text. -/
theorem dottedName_eq_ok {fuel : Nat} {ts rest : List Token} {name : String × Position}
    (h : dottedName fuel ts = .ok (name, rest)) :
    ∃ used, ts = used ++ rest ∧ (∀ t ∈ used, t.Plain) ∧
      String.join (used.map Token.text) = name.1 := by
  rw [dottedName] at h
  obtain ⟨first, mid, hfirst, hbehind⟩ := bind_eq_ok_iff.mp h
  obtain ⟨rfl, hname⟩ := expectWhere_eq_ok hfirst
  obtain ⟨parts, mid', hparts, hend⟩ := bind_eq_ok_iff.mp hbehind
  cases hend
  obtain ⟨used, rfl, hplain, hjoin⟩ := nameParts_eq_ok hparts
  refine ⟨first :: used, rfl, List.forall_mem_cons.mpr ⟨plain_of_isName hname, hplain⟩, ?_⟩
  rw [List.map_cons, String.join_cons, hjoin, join_intercalate]

/-- The value of an annotation: a literal if one starts there. -/
def annotationValue (fuel : Nat) : Parser Literal := do
  match ← peek with
  | some t => if startsLiteral t then literal fuel else return .null
  | none => return .null

theorem annotations_succ (fuel : Nat) :
    annotations (fuel + 1) = do
      match ← docs with
      | some doc =>
        let rest ← annotations fuel
        return ⟨docName, .string doc⟩ :: rest
      | none =>
        if ← eat "@" then
          let (name, _) ← dottedName (fuel + 1)
          let value ← annotationValue (fuel + 1)
          let rest ← annotations fuel
          return ⟨name, value⟩ :: rest
        else return [] := by
  rw [annotations]
  refine bind_congr fun doc => ?_
  cases doc with
  | some doc => rfl
  | none =>
    refine bind_congr fun eaten => ?_
    refine ite_congr rfl (fun _ => bind_congr fun name => ?_) fun _ => rfl
    obtain ⟨name, position⟩ := name
    dsimp only
    rw [annotationValue, bind_assoc]
    refine bind_congr fun next => ?_
    cases next with
    | none => rfl
    | some t =>
      dsimp only
      split <;> rfl

theorem uses_annotationValue (fuel : Nat) : Uses (annotationValue fuel) := by
  rw [annotationValue]
  refine .bind uses_peek fun next => ?_
  cases next with
  | some t => exact .ite (uses_literal fuel) (.pure _)
  | none => exact .pure _

/-- The annotations that are read are those that notes stand for. -/
theorem exists_notes_of_annotations {fuel : Nat} {ts rest : List Token}
    {as : List AnnotationEntry} (h : annotations fuel ts = .ok (as, rest)) :
    ∃ notes, Notes ts notes rest ∧ as = notes.map Note.annotation := by
  induction fuel generalizing ts as with
  | zero =>
    cases h
    exact ⟨[], .none rest, rfl⟩
  | succ fuel ih =>
    rw [annotations_succ] at h
    obtain ⟨doc, mid, hdocs, hbehind⟩ := bind_eq_ok_iff.mp h
    clear h
    rcases docs_eq_ok hdocs with ⟨rfl, rfl⟩ | ⟨block, rfl, rfl, hne, hdoc, hend⟩
    · obtain ⟨eaten, mid', heat, hmarked⟩ := bind_eq_ok_iff.mp hbehind
      have hmark := eat_eq_ok heat
      cases eaten with
      | false =>
        cases hmarked
        exact ⟨[], hmark ▸ .none _, rfl⟩
      | true =>
        obtain ⟨mark, rfl, hmark⟩ := hmark
        obtain ⟨⟨name, position⟩, mid₂, hname, hnamed⟩ := bind_eq_ok_iff.mp hmarked
        obtain ⟨words, rfl, hwords, hjoin⟩ := dottedName_eq_ok hname
        obtain ⟨value, mid₃, hvalue, hvalued⟩ := bind_eq_ok_iff.mp hnamed
        obtain ⟨words', rfl, hwords'⟩ := uses_annotationValue _ _ _ _ hvalue
        obtain ⟨others, mid₄, hothers, hend⟩ := bind_eq_ok_iff.mp hvalued
        cases hend
        obtain ⟨notes, hnotes, rfl⟩ := ih hothers
        refine ⟨.entry ⟨name, value⟩ :: notes, ?_, rfl⟩
        rw [← List.append_assoc]
        exact .entry hmark hjoin (List.forall_mem_append.mpr ⟨hwords, hwords'⟩) hnotes
    · obtain ⟨others, mid', hothers, hread⟩ := bind_eq_ok_iff.mp hbehind
      cases hread
      obtain ⟨notes, hnotes, rfl⟩ := ih hothers
      exact ⟨.lines block :: notes, .lines hne hdoc hend hnotes, rfl⟩

/-! ### Items -/

theorem Uses.reads {ts rest : List Token} {a : α} (h : Uses p) (hp : p ts = .ok (a, rest)) :
    Reads ts [] rest := by
  obtain ⟨used, rfl, hused⟩ := h ts a rest hp
  exact (Reads.refl rest).plain hused

theorem gives_takeSerializedName_eq (name : Token) (as : List AnnotationEntry) :
    Gives (takeSerializedName name as) fun x => x.2 = as.eraseP isSerializedName := by
  rw [takeSerializedName]
  cases hfind : as.find? isSerializedName with
  | none =>
    refine .pure ?_
    rw [List.eraseP_of_forall_not fun a ha => ?_]
    simpa using List.find?_eq_none.mp hfind a ha
  | some a =>
    dsimp only
    cases a.value with
    | string s => exact .pure rfl
    | _ => exact gives_fail _ _

theorem uses_takeSerializedName (name : Token) (as : List AnnotationEntry) :
    Uses (takeSerializedName name as) := by
  rw [takeSerializedName]
  cases as.find? isSerializedName with
  | none => exact .pure _
  | some a =>
    dsimp only
    cases a.value with
    | string s => exact .pure _
    | _ => exact uses_fail _ _

/-- What is read behind the notes of a member, its type and its name. -/
theorem reads_member_of_notes {ts mid rest : List Token} (type : List Token) {name : Token}
    {m : Member} {notes : List Note} {tail : Parser Member}
    (hnotes : Notes ts notes (type ++ name :: mid))
    (htype : ∀ t ∈ type, t.Plain) (hname : isName name.text) (huses : Uses tail)
    (hgives : Gives tail fun m => m.name = name.text ∧ m.position = name.position ∧
      m.annotations = (notes.map Note.annotation).eraseP isSerializedName)
    (h : tail mid = .ok (m, rest)) (d : Decl) : Reads ts [.member d m] rest := by
  obtain ⟨hm, hposition, hannotations⟩ := hgives _ _ _ h
  have hhead : ∀ t ∈ type ++ [name], t.Plain :=
    List.forall_mem_append.mpr ⟨htype, List.forall_mem_singleton.mpr (plain_of_isName hname)⟩
  have hbehind := (huses.reads h).plain hhead
  rw [List.append_assoc, List.singleton_append] at hbehind
  exact hbehind.item hnotes ⟨type, name, mid, rfl, htype, hposition.symm, hm.symm⟩ hannotations

theorem reads_member {allowDefault : Bool} {fuel : Nat} {ts rest : List Token} {m : Member}
    (h : member allowDefault fuel ts = .ok (m, rest)) (d : Decl) : Reads ts [.member d m] rest := by
  rw [member] at h
  obtain ⟨written, mid, hwritten, hbehind⟩ := bind_eq_ok_iff.mp h
  obtain ⟨type, mid₂, htype, htyped⟩ := bind_eq_ok_iff.mp hbehind
  obtain ⟨name, mid₃, hname, hnamed⟩ := bind_eq_ok_iff.mp htyped
  obtain ⟨notes, hnotes, rfl⟩ := exists_notes_of_annotations hwritten
  obtain ⟨words, rfl, hwords⟩ := uses_typeExpr fuel _ _ _ htype
  obtain ⟨rfl, hisName⟩ := expectWhere_eq_ok hname
  refine reads_member_of_notes words hnotes hwords hisName ?_ ?_ hnamed d
  · have htail (default : Option Literal) : Uses (do
        expect ";" "\";\""
        let taken ← takeSerializedName name (notes.map Note.annotation)
        return (⟨name.text, taken.1, type, default, taken.2, name.position⟩ : Member)) :=
      .bind (uses_expect _ (by decide)) fun _ => .bind (uses_takeSerializedName _ _) fun _ =>
        .pure _
    refine .bind uses_peek fun equals => .bind (uses_eat (by decide)) fun _ => ?_
    refine .ite (.ite (.bind (uses_fail _ _) fun _ => ?_) ?_) (.bind (.pure _) htail)
    · exact .bind (.map _ (uses_literal fuel)) htail
    · exact .bind (.map _ (uses_literal fuel)) htail
  · have htail (default : Option Literal) : Gives (do
        expect ";" "\";\""
        let taken ← takeSerializedName name (notes.map Note.annotation)
        return ⟨name.text, taken.1, type, default, taken.2, name.position⟩)
        fun m : Member => m.name = name.text ∧ m.position = name.position ∧
          m.annotations = (notes.map Note.annotation).eraseP isSerializedName :=
      .bind (.any _) fun _ _ => .bind (gives_takeSerializedName_eq _ _) fun x hx =>
        .pure ⟨rfl, rfl, hx⟩
    refine .bind (.any _) fun equals _ => .bind (.any _) fun _ _ => ?_
    refine .ite (fun _ => .ite (fun _ => ?_) fun _ => ?_) fun _ => ?_
    · exact .bind (gives_fail _ _) fun _ (h : False) => h.elim
    · exact .bind (.any _) fun default _ => htail default
    · exact .bind (.any _) fun default _ => htail default

theorem reads_label {fuel : Nat} {ts rest : List Token} {m : Member}
    (h : label fuel ts = .ok (m, rest)) (d : Decl) : Reads ts [.member d m] rest := by
  rw [label] at h
  obtain ⟨written, mid, hwritten, hbehind⟩ := bind_eq_ok_iff.mp h
  obtain ⟨name, mid₂, hname, hnamed⟩ := bind_eq_ok_iff.mp hbehind
  obtain ⟨notes, hnotes, rfl⟩ := exists_notes_of_annotations hwritten
  obtain ⟨rfl, hisName⟩ := expectWhere_eq_ok hname
  refine reads_member_of_notes [] hnotes (List.forall_mem_nil _) hisName ?_ ?_ hnamed d
  · exact .bind (uses_expect _ (by decide)) fun _ => .bind (uses_takeSerializedName _ _) fun _ =>
      .pure _
  · exact .bind (.any _) fun _ _ => .bind (gives_takeSerializedName_eq _ _) fun x hx =>
      .pure ⟨rfl, rfl, hx⟩

/-- The items of what is read many times are those of each time, in order. -/
theorem reads_many {read : Parser α} {itemsOf : α → List Item} {close : String}
    (hclose : Lexeme.isDoc close.toList = false ∧ close ≠ "@")
    (hread : ∀ ts a rest, read ts = .ok (a, rest) → Reads ts (itemsOf a) rest) {fuel : Nat}
    {ts rest : List Token} {as : List α} (h : many close read fuel ts = .ok (as, rest)) :
    Reads ts (as.flatMap itemsOf) rest := by
  induction fuel generalizing ts as with
  | zero => exact absurd h (by cases ts <;> exact nofun)
  | succ fuel ih =>
    rw [many] at h
    obtain ⟨eaten, mid, heat, hbehind⟩ := bind_eq_ok_iff.mp h
    have hmark := (uses_eat hclose).reads heat
    cases eaten with
    | true =>
      cases hbehind
      exact hmark
    | false =>
      obtain ⟨next, mid₂, hnext, hpeeked⟩ := bind_eq_ok_iff.mp hbehind
      obtain ⟨rfl, rfl⟩ := peek_eq_ok hnext
      cases mid₂ with
      | nil => cases hpeeked
      | cons t ts =>
        obtain ⟨first, mid₃, hfirst, hfirsts⟩ := bind_eq_ok_iff.mp hpeeked
        obtain ⟨others, mid₄, hothers, hend⟩ := bind_eq_ok_iff.mp hfirsts
        cases hend
        exact hmark.append ((hread _ _ _ hfirst).append (ih hothers))

theorem reads_members {read : Parser Member} {d : Decl}
    (hread : ∀ ts m rest, read ts = .ok (m, rest) → Reads ts [.member d m] rest) {fuel : Nat}
    {ts rest : List Token} {ms : List Member} (h : members read fuel ts = .ok (ms, rest)) :
    Reads ts (ms.map (.member d)) rest := by
  rw [members] at h
  obtain ⟨_, mid, hmark, hbehind⟩ := bind_eq_ok_iff.mp h
  rw [List.map_eq_flatMap]
  exact ((uses_expect _ (by decide)).reads hmark).append (reads_many (by decide) hread hbehind)

/-- The items of a body are its members. -/
theorem reads_body {fuel : Nat} {k : Keyword} {ts rest : List Token} {b : Body}
    (h : body fuel k ts = .ok (b, rest)) {d : Decl} (hb : d.body = b) :
    Reads ts (d.members.map (.member d)) rest := by
  unfold Decl.members
  rw [hb]
  cases k with
  | struct =>
    obtain ⟨ms, mid, hms, hbehind⟩ := bind_eq_ok_iff.mp h
    cases hbehind
    exact reads_members (fun _ _ _ hm => reads_member hm d) hms
  | union =>
    obtain ⟨ms, mid, hms, hbehind⟩ := bind_eq_ok_iff.mp h
    cases hbehind
    exact reads_members (fun _ _ _ hm => reads_member hm d) hms
  | enum =>
    obtain ⟨ms, mid, hms, hbehind⟩ := bind_eq_ok_iff.mp h
    cases hbehind
    exact reads_members (fun _ _ _ hm => reads_label hm d) hms
  | «alias» =>
    have huses : Uses (body fuel .alias) :=
      .bind (uses_expect _ (by decide)) fun _ => .bind (uses_typeExpr fuel) fun _ => .pure _
    have hgives : Gives (body fuel .alias) fun b => ∃ t, b = .alias t :=
      .bind (.any _) fun _ _ => .bind (.any _) fun t _ => .pure ⟨t, rfl⟩
    obtain ⟨t, rfl⟩ := hgives _ _ _ h
    exact huses.reads h
  | newtype =>
    have huses : Uses (body fuel .newtype) := by
      refine .bind (uses_expect _ (by decide)) fun _ => .bind (uses_typeExpr fuel) fun _ => ?_
      refine .bind (uses_eat (by decide)) fun _ => .ite ?_ (.bind (.pure _) fun _ => .pure _)
      exact .bind (.map _ (uses_literal fuel)) fun _ => .pure _
    have hgives : Gives (body fuel .newtype) fun b => ∃ t default, b = .newtype t default := by
      refine .bind (.any _) fun _ _ => .bind (.any _) fun t _ => .bind (.any _) fun _ _ => ?_
      exact .ite (fun _ => .bind (.any _) fun default _ => .pure ⟨t, default, rfl⟩) fun _ =>
        .bind (.any _) fun default _ => .pure ⟨t, default, rfl⟩
    obtain ⟨t, default, rfl⟩ := hgives _ _ _ h
    exact huses.reads h

theorem keyword_eq_ok {ts rest : List Token} {k : Keyword × Position}
    (h : keyword ts = .ok (k, rest)) :
    ∃ word, ts = word :: rest ∧ keyword? word = some k.1 ∧ word.position = k.2 := by
  rw [keyword] at h
  obtain ⟨next, mid, hnext, hbehind⟩ := bind_eq_ok_iff.mp h
  obtain ⟨rfl, rfl⟩ := peek_eq_ok hnext
  cases mid with
  | nil => cases hbehind
  | cons word ts =>
    dsimp only [List.head?_cons] at hbehind
    cases hword : keyword? word with
    | none =>
      rw [hword] at hbehind
      cases hbehind
    | some k =>
      rw [hword] at hbehind
      obtain ⟨eaten, mid, heat, hend⟩ := bind_eq_ok_iff.mp hbehind
      rw [eat, if_pos rfl] at heat
      cases heat
      cases hend
      exact ⟨word, rfl, hword, rfl⟩

theorem plain_of_keyword {t : Token} {k : Keyword} (h : keyword? t = some k) : t.Plain := by
  rw [keyword?] at h
  split at h
  case _ ht => exact plain_of_text (by decide) ht
  case _ ht => exact plain_of_text (by decide) ht
  case _ ht => exact plain_of_text (by decide) ht
  case _ ht => exact plain_of_text (by decide) ht
  case _ ht => exact plain_of_text (by decide) ht
  case _ => cases h

/-- The items of a declaration are read in order. -/
theorem reads_decl {fuel : Nat} {ts rest : List Token} {d : Decl}
    (h : decl fuel ts = .ok (d, rest)) : Reads ts d.items rest := by
  rw [decl] at h
  obtain ⟨written, mid, hwritten, hbehind⟩ := bind_eq_ok_iff.mp h
  obtain ⟨⟨kind, position⟩, mid₂, hkind, hkinded⟩ := bind_eq_ok_iff.mp hbehind
  obtain ⟨name, mid₃, hname, hnamed⟩ := bind_eq_ok_iff.mp hkinded
  obtain ⟨notes, hnotes, rfl⟩ := exists_notes_of_annotations hwritten
  obtain ⟨word, rfl, hword, hposition⟩ := keyword_eq_ok hkind
  obtain ⟨rfl, hisName⟩ := expectWhere_eq_ok hname
  obtain ⟨params, b, mid₄, mid₅, hparams, hbody, hend, rfl⟩ : ∃ params b mid₄ mid₅,
      Reads mid₃ [] mid₄ ∧ body fuel kind mid₄ = .ok (b, mid₅) ∧ Reads mid₅ [] rest ∧
      d = ⟨name.text, params, notes.map Note.annotation, b, position⟩ := by
    have hsemicolon : Uses (expect ";" "\";\"") := uses_expect _ (by decide)
    split at hnamed
    · obtain ⟨params, mid₄, hparams, hafter⟩ := bind_eq_ok_iff.mp hnamed
      obtain ⟨b, mid₅, hbody, hbodied⟩ := bind_eq_ok_iff.mp hafter
      obtain ⟨_, mid₆, hlast, hend⟩ := bind_eq_ok_iff.mp hbodied
      cases hparams
      cases hend
      exact ⟨_, b, _, mid₅, .refl _, hbody, hsemicolon.reads hlast, rfl⟩
    · obtain ⟨params, mid₄, hparams, hafter⟩ := bind_eq_ok_iff.mp hnamed
      obtain ⟨b, mid₅, hbody, hbodied⟩ := bind_eq_ok_iff.mp hafter
      obtain ⟨_, mid₆, hlast, hend⟩ := bind_eq_ok_iff.mp hbodied
      cases hend
      exact ⟨params, b, mid₄, mid₅, (uses_typeParams fuel).reads hparams, hbody,
        hsemicolon.reads hlast, rfl⟩
  have hmembers := reads_body hbody
    (d := ⟨name.text, params, notes.map Note.annotation, b, position⟩) rfl
  have hinner := (hparams.append hmembers).append hend
  rw [List.nil_append, List.append_nil] at hinner
  have hhead : ∀ t ∈ [word, name], t.Plain :=
    List.forall_mem_cons.mpr ⟨plain_of_keyword hword,
      List.forall_mem_singleton.mpr (plain_of_isName hisName)⟩
  exact (hinner.plain hhead).item hnotes
    ⟨word, name, mid₃, rfl, Option.isSome_of_eq_some hword, hposition, rfl⟩ rfl

/-- The items of a module are read in order. -/
theorem reads_module {fuel : Nat} {ts rest : List Token} {m : Module}
    (h : module fuel ts = .ok (m, rest)) : Reads ts m.items [] := by
  rw [module] at h
  obtain ⟨written, mid, hwritten, h₁⟩ := bind_eq_ok_iff.mp h
  obtain ⟨_, mid₁, hword, h₂⟩ := bind_eq_ok_iff.mp h₁
  obtain ⟨⟨name, position⟩, mid₂, hname, h₃⟩ := bind_eq_ok_iff.mp h₂
  obtain ⟨_, mid₃, hbrace, h₄⟩ := bind_eq_ok_iff.mp h₃
  obtain ⟨lines, mid₄, hlines, h₅⟩ := bind_eq_ok_iff.mp h₄
  obtain ⟨decls, mid₅, hdecls, h₆⟩ := bind_eq_ok_iff.mp h₅
  obtain ⟨_, mid₆, hlast, h₇⟩ := bind_eq_ok_iff.mp h₆
  obtain ⟨next, mid₇, hnext, h₈⟩ := bind_eq_ok_iff.mp h₇
  obtain ⟨notes, hnotes, rfl⟩ := exists_notes_of_annotations hwritten
  obtain ⟨rfl, rfl⟩ := peek_eq_ok hnext
  obtain ⟨rfl, rfl⟩ : mid₇ = [] ∧ m = ⟨name, lines, decls, notes.map Note.annotation⟩ := by
    cases mid₇ with
    | nil =>
      cases h₈
      exact ⟨rfl, rfl⟩
    | cons t ts => cases h₈
  obtain ⟨word, rfl, hmodule⟩ : ∃ word, mid = word :: mid₁ ∧ word.text = "module" := by
    obtain ⟨word, mid, hword', hend⟩ := bind_eq_ok_iff.mp hword
    obtain ⟨rfl, htext⟩ := expectWhere_eq_ok hword'
    cases hend
    exact ⟨word, rfl, of_decide_eq_true htext⟩
  obtain ⟨words, rfl, hwords, hjoin⟩ := dottedName_eq_ok hname
  have hinner := ((((uses_expect _ (by decide)).reads hbrace).append
    ((uses_imports fuel fuel).reads hlines)).append
      (reads_many (by decide) (fun _ _ _ => reads_decl) hdecls)).append
        ((uses_eat (by decide)).reads hlast)
  rw [List.nil_append, List.nil_append, List.append_nil] at hinner
  have hhead : ∀ t ∈ word :: words, t.Plain :=
    List.forall_mem_cons.mpr ⟨plain_of_text (by decide) hmodule, hwords⟩
  exact (hinner.plain hhead).item hnotes ⟨word, words, mid₂, rfl, hmodule, hjoin⟩ rfl

end Parser

/-- The tokens that a module is read from are laid out over its items, each of which has the
annotations that its notes stand for. -/
theorem layout_of_parse {tokens : List Token} {m : Module} (h : parse tokens = .ok m) :
    ∃ placed : List (Item × List Note), placed.map Prod.fst = m.items ∧
      (∀ p ∈ placed, p.1.Keeps p.2) ∧ Layout tokens placed [] := by
  rw [parse] at h
  cases hm : Parser.module (tokens.length + 1) tokens with
  | error e =>
    rw [hm] at h
    cases h
  | ok x =>
    rw [hm] at h
    cases h
    exact Parser.reads_module hm

end Source

end Adl
