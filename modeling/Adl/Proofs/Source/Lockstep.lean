import Adl.Proofs.Source.RoundTrip
import Adl.Proofs.Token.Lossless
import Adl.Proofs.Token.Spacing

/-!
# Lockstep — the same texts of tokens at other places

A parser looks at the texts of tokens and only keeps their places.  So on two lists of tokens with
the same texts it goes on in lockstep (`Parser.Alike`): from tokens of one number both runs get
values that differ in places only and leave as many tokens, or both fail for one reason at tokens of
one number.  There is one rule for each way to put parsers together, and one lemma for each
production.

The layout of a text means nothing (`layout_laws`): its tokens with other blanks between them are
scanned again, and texts with the same tokens are read alike.
-/

namespace Adl.Source

/-! ### Lists with the same texts -/

/-- Two lists of tokens that differ in places only. -/
structure Relaid where
  one : List Token
  other : List Token
  texts_eq : one.map Token.text = other.map Token.text

namespace Relaid

variable {r : Relaid} {t t' : Token} {next next' : Option Token}

/-- Two tokens have the same number. -/
def Same (r : Relaid) (t t' : Token) : Prop := ∃ i : ℕ, r.one[i]? = some t ∧ r.other[i]? = some t'

/-- Two tokens have the same number, or both texts have ended. -/
def SameNext (r : Relaid) (next next' : Option Token) : Prop :=
  ∃ i : ℕ, next = r.one[i]? ∧ next' = r.other[i]?

theorem Same.text_eq (h : r.Same t t') : t.text = t'.text := by
  obtain ⟨i, ht, ht'⟩ := h
  have htext := congrArg (·[i]?) r.texts_eq
  simpa only [List.getElem?_map, ht, ht', Option.map_some, Option.some.injEq] using htext

theorem Same.sameNext (h : r.Same t t') : r.SameNext (some t) (some t') := by
  obtain ⟨i, ht, ht'⟩ := h
  exact ⟨i, ht.symm, ht'.symm⟩

theorem SameNext.cases (h : r.SameNext next next') :
    (next = none ∧ next' = none) ∨ ∃ t t', next = some t ∧ next' = some t' ∧ r.Same t t' := by
  obtain ⟨i, rfl, rfl⟩ := h
  have htext := congrArg (·[i]?) r.texts_eq
  simp only [List.getElem?_map] at htext
  cases ht : r.one[i]? with
  | none =>
    rw [ht, Option.map_none, eq_comm, Option.map_eq_none_iff] at htext
    exact .inl ⟨rfl, htext⟩
  | some t =>
    rw [ht, Option.map_some, eq_comm, Option.map_eq_some_iff] at htext
    obtain ⟨t', ht', -⟩ := htext
    exact .inr ⟨t, t', rfl, ht', i, ht, ht'⟩

/-- Behind as many tokens both lists have ended, or go on with tokens of one number. -/
theorem drop_cases (r : Relaid) (i : ℕ) :
    (r.one.drop i = [] ∧ r.other.drop i = [] ∧ r.one[i]? = none ∧ r.other[i]? = none) ∨
      ∃ t t', r.one.drop i = t :: r.one.drop (i + 1) ∧ r.other.drop i = t' :: r.other.drop (i + 1) ∧
        r.one[i]? = some t ∧ r.other[i]? = some t' := by
  have hlength : r.one.length = r.other.length := by
    simpa only [List.length_map] using congrArg List.length r.texts_eq
  by_cases hi : i < r.one.length
  · have hi' : i < r.other.length := by omega
    exact .inr ⟨_, _, List.drop_eq_getElem_cons hi, List.drop_eq_getElem_cons hi',
      List.getElem?_eq_getElem hi, List.getElem?_eq_getElem hi'⟩
  · have hi' : r.other.length ≤ i := by omega
    rw [not_lt] at hi
    exact .inl ⟨List.drop_of_length_le hi, List.drop_of_length_le hi',
      List.getElem?_eq_none hi, List.getElem?_eq_none hi'⟩

theorem drop_texts_eq (r : Relaid) (i : ℕ) :
    (r.one.drop i).map Token.text = (r.other.drop i).map Token.text := by
  rw [List.map_drop, List.map_drop, r.texts_eq]

end Relaid

namespace Parser

variable {α β γ δ : Type} {r : Relaid} {R : α → β → Prop} {S : γ → δ → Prop} {p : Parser α}
  {q : Parser β} {t t' : Token}

/-! ### Runs in lockstep -/

/-- Both runs succeed with related values and leave as many tokens, or both fail for one reason at
tokens of one number. -/
inductive Outcomes (r : Relaid) (R : α → β → Prop) :
    Except ParseFailure (α × List Token) → Except ParseFailure (β × List Token) → Prop
  | ok {a : α} {b : β} (i : ℕ) (h : R a b) :
      Outcomes r R (.ok (a, r.one.drop i)) (.ok (b, r.other.drop i))
  | error (fault : ParseFault) (i : ℕ) :
      Outcomes r R (.error ⟨fault, r.one[i]?⟩) (.error ⟨fault, r.other[i]?⟩)

/-- The parsers do the same behind as many tokens. -/
def Alike (r : Relaid) (R : α → β → Prop) (p : Parser α) (q : Parser β) : Prop :=
  ∀ i, Outcomes r R (p (r.one.drop i)) (q (r.other.drop i))

theorem Alike.pure {a : α} {b : β} (h : R a b) : Alike r R (pure a) (pure b) := fun i => .ok i h

theorem Alike.bind {f : α → Parser γ} {g : β → Parser δ} (h : Alike r R p q)
    (hf : ∀ a b, R a b → Alike r S (f a) (g b)) : Alike r S (p >>= f) (q >>= g) := by
  intro i
  show Outcomes r S (p (r.one.drop i) >>= fun x => f x.1 x.2)
    (q (r.other.drop i) >>= fun x => g x.1 x.2)
  have hi := h i
  generalize p (r.one.drop i) = x, q (r.other.drop i) = y at hi ⊢
  cases hi with
  | ok j hab => exact hf _ _ hab j
  | error fault j => exact .error fault j

theorem Alike.mono {R' : α → β → Prop} (h : Alike r R p q) (hR : ∀ a b, R a b → R' a b) :
    Alike r R' p q := by
  intro i
  have hi := h i
  generalize p (r.one.drop i) = x, q (r.other.drop i) = y at hi ⊢
  cases hi with
  | ok j hab => exact .ok j (hR _ _ hab)
  | error fault j => exact .error fault j

theorem Alike.bind_eq {p q : Parser α} {f : α → Parser γ} {g : α → Parser δ} (h : Alike r Eq p q)
    (hf : ∀ a, Alike r S (f a) (g a)) : Alike r S (p >>= f) (q >>= g) := by
  refine h.bind ?_
  rintro a _ rfl
  exact hf a

theorem Alike.map {f : α → γ} {g : β → δ} (h : Alike r R p q)
    (hf : ∀ a b, R a b → S (f a) (g b)) : Alike r S (f <$> p) (g <$> q) := by
  rw [← bind_pure_comp, ← bind_pure_comp]
  exact h.bind fun a b hab => .pure (hf a b hab)

theorem Alike.ite {c : Prop} [Decidable c] {p' : Parser α} {q' : Parser β} (h : Alike r R p q)
    (h' : Alike r R p' q') : Alike r R (if c then p else p') (if c then q else q') := by
  split
  · exact h
  · exact h'

theorem alike_fail (fault : ParseFault) {next next' : Option Token} (h : r.SameNext next next') :
    Alike r R (fail fault next) (fail fault next') := by
  obtain ⟨i, rfl, rfl⟩ := h
  exact fun _ => .error fault i

theorem alike_unexpected : Alike r R unexpected unexpected := by
  intro i
  rcases r.drop_cases i with ⟨hone, hother, ht, ht'⟩ | ⟨t, t', hone, hother, ht, ht'⟩
  · have hfail := Outcomes.error (r := r) (R := R) .unexpectedEnd i
    rw [ht, ht'] at hfail
    rw [hone, hother]
    exact hfail
  · have htext : t.text = t'.text := Relaid.Same.text_eq ⟨i, ht, ht'⟩
    have hfail := Outcomes.error (r := r) (R := R) (.unexpectedToken t.text) i
    rw [ht, ht'] at hfail
    rw [hone, hother, unexpected, unexpected, ← htext]
    exact hfail

theorem alike_peek : Alike r r.SameNext peek peek := by
  intro i
  refine .ok i ⟨i, ?_, ?_⟩
  · exact List.head?_drop
  · exact List.head?_drop

theorem alike_eat (text : String) : Alike r Eq (eat text) (eat text) := by
  intro i
  rcases r.drop_cases i with ⟨hone, hother, -, -⟩ | ⟨t, t', hone, hother, ht, ht'⟩
  · have hpassed := Outcomes.ok (r := r) i (Eq.refl false)
    rw [hone, hother] at hpassed ⊢
    exact hpassed
  · have htext : t.text = t'.text := Relaid.Same.text_eq ⟨i, ht, ht'⟩
    have hpassed := Outcomes.ok (r := r) i (Eq.refl false)
    rw [hone, hother] at hpassed ⊢
    rw [eat, eat, ← htext]
    split
    · exact .ok (i + 1) rfl
    · exact hpassed

/-- A test that looks at the text of a token. -/
def OnText (test : Token → Bool) : Prop := ∀ t t' : Token, t.text = t'.text → test t = test t'

theorem alike_expectWhere {test : Token → Bool} (htest : OnText test) (what : String) :
    Alike r r.Same (expectWhere test what) (expectWhere test what) := by
  intro i
  rcases r.drop_cases i with ⟨hone, hother, ht, ht'⟩ | ⟨t, t', hone, hother, ht, ht'⟩
  · have hfail := Outcomes.error (r := r) (R := r.Same) (.expected what "") i
    rw [ht, ht'] at hfail
    rw [hone, hother]
    exact hfail
  · have htext : t.text = t'.text := Relaid.Same.text_eq ⟨i, ht, ht'⟩
    have hfail := Outcomes.error (r := r) (R := r.Same) (.expected what t.text) i
    rw [ht, ht'] at hfail
    rw [hone, hother, expectWhere, expectWhere, ← htest t t' htext, ← htext]
    split
    · exact .ok (i + 1) ⟨i, ht, ht'⟩
    · exact hfail

theorem alike_expect (text what : String) : Alike r Eq (expect text what) (expect text what) := by
  refine (alike_expectWhere (fun t t' htext => ?_) what).bind fun _ _ _ => .pure rfl
  rw [htext]

theorem alike_expectName (what : String) : Alike r r.Same (expectName what) (expectName what) := by
  refine alike_expectWhere (fun t t' htext => ?_) what
  rw [htext]

theorem onText_isQuoted : OnText isQuoted := fun t t' htext => by rw [isQuoted, isQuoted, htext]

/-- What is read if a token is there, and else. -/
theorem Alike.taken {p' : Parser α} {q' : Parser β} (text : String) (h : Alike r R p q)
    (h' : Alike r R p' q') :
    Alike r R (eat text >>= fun b => if b = true then p else p')
      (eat text >>= fun b => if b = true then q else q') := by
  refine (alike_eat text).bind_eq fun b => ?_
  exact h.ite h'

section

variable {close : String} {item : Parser α} {item' : Parser β}

theorem alike_many (close : String) (hitem : Alike r R item item') (fuel : ℕ) :
    Alike r (List.Forall₂ R) (many close item fuel) (many close item' fuel) := by
  induction fuel with
  | zero => exact alike_unexpected
  | succ fuel ih =>
    rw [many, many]
    refine .taken close (.pure .nil) (alike_peek.bind fun next next' hnext => ?_)
    have hitems : Alike r (List.Forall₂ R)
        (do let first ← item; let rest ← many close item fuel; return first :: rest)
        (do let first ← item'; let rest ← many close item' fuel; return first :: rest) :=
      hitem.bind fun a b hab => ih.bind fun as bs habs => .pure (.cons hab habs)
    rcases hnext.cases with ⟨rfl, rfl⟩ | ⟨t, t', rfl, rfl, -⟩
    · exact alike_unexpected.bind_eq fun _ => hitems
    · exact hitems

theorem alike_separated (close what : String) (hitem : Alike r R item item') (fuel : ℕ) :
    Alike r (List.Forall₂ R) (separated close what item fuel)
      (separated close what item' fuel) := by
  induction fuel with
  | zero => exact alike_unexpected
  | succ fuel ih =>
    rw [separated, separated]
    refine hitem.bind fun a b hab => .taken close (.pure (.cons hab .nil)) ?_
    refine (alike_expect _ _).bind_eq fun _ => ih.bind fun as bs habs => ?_
    exact .pure (.cons hab habs)

end

/-! ### Names and imports -/

theorem alike_nameParts (fuel : ℕ) : Alike r Eq (nameParts fuel) (nameParts fuel) := by
  induction fuel with
  | zero => exact .pure rfl
  | succ fuel ih =>
    rw [nameParts]
    refine .taken "." ((alike_expectName _).bind fun part part' hpart => ?_) (.pure rfl)
    exact ih.bind_eq fun parts => .pure (by rw [hpart.text_eq])

theorem alike_dottedName (fuel : ℕ) :
    Alike r (fun x y => x.1 = y.1) (dottedName fuel) (dottedName fuel) := by
  refine (alike_expectName _).bind fun first first' hfirst => ?_
  refine (alike_nameParts fuel).bind_eq fun parts => ?_
  exact .pure (by rw [hfirst.text_eq])

theorem alike_importParts (fuel : ℕ) : Alike r Eq (importParts fuel) (importParts fuel) := by
  induction fuel with
  | zero => exact .pure rfl
  | succ fuel ih =>
    rw [importParts]
    refine .taken "." (.taken "*" (.pure rfl) ?_) (.pure rfl)
    refine (alike_expectName _).bind fun part part' hpart => ih.bind_eq fun x => ?_
    exact .pure (by rw [hpart.text_eq])

theorem alike_importDecl (fuel : ℕ) :
    Alike r (fun i i' => i.unplaced = i'.unplaced) (importDecl fuel) (importDecl fuel) := by
  refine (alike_expectName _).bind fun first first' hfirst => ?_
  refine (alike_importParts fuel).bind_eq fun ⟨parts, all⟩ => ?_
  refine (alike_expect _ _).bind_eq fun _ => ?_
  have hname : Alike r (fun i i' : Import => i.unplaced = i'.unplaced)
      (pure ⟨".".intercalate (first.text :: parts).dropLast,
        .name ((first.text :: parts).getLast?.getD ""), first.position⟩)
      (pure ⟨".".intercalate (first'.text :: parts).dropLast,
        .name ((first'.text :: parts).getLast?.getD ""), first'.position⟩) :=
    .pure (by rw [Import.unplaced, Import.unplaced, hfirst.text_eq])
  refine .ite (.pure ?_) (.ite ?_ hname)
  · rw [Import.unplaced, Import.unplaced, hfirst.text_eq]
  · exact (alike_fail _ hfirst.sameNext).bind_eq fun _ => hname

/-! ### Literals -/

theorem alike_unquoted (h : r.Same t t') : Alike r Eq (unquoted t) (unquoted t') := by
  rw [unquoted, unquoted, ← h.text_eq]
  cases Text.unquote t.text with
  | ok s => exact .pure rfl
  | error e => exact alike_fail _ h.sameNext

theorem alike_numberLiteral (h : r.Same t t') (n : Numeral) :
    Alike r Eq (numberLiteral t n) (numberLiteral t' n) := by
  rw [numberLiteral, numberLiteral, ← h.text_eq]
  have hfail (fault : ParseFault) := alike_fail (R := @Eq Literal) fault h.sameNext
  exact .ite (.ite (.pure rfl) (hfail _)) (.ite (.pure rfl) (hfail _))

theorem alike_entry {value : Parser Literal} (hvalue : Alike r Eq value value) :
    Alike r Eq (entry value) (entry value) := by
  refine (alike_expectWhere onText_isQuoted _).bind fun key key' hkey => ?_
  refine (alike_unquoted hkey).bind_eq fun name => ?_
  exact (alike_expect _ _).bind_eq fun _ => hvalue.bind_eq fun v => .pure rfl

theorem alike_literal (fuel : ℕ) : Alike r Eq (literal fuel) (literal fuel) := by
  induction fuel with
  | zero => exact alike_unexpected
  | succ fuel ih =>
    rw [literal]
    refine alike_peek.bind fun next next' hnext => ?_
    rcases hnext.cases with ⟨rfl, rfl⟩ | ⟨t, t', rfl, rfl, ht⟩
    · exact alike_unexpected
    dsimp only
    have hnumeral : numeral? t = numeral? t' := by rw [numeral?, numeral?, ht.text_eq]
    rw [onText_isQuoted t t' ht.text_eq, ← ht.text_eq, hnumeral]
    refine .ite ?_ ?_
    · exact (alike_eat _).bind_eq fun _ => (alike_unquoted ht).bind_eq fun s => .pure rfl
    cases numeral? t' with
    | some n => exact (alike_eat _).bind_eq fun _ => alike_numberLiteral ht n
    | none =>
      refine .taken _ (.pure rfl) (.taken _ (.pure rfl) (.taken _ (.pure rfl) ?_))
      refine .taken _ (.taken _ (.pure rfl) ?_) (.taken _ (.taken _ (.pure rfl) ?_) ?_)
      · refine (alike_separated _ _ ih _).bind fun items items' hitems => ?_
        rw [List.forall₂_eq_eq_eq] at hitems
        exact .pure (congrArg _ hitems)
      · refine (alike_separated _ _ (alike_entry ih) _).bind fun entries entries' hentries => ?_
        rw [List.forall₂_eq_eq_eq] at hentries
        exact .pure (congrArg _ hentries)
      · exact alike_unexpected

/-! ### Types -/

theorem alike_typeExpr (fuel : ℕ) :
    Alike r (fun t t' => t.unplaced = t'.unplaced) (typeExpr fuel) (typeExpr fuel) := by
  induction fuel with
  | zero => exact alike_unexpected
  | succ fuel ih =>
    rw [typeExpr]
    refine (alike_dottedName _).bind ?_
    rintro ⟨name, position⟩ ⟨_, position'⟩ rfl
    refine .taken _ ((alike_separated _ _ ih _).bind fun args args' hargs => .pure ?_) (.pure rfl)
    rw [TypeExpr.unplaced, TypeExpr.unplaced, TypeExpr.unplacedAll_eq_map,
      TypeExpr.unplacedAll_eq_map, map_eq_of_forall₂ hargs]

theorem alike_typeParams (fuel : ℕ) : Alike r Eq (typeParams fuel) (typeParams fuel) := by
  refine .taken _ ?_ (.pure rfl)
  have hparam : Alike r Eq (do return (← expectName "type parameter").text)
      (do return (← expectName "type parameter").text) :=
    (alike_expectName _).bind fun t t' ht => .pure ht.text_eq
  refine (alike_separated _ _ hparam _).mono fun params params' hparams => ?_
  rwa [List.forall₂_eq_eq_eq] at hparams

/-! ### Annotations -/

theorem onText_isDoc : OnText Token.isDoc := fun t t' htext => by
  rw [Token.isDoc, Token.isDoc, htext]

theorem docLines_eq {ts ts' : List Token} (h : ts.map Token.text = ts'.map Token.text) :
    (ts.takeWhile Token.isDoc).map docLine = (ts'.takeWhile Token.isDoc).map docLine ∧
      ∃ n, ts.dropWhile Token.isDoc = ts.drop n ∧ ts'.dropWhile Token.isDoc = ts'.drop n := by
  induction ts generalizing ts' with
  | nil =>
    rw [List.map_nil, eq_comm, List.map_eq_nil_iff] at h
    subst h
    exact ⟨rfl, 0, rfl, rfl⟩
  | cons t ts ih =>
    rw [List.map_cons, eq_comm] at h
    obtain ⟨t', ts', rfl, htext, hrest⟩ := List.map_eq_cons_iff.mp h
    have hdoc := onText_isDoc t t' htext.symm
    by_cases ht : t.isDoc
    · obtain ⟨hlines, n, hone, hother⟩ := ih hrest.symm
      have ht' : t'.isDoc := hdoc ▸ ht
      rw [List.takeWhile_cons_of_pos ht, List.takeWhile_cons_of_pos ht',
        List.dropWhile_cons_of_pos ht, List.dropWhile_cons_of_pos ht', List.map_cons,
        List.map_cons, hlines, docLine, docLine, htext]
      exact ⟨rfl, n + 1, hone, hother⟩
    · have ht' : ¬ t'.isDoc := hdoc ▸ ht
      rw [List.takeWhile_cons_of_neg ht, List.takeWhile_cons_of_neg ht',
        List.dropWhile_cons_of_neg ht, List.dropWhile_cons_of_neg ht']
      exact ⟨rfl, 0, rfl, rfl⟩

theorem alike_docs : Alike r Eq docs docs := by
  intro i
  obtain ⟨hlines, n, hone, hother⟩ := docLines_eq (r.drop_texts_eq i)
  rw [docs, docs, hone, hother, hlines, List.drop_drop, List.drop_drop]
  exact .ok _ rfl

theorem alike_annotations (fuel : ℕ) : Alike r Eq (annotations fuel) (annotations fuel) := by
  induction fuel with
  | zero => exact .pure rfl
  | succ fuel ih =>
    rw [annotations]
    refine alike_docs.bind_eq fun doc => ?_
    cases doc with
    | some doc =>
      exact ih.bind_eq fun others => .pure rfl
    | none =>
      refine .taken _ ((alike_dottedName _).bind ?_) (.pure rfl)
      rintro ⟨name, position⟩ ⟨_, position'⟩ rfl
      have hbehind (value : Literal) : Alike r Eq
          (do return (⟨name, value⟩ : AnnotationEntry) :: (← annotations fuel))
          (do return (⟨name, value⟩ : AnnotationEntry) :: (← annotations fuel)) :=
        ih.bind_eq fun others => .pure rfl
      refine alike_peek.bind fun next next' hnext => ?_
      rcases hnext.cases with ⟨rfl, rfl⟩ | ⟨t, t', rfl, rfl, ht⟩
      · exact hbehind .null
      · have hstarts : startsLiteral t = startsLiteral t' := by
          rw [startsLiteral, startsLiteral, onText_isQuoted t t' ht.text_eq, numeral?, numeral?,
            ht.text_eq]
        dsimp only
        rw [hstarts]
        exact .ite ((alike_literal _).bind_eq hbehind) (hbehind .null)

/-! ### Members -/

theorem alike_takeSerializedName (h : r.Same t t') (as : List AnnotationEntry) :
    Alike r Eq (takeSerializedName t as) (takeSerializedName t' as) := by
  rw [takeSerializedName, takeSerializedName, h.text_eq]
  cases as.find? isSerializedName with
  | none => exact .pure rfl
  | some a =>
    dsimp only
    cases a.value with
    | string s => exact .pure rfl
    | _ => exact alike_fail _ h.sameNext

theorem alike_default (fuel : ℕ) :
    Alike r Eq (some <$> literal fuel) (some <$> literal fuel) :=
  (alike_literal fuel).map fun _ _ h => congrArg some h

theorem alike_member (allowDefault : Bool) (fuel : ℕ) :
    Alike r (fun m m' => m.unplaced = m'.unplaced) (member allowDefault fuel)
      (member allowDefault fuel) := by
  refine (alike_annotations fuel).bind_eq fun written => ?_
  refine (alike_typeExpr fuel).bind fun type type' htype => ?_
  refine (alike_expectName _).bind fun name name' hname => ?_
  refine alike_peek.bind fun equals equals' hequals => ?_
  have htail (default : Option Literal) : Alike r (fun m m' => m.unplaced = m'.unplaced)
      (do expect ";" "\";\""
          let taken ← takeSerializedName name written
          return (⟨name.text, taken.1, type, default, taken.2, name.position⟩ : Member))
      (do expect ";" "\";\""
          let taken ← takeSerializedName name' written
          return (⟨name'.text, taken.1, type', default, taken.2, name'.position⟩ : Member)) := by
    refine (alike_expect _ _).bind_eq fun _ => ?_
    refine (alike_takeSerializedName hname written).bind_eq fun taken => ?_
    exact .pure (by rw [Member.unplaced, Member.unplaced, hname.text_eq, htype])
  have hread := (alike_default fuel).bind_eq htail
  refine .taken _ (.ite ?_ hread) (htail none)
  exact (alike_fail _ hequals).bind_eq fun _ => hread

theorem alike_label (fuel : ℕ) :
    Alike r (fun m m' => m.unplaced = m'.unplaced) (label fuel) (label fuel) := by
  refine (alike_annotations fuel).bind_eq fun written => ?_
  refine (alike_expectName _).bind fun name name' hname => ?_
  refine (alike_expect _ _).bind_eq fun _ => ?_
  refine (alike_takeSerializedName hname written).bind_eq fun taken => ?_
  refine .pure ?_
  rw [Member.unplaced, Member.unplaced, hname.text_eq]
  rfl

theorem alike_members {item : Parser Member}
    (hitem : Alike r (fun m m' => m.unplaced = m'.unplaced) item item) (fuel : ℕ) :
    Alike r (fun ms ms' => ms.map Member.unplaced = ms'.map Member.unplaced) (members item fuel)
      (members item fuel) :=
  (alike_expect _ _).bind_eq fun _ =>
    (alike_many _ hitem fuel).mono fun _ _ hms => map_eq_of_forall₂ hms

/-! ### Declarations and modules -/

theorem alike_keyword : Alike r (fun x y => x.1 = y.1) keyword keyword := by
  refine alike_peek.bind fun next next' hnext => ?_
  rcases hnext.cases with ⟨rfl, rfl⟩ | ⟨t, t', rfl, rfl, ht⟩
  · exact alike_unexpected
  · dsimp only
    have hkeyword : keyword? t = keyword? t' := by rw [keyword?, keyword?, ht.text_eq]
    rw [← ht.text_eq, hkeyword]
    cases keyword? t' with
    | none => exact alike_unexpected
    | some k => exact (alike_eat _).bind_eq fun _ => .pure rfl

theorem alike_body (fuel : ℕ) (k : Keyword) :
    Alike r (fun b b' => b.unplaced = b'.unplaced) (body fuel k) (body fuel k) := by
  cases k with
  | struct =>
    exact (alike_members (alike_member true fuel) fuel).bind fun ms ms' hms =>
      .pure (congrArg Body.struct hms)
  | union =>
    exact (alike_members (alike_member false fuel) fuel).bind fun ms ms' hms =>
      .pure (congrArg Body.union hms)
  | enum =>
    exact (alike_members (alike_label fuel) fuel).bind fun ms ms' hms =>
      .pure (congrArg Body.enum hms)
  | «alias» =>
    exact (alike_expect _ _).bind_eq fun _ => (alike_typeExpr fuel).bind fun t t' ht =>
      .pure (congrArg Body.alias ht)
  | newtype =>
    refine (alike_expect _ _).bind_eq fun _ => (alike_typeExpr fuel).bind fun t t' ht => ?_
    have htail (default : Option Literal) : Alike r (fun b b' => b.unplaced = b'.unplaced)
        (pure (Body.newtype t default)) (pure (Body.newtype t' default)) :=
      .pure (by rw [Body.unplaced, Body.unplaced, ht])
    exact .taken _ ((alike_default fuel).bind_eq htail) (htail none)

theorem alike_decl (fuel : ℕ) :
    Alike r (fun d d' => d.unplaced = d'.unplaced) (decl fuel) (decl fuel) := by
  refine (alike_annotations fuel).bind_eq fun written => ?_
  refine alike_keyword.bind ?_
  rintro ⟨kind, position⟩ ⟨_, position'⟩ rfl
  refine (alike_expectName _).bind fun name name' hname => ?_
  have hbehind (params : List String) : Alike r (fun d d' => d.unplaced = d'.unplaced)
      (do let b ← body fuel kind
          expect ";" "\";\""
          return (⟨name.text, params, written, b, position⟩ : Decl))
      (do let b ← body fuel kind
          expect ";" "\";\""
          return (⟨name'.text, params, written, b, position'⟩ : Decl)) := by
    refine (alike_body fuel kind).bind fun b b' hb => (alike_expect _ _).bind_eq fun _ => ?_
    exact .pure (by rw [Decl.unplaced, Decl.unplaced, hname.text_eq, hb])
  exact .ite (hbehind []) ((alike_typeParams fuel).bind_eq hbehind)

theorem alike_imports (fuel n : ℕ) :
    Alike r (List.Forall₂ fun i i' => i.unplaced = i'.unplaced) (imports fuel n)
      (imports fuel n) := by
  induction n with
  | zero => exact .pure .nil
  | succ n ih =>
    rw [imports]
    exact .taken _ ((alike_importDecl fuel).bind fun i i' hi => ih.bind fun is is' his =>
      .pure (.cons hi his)) (.pure .nil)

theorem alike_module (fuel : ℕ) :
    Alike r (fun m m' => m.unplaced = m'.unplaced) (module fuel) (module fuel) := by
  refine (alike_annotations fuel).bind_eq fun written => ?_
  refine (alike_expect _ _).bind_eq fun _ => (alike_dottedName fuel).bind ?_
  rintro ⟨name, position⟩ ⟨_, position'⟩ rfl
  refine (alike_expect _ _).bind_eq fun _ => ?_
  refine (alike_imports fuel fuel).bind fun is is' his => ?_
  refine (alike_many _ (alike_decl fuel) fuel).bind fun ds ds' hds => ?_
  refine (alike_eat _).bind_eq fun _ => alike_peek.bind fun next next' hnext => ?_
  have hmodule : Alike r (fun m m' => m.unplaced = m'.unplaced)
      (pure (⟨name, is, ds, written⟩ : Module)) (pure (⟨name, is', ds', written⟩ : Module)) :=
    .pure (by rw [Module.unplaced, Module.unplaced, map_eq_of_forall₂ his, map_eq_of_forall₂ hds])
  rcases hnext.cases with ⟨rfl, rfl⟩ | ⟨t, t', rfl, rfl, -⟩
  · exact hmodule
  · exact alike_unexpected.bind_eq fun _ => hmodule

end Parser

/-! ### Modules -/

/-- Both texts are modules that differ in places only, or both are none, for one reason and at
tokens of one number; the last token is the end of a text. -/
inductive SameReading (label label' : String) (tokens tokens' : Tokens) :
    Except Error Module → Except Error Module → Prop
  | ok {m m' : Module} (h : m.unplaced = m'.unplaced) :
      SameReading label label' tokens tokens' (.ok m) (.ok m')
  | error (fault : ParseFault) (i : ℕ) {t t' : Token} (h : tokens.closed[i]? = some t)
      (h' : tokens'.closed[i]? = some t') :
      SameReading label label' tokens tokens' (.error (.form label t.position (.parse fault)))
        (.error (.form label' t'.position (.parse fault)))

variable {text text' : String} {tokens tokens' : Tokens}

/-- A failure at a token is reported at its place, and one behind all tokens at the end. -/
theorem closed_getElem? (tokens : Tokens) (i : ℕ) :
    ∃ t, tokens.closed[min i tokens.list.length]? = some t ∧
      t.position = (tokens.list[i]?.map Token.position).getD tokens.stop := by
  by_cases hi : i < tokens.list.length
  · refine ⟨tokens.list[i], ?_, ?_⟩
    · rw [Tokens.closed, min_eq_left hi.le, List.getElem?_append_left hi,
        List.getElem?_eq_getElem hi]
    · rw [List.getElem?_eq_getElem hi]
      rfl
  · rw [not_lt] at hi
    refine ⟨⟨"", tokens.stop⟩, ?_, ?_⟩
    · rw [Tokens.closed, min_eq_right hi, List.getElem?_concat_length]
    · rw [List.getElem?_eq_none hi]
      rfl

theorem sameReading_of_texts_eq (label label' : String) (h : Token.scan text = .ok tokens)
    (h' : Token.scan text' = .ok tokens')
    (htexts : tokens.list.map Token.text = tokens'.list.map Token.text) :
    SameReading label label' tokens tokens' (ofText label text) (ofText label' text') := by
  have hlength : tokens.list.length = tokens'.list.length := by
    simpa only [List.length_map] using congrArg List.length htexts
  have hrun := Parser.alike_module (r := ⟨_, _, htexts⟩) (tokens.list.length + 1) 0
  rw [List.drop_zero, List.drop_zero] at hrun
  rw [ofText, ofText, h, h']
  dsimp only
  rw [parse, parse, ← hlength]
  generalize Parser.module _ tokens.list = x, Parser.module _ tokens'.list = y at hrun ⊢
  cases hrun with
  | ok i hm => exact .ok hm
  | error fault i =>
    obtain ⟨t, ht, hplace⟩ := closed_getElem? tokens i
    obtain ⟨t', ht', hplace'⟩ := closed_getElem? tokens' i
    rw [← hlength] at ht'
    dsimp only [Except.map]
    rw [← hplace, ← hplace']
    exact .error fault _ ht ht'

/-- **Layout means nothing.**  The tokens of a text are scanned again if they stand one after the
other with line breaks between them, or with any white space and comments that begin and end with
line breaks; and texts with the same tokens are read alike, whatever stands between these. -/
theorem layout_laws (h : Token.scan text = .ok tokens) :
    (∃ again, Token.scan ("\n".intercalate (tokens.list.map Token.text)) = .ok again ∧
      again.list.map Token.text = tokens.list.map Token.text) ∧
    (∀ spread, Token.Spread (tokens.list.map Token.text) spread →
      ∃ again, Token.scan (String.ofList spread) = .ok again ∧
        again.list.map Token.text = tokens.list.map Token.text) ∧
    ∀ text' tokens', Token.scan text' = .ok tokens' →
      tokens.list.map Token.text = tokens'.list.map Token.text →
      ∀ label label', SameReading label label' tokens tokens' (ofText label text)
        (ofText label' text') := by
  refine ⟨?_, fun spread hspread => Token.scan_spread h hspread, ?_⟩
  · have hlines := Token.scan_spread h (Token.spread_intercalate _)
    rwa [String.ofList_toList] at hlines
  · exact fun text' tokens' h' htexts label label' =>
      sameReading_of_texts_eq label label' h h' htexts

/-- A module with imports, documentation, an annotation and a declaration, in which literals and
types are nested. -/
def nestedText : String :=
  "/// All\nmodule m \x7b\nimport a.*; import a.B;\n// One\n@Since [1, \x7b\"k\":[]\x7d]\n" ++
    "struct S<T> \x7b\nB<List<T>, T> x = [[null]];\n\x7d;\n\x7d"

/-- Its lexemes. -/
def nestedLexemes : List (List Char) :=
  ["/// All", "\n", "module", " ", "m", " ", "\x7b", "\n", "import", " ", "a", ".", "*", ";", " ",
    "import", " ", "a", ".", "B", ";", "\n", "// One", "\n", "@", "Since", " ", "[", "1", ",", " ",
    "\x7b", "\"k\"", ":", "[", "]", "\x7d", "]", "\n", "struct", " ", "S", "<", "T", ">", " ",
    "\x7b", "\n", "B", "<", "List", "<", "T", ">", ",", " ", "T", ">", " ", "x", " ", "=", " ", "[",
    "[", "null", "]", "]", ";", "\n", "\x7d", ";", "\n", "\x7d"].map String.toList

/-- The texts of its tokens. -/
def nestedWords : List String :=
  (nestedLexemes.filter fun lexeme => !Lexeme.isDropped lexeme).map String.ofList

theorem cut_nestedText : Token.Cut [] nestedText.toList nestedLexemes [] := by
  have hflatten : nestedText.toList = nestedLexemes.flatten := by decide +kernel
  rw [hflatten]
  decide +kernel

/-- The module is read alike wherever its tokens stand. -/
theorem nestedText_layout :
    ∃ tokens, Token.scan nestedText = .ok tokens ∧ tokens.list.map Token.text = nestedWords ∧
      (∃ again, Token.scan ("\n".intercalate nestedWords) = .ok again ∧
        again.list.map Token.text = nestedWords) ∧
      ∀ text' tokens', Token.scan text' = .ok tokens' → tokens'.list.map Token.text = nestedWords →
        SameReading "a" "b" tokens tokens' (ofText "a" nestedText) (ofText "b" text') := by
  have hscan := Token.scan_of_cut cut_nestedText
  have hwords : (Token.kept [] nestedLexemes).map Token.text = nestedWords := by decide +kernel
  obtain ⟨⟨again, hagain, htexts⟩, -, hread⟩ := layout_laws hscan
  dsimp only at hagain htexts hread
  rw [hwords] at hagain htexts hread
  exact ⟨_, hscan, hwords, ⟨again, hagain, htexts⟩, fun text' tokens' h' htexts' =>
    hread text' tokens' h' htexts'.symm "a" "b"⟩

end Adl.Source
