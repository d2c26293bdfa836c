import Adl.Proofs.Source.Literals
import Adl.Proofs.Source.Notes
import Adl.Proofs.Value.Fits
import Mathlib.Data.Nat.Digits.Defs

/-!
# Taken — the tokens that a parser takes and where it fails

On the end of a list of tokens a parser takes tokens off the front, or it fails at a token of the
whole list or behind all of them (`Takes`).  What it gives back is related to the tokens that it has
taken: a literal is spelled by them (`Spells`), where an integer is the number that its decimal
digits write.  So the literals of a module are spelled by tokens in a row, and those of its defaults
by the tokens at the place where the default is written (`readFrom_of_parse`).
-/

namespace Adl.Source

/-! ### Spellings of literals -/

/-- The number that decimal digits write, the most significant one first. -/
def decimal (digits : List Char) : ℕ := Nat.ofDigits 10 (digits.map Text.digitValue).reverse

/-- Decimal digits, perhaps behind a minus sign, write an integer. -/
inductive Writes : List Char → ℤ → Prop
  | plain {digits : List Char} (hne : digits ≠ []) (hdigits : ∀ c ∈ digits, Text.isAsciiDigit c) :
      Writes digits (decimal digits)
  | minus {digits : List Char} (hne : digits ≠ []) (hdigits : ∀ c ∈ digits, Text.isAsciiDigit c) :
      Writes ('-' :: digits) (-(decimal digits : ℤ))

/-- A word is the quoted text of a string. -/
structure Quotes (word s : String) : Prop where
  head : word.toList.head? = some '"'
  text : Text.unquote word = .ok s

/-- The words spell a literal. -/
inductive Spells : List String → Literal → Prop
  | null : Spells ["null"] .null
  | boolean (b : Bool) : Spells [if b then "true" else "false"] (.boolean b)
  | integer {word : String} {i : ℤ} (h : Writes word.toList i) (hle : Parser.minInteger ≤ i)
      (hge : i ≤ Parser.maxInteger) : Spells [word] (.integer i)
  | double {word : String} {n : Numeral}
      (h : Numeral.scan? Text.isDigit word.toList = some (n, [])) (hinteger : n.isInteger = false)
      (hvalue : n.hasValue) : Spells [word] (.double n.toDouble)
  | string {word s : String} (h : Quotes word s) : Spells [word] (.string s)
  | array {items : List (List String × Literal)} (h : ∀ i ∈ items, Spells i.1 i.2) :
      Spells (enclosed "[" "]" (items.map Prod.fst)) (.array (items.map Prod.snd))
  | object {entries : List ((String × List String) × String × Literal)}
      (hkeys : ∀ e ∈ entries, Quotes e.1.1 e.2.1) (h : ∀ e ∈ entries, Spells e.1.2 e.2.2) :
      Spells (enclosed "\x7b" "\x7d" (entries.map fun e => e.1.1 :: ":" :: e.1.2))
        (.object (entries.map Prod.snd))

/-- A literal that is spelled by tokens in a row. -/
def Spelled (all : List Token) (l : Literal) : Prop :=
  ∃ us, us <:+: all ∧ Spells (us.map Token.text) l

/-- A literal that is spelled by tokens in a row, or stands for what is no literal: a string for
documentation, or null where an annotation has no value. -/
def Noted (all : List Token) (l : Literal) : Prop :=
  l = .null ∨ (∃ s, l = .string s) ∨ Spelled all l

/-- There is no semicolon among the tokens. -/
def Unended (us : List Token) : Prop := ∀ t ∈ us, t.text ≠ ";"

/-- The words of the default that is written behind the token at a position: they are enclosed by an
equals sign and a semicolon, and there is no other semicolon in front of them. -/
inductive DefaultAt (all : List Token) : Position → List String → Prop
  | mk {first equals semicolon : Token} {between us : List Token}
      (h : first :: (between ++ equals :: (us ++ [semicolon])) <:+: all)
      (hbetween : Unended between) (hequals : equals.text = "=")
      (hsemicolon : semicolon.text = ";") : DefaultAt all first.position (us.map Token.text)

/-- The default that is written behind the token at a position spells the literal. -/
def Defines (all : List Token) (position : Position) (l : Literal) : Prop :=
  ∃ words, DefaultAt all position words ∧ Spells words l

/-- A member whose literals are spelled by tokens: its default by those behind its name. -/
structure Member.ReadFrom (all : List Token) (m : Member) : Prop where
  annotations : ∀ a ∈ m.annotations, Noted all a.value
  default : ∀ l ∈ m.default, Defines all m.position l

/-- A declaration whose literals are spelled by tokens: that of a newtype by those behind its
keyword. -/
structure Decl.ReadFrom (all : List Token) (d : Decl) : Prop where
  annotations : ∀ a ∈ d.annotations, Noted all a.value
  members : ∀ m ∈ d.members, m.ReadFrom all
  newtype : ∀ target l, d.body = .newtype target (some l) → Defines all d.position l

/-- A module whose literals are spelled by tokens. -/
structure Module.ReadFrom (all : List Token) (m : Module) : Prop where
  annotations : ∀ a ∈ m.annotations, Noted all a.value
  decls : ∀ d ∈ m.decls, d.ReadFrom all

theorem Unended.append {us vs : List Token} (hus : Unended us) (hvs : Unended vs) :
    Unended (us ++ vs) := List.forall_mem_append.mpr ⟨hus, hvs⟩

theorem unended_of_isName {t : Token} (h : isName t.text) : Unended [t] := by
  refine List.forall_mem_singleton.mpr fun ht => ?_
  rw [ht] at h
  exact absurd h (by decide)

theorem Defines.mono {us all : List Token} {position : Position} {l : Literal}
    (h : Defines us position l) (hus : us <:+: all) : Defines all position l := by
  obtain ⟨words, hwords, hl⟩ := h
  cases hwords with
  | mk h hbetween hequals hsemicolon =>
    exact ⟨_, .mk (h.trans hus) hbetween hequals hsemicolon, hl⟩

theorem Defines.spelled {all : List Token} {position : Position} {l : Literal}
    (h : Defines all position l) : Spelled all l := by
  obtain ⟨words, hwords, hl⟩ := h
  cases hwords with
  | @mk first equals semicolon between us h =>
    refine ⟨us, List.IsInfix.trans ⟨first :: between ++ [equals], [semicolon], ?_⟩ h, hl⟩
    simp only [List.cons_append, List.append_assoc, List.nil_append]

theorem Member.ReadFrom.noted {all : List Token} {m : Member} (h : m.ReadFrom all) :
    ∀ l ∈ m.literals, Noted all l := by
  rw [Member.literals, List.forall_mem_append, List.forall_mem_map]
  refine ⟨h.annotations, fun l hl => ?_⟩
  exact .inr (.inr (h.default l (Option.mem_toList.mp hl)).spelled)

theorem Decl.ReadFrom.noted {all : List Token} {d : Decl} (h : d.ReadFrom all) :
    ∀ l ∈ d.literals, Noted all l := by
  rw [Decl.literals, List.forall_mem_append, List.forall_mem_append, List.forall_mem_map,
    List.forall_mem_flatMap]
  refine ⟨⟨h.annotations, fun m hm => (h.members m hm).noted⟩, ?_⟩
  have hnewtype := h.newtype
  generalize d.body = b at hnewtype
  cases b with
  | newtype target default =>
    refine fun l hl => .inr (.inr (hnewtype target l ?_).spelled)
    rw [Option.mem_toList.mp hl]
  | _ => exact List.forall_mem_nil _

theorem Module.ReadFrom.noted {all : List Token} {m : Module} (h : m.ReadFrom all) :
    ∀ l ∈ m.literals, Noted all l := by
  rw [Module.literals, List.forall_mem_append, List.forall_mem_map, List.forall_mem_flatMap]
  exact ⟨h.annotations, fun d hd => (h.decls d hd).noted⟩

theorem readDigits_eq_decimal (digits : List Char) :
    Numeral.readDigits 0 digits = decimal digits := by
  rw [Numeral.readDigits, decimal, Nat.ofDigits_eq_foldr, List.foldr_reverse, List.foldl_map]
  simp only [Nat.cast_id, Nat.add_comm, Nat.mul_comm]

/-- A numeral without fraction and exponent writes its value. -/
theorem writes_of_scan? {cs : List Char} {n : Numeral}
    (h : Numeral.scan? Text.isDigit cs = some (n, [])) (hinteger : n.isInteger)
    (hvalue : n.hasValue) : Writes cs n.toInt := by
  obtain ⟨hne, -, -, hexponent⟩ := Numeral.shaped_of_scan? h
  rw [Numeral.isInteger, Bool.and_eq_true, List.isEmpty_iff, List.isEmpty_iff] at hinteger
  have hmark : n.mark = [] := (hexponent.resolve_right fun h => h.2.1 hinteger.2).1
  simp only [Numeral.hasValue, Bool.and_eq_true, List.all_eq_true] at hvalue
  have hchars := Numeral.scan?_append h
  rw [List.append_nil, Numeral.chars, hinteger.1, hinteger.2, hmark] at hchars
  simp only [List.isEmpty_nil, if_true, List.append_nil] at hchars
  rw [← hchars, Numeral.toInt, readDigits_eq_decimal]
  cases n.negative with
  | false => exact .plain hne hvalue.1.1
  | true => exact .minus hne hvalue.1.1

theorem quotes_iff_isQuoted {t : Token} {s : String} :
    Quotes t.text s ↔ Parser.isQuoted t ∧ Text.unquote t.text = .ok s := by
  rw [Parser.isQuoted, beq_iff_eq]
  exact ⟨fun h => ⟨h.head, h.text⟩, fun h => ⟨h.1, h.2⟩⟩

namespace Parser

variable {α β : Type} {all us : List Token} {R : List Token → α → Prop}
  {S : List Token → β → Prop} {p q : Parser α}

/-! ### What a parser takes -/

/-- Tokens are taken off the front that are related to what is given back, or the failure is at one
of all the tokens or behind them. -/
inductive Taken (all : List Token) (R : List Token → α → Prop) (ts : List Token) :
    Except ParseFailure (α × List Token) → Prop
  | ok (us : List Token) {rest : List Token} {a : α} (hts : ts = us ++ rest) (h : R us a) :
      Taken all R ts (.ok (a, rest))
  | error (fault : ParseFault) {token : Option Token} (h : ∀ t ∈ token, t ∈ all) :
      Taken all R ts (.error ⟨fault, token⟩)

/-- What the parser takes from any end of the tokens. -/
def Takes (all : List Token) (p : Parser α) (R : List Token → α → Prop) : Prop :=
  ∀ ts, ts <:+ all → Taken all R ts (p ts)

theorem Takes.pure {a : α} (h : R [] a) : Takes all (pure a) R := fun _ _ => .ok [] rfl h

theorem Takes.mono {R' : List Token → α → Prop} (h : Takes all p R)
    (hR : ∀ us a, us <:+: all → R us a → R' us a) : Takes all p R' := by
  intro ts hts
  have htaken := h ts hts
  generalize p ts = x at htaken ⊢
  cases htaken with
  | ok us hsplit ha =>
    refine .ok us hsplit (hR _ _ ?_ ha)
    exact (hsplit ▸ List.prefix_append _ _).isInfix.trans hts.isInfix
  | error fault h => exact .error fault h

theorem Takes.bind {f : α → Parser β} (hp : Takes all p R)
    (hf : ∀ us a, us <:+: all → R us a → Takes all (f a) fun vs b => S (us ++ vs) b) :
    Takes all (p >>= f) S := by
  intro ts hts
  show Taken all S ts (p ts >>= fun x => f x.1 x.2)
  have htaken := hp ts hts
  generalize p ts = x at htaken ⊢
  cases htaken with
  | @ok us rest a hsplit ha =>
    subst hsplit
    have hus : us <:+: all := (List.prefix_append us rest).isInfix.trans hts.isInfix
    have hbehind := hf us a hus ha rest ((List.suffix_append us rest).trans hts)
    show Taken all S (us ++ rest) (f a rest)
    generalize f a rest = y at hbehind ⊢
    cases hbehind with
    | ok vs hsplit' hb => exact .ok (us ++ vs) (by rw [hsplit', List.append_assoc]) hb
    | error fault h => exact .error fault h
  | error fault h => exact .error fault h

theorem Takes.map {f : α → β} (hp : Takes all p R) (hf : ∀ us a, R us a → S us (f a)) :
    Takes all (f <$> p) S := by
  rw [← bind_pure_comp]
  exact hp.bind fun us a _ ha => .pure (by rw [List.append_nil]; exact hf us a ha)

theorem Takes.ite {c : Prop} [Decidable c] (hp : c → Takes all p R) (hq : ¬ c → Takes all q R) :
    Takes all (if c then p else q) R := by
  by_cases h : c
  · rw [if_pos h]
    exact hp h
  · rw [if_neg h]
    exact hq h

theorem takes_fail (fault : ParseFault) {token : Option Token} (h : ∀ t ∈ token, t ∈ all) :
    Takes all (fail fault token) R := fun _ _ => .error fault h

theorem takes_unexpected : Takes all unexpected R := by
  intro ts hts
  cases ts with
  | nil => exact .error _ fun _ h => by cases h
  | cons t ts =>
    refine .error _ ?_
    rintro _ ⟨⟩
    exact hts.subset List.mem_cons_self

theorem takes_peek : Takes all peek fun us next => us = [] ∧ ∀ t ∈ next, t ∈ all := by
  refine fun ts hts => .ok [] rfl ⟨rfl, fun t ht => hts.subset ?_⟩
  exact List.mem_of_head? ht

/-- What is read behind the next token, which is there, or else. -/
theorem takes_peek_bind {f : Option Token → Parser β}
    (hnil : Taken all S [] (f none []))
    (hcons : ∀ t ts, t :: ts <:+ all → Taken all S (t :: ts) (f (some t) (t :: ts))) :
    Takes all (peek >>= f) S := by
  intro ts hts
  cases ts with
  | nil => exact hnil
  | cons t ts => exact hcons t ts hts

/-- The next token is taken if it is asked for by its own text. -/
theorem taken_next {t : Token} {ts : List Token} (hts : t :: ts <:+ all) {f : Bool → Parser β}
    (h : Takes all (f true) fun vs b => S (t :: vs) b) :
    Taken all S (t :: ts) ((eat t.text >>= f) (t :: ts)) := by
  show Taken all S (t :: ts) (eat t.text (t :: ts) >>= fun x => f x.1 x.2)
  rw [eat, if_pos rfl]
  have hbehind := h ts ((List.suffix_cons t ts).trans hts)
  show Taken all S (t :: ts) (f true ts)
  generalize f true ts = y at hbehind ⊢
  cases hbehind with
  | ok vs hsplit hb => exact .ok (t :: vs) (by rw [hsplit, List.cons_append]) hb
  | error fault h => exact .error fault h

theorem takes_eat (text : String) : Takes all (eat text) fun us eaten =>
    us.map Token.text = if eaten then [text] else [] := by
  intro ts hts
  cases ts with
  | nil => exact .ok [] rfl rfl
  | cons t ts =>
    rw [eat]
    split
    · next ht => exact .ok [t] rfl (by rw [← ht]; rfl)
    · exact .ok [] rfl rfl

/-- What is read if a token is there, and else. -/
theorem Takes.taken {q : Parser α} (text : String)
    (hp : ∀ t : Token, t.text = text → Takes all p fun us a => R (t :: us) a) (hq : Takes all q R) :
    Takes all (eat text >>= fun eaten => if eaten = true then p else q) R := by
  refine (takes_eat text).bind fun us eaten _ hus => ?_
  cases eaten with
  | true =>
    obtain ⟨t, rest, rfl, ht, hrest⟩ := List.map_eq_cons_iff.mp hus
    rw [List.map_eq_nil_iff.mp hrest]
    exact hp t ht
  | false =>
    rw [List.map_eq_nil_iff.mp hus]
    exact hq

theorem takes_expectWhere (test : Token → Bool) (what : String) :
    Takes all (expectWhere test what) fun us t => us = [t] ∧ test t := by
  intro ts hts
  cases ts with
  | nil => exact .error _ fun _ h => by cases h
  | cons t ts =>
    rw [expectWhere]
    split
    · next ht => exact .ok [t] rfl ⟨rfl, ht⟩
    · refine .error _ ?_
      rintro _ ⟨⟩
      exact hts.subset List.mem_cons_self

theorem takes_expectName (what : String) :
    Takes all (expectName what) fun us t => us = [t] ∧ isName t.text := takes_expectWhere _ what

theorem takes_expect (text what : String) :
    Takes all (expect text what) fun us _ => us.map Token.text = [text] := by
  refine (takes_expectWhere _ what).bind fun us t _ ht => .pure ?_
  rw [ht.1, List.append_nil, List.map_singleton, of_decide_eq_true ht.2]

/-- A parser that takes nothing in particular. -/
def Moves (all : List Token) (p : Parser α) : Prop := Takes all p fun _ _ => True

theorem Takes.moves (h : Takes all p R) : Moves all p := h.mono fun _ _ _ _ => trivial

/-- What is taken off tokens by themselves. -/
theorem exists_taken {R : List Token → List Token → α → Prop} {a : α} {rest : List Token}
    (h : ∀ all, Takes all p (R all)) (hp : p us = .ok (a, rest)) :
    ∃ vs, us = vs ++ rest ∧ R us vs a := by
  have htaken := h us us (List.suffix_refl us)
  rw [hp] at htaken
  cases htaken with
  | ok vs hsplit ha => exact ⟨vs, hsplit, ha⟩

/-! ### Repetitions -/

section

variable {close what : String} {item : Parser α} {P : α → Prop}

theorem takes_many (hitem : Takes all item fun _ a => P a) (fuel : ℕ) :
    Takes all (many close item fuel) fun us as => us ≠ [] ∧ ∀ a ∈ as, P a := by
  induction fuel with
  | zero => exact takes_unexpected
  | succ fuel ih =>
    rw [many]
    refine .taken close (fun t _ => .pure ⟨List.cons_ne_nil t [], List.forall_mem_nil _⟩) ?_
    refine takes_peek.bind fun us next _ _ => .ite (fun _ => ?_) fun _ => ?_
    · exact (takes_unexpected (R := fun _ _ => False)).bind fun _ _ _ h => h.elim
    refine hitem.bind fun vs first _ hfirst => ih.bind fun ws rest _ hrest => .pure ⟨?_, ?_⟩
    · simp [hrest.1]
    · exact List.forall_mem_cons.mpr ⟨hfirst, hrest.2⟩

/-- The words of items with commas between them, up to what closes them. -/
def Listed (S : List String → α → Prop) (close : String) (words : List String) (as : List α) :
    Prop :=
  ∃ items : List (List String × α), items ≠ [] ∧ (∀ i ∈ items, S i.1 i.2) ∧
    words = [","].intercalate (items.map Prod.fst) ++ [close] ∧ as = items.map Prod.snd

theorem takes_separated {S : List String → α → Prop}
    (hitem : Takes all item fun us a => S (us.map Token.text) a) (fuel : ℕ) :
    Takes all (separated close what item fuel) fun us as =>
      Listed S close (us.map Token.text) as := by
  induction fuel with
  | zero => exact takes_unexpected
  | succ fuel ih =>
    rw [separated]
    refine hitem.bind fun us first _ hfirst => .taken close (fun t ht => .pure ?_) ?_
    · refine ⟨[(us.map Token.text, first)], List.cons_ne_nil _ _, ?_, ?_, rfl⟩
      · exact List.forall_mem_singleton.mpr hfirst
      · rw [List.map_append, List.map_singleton, ht, List.map_singleton, List.intercalate_singleton]
    · refine (takes_expect "," what).bind fun vs _ _ hvs => ih.bind fun ws rest _ hrest => .pure ?_
      obtain ⟨items, hne, hitems, hws, rfl⟩ := hrest
      refine ⟨(us.map Token.text, first) :: items, List.cons_ne_nil _ _,
        List.forall_mem_cons.mpr ⟨hfirst, hitems⟩, ?_, rfl⟩
      obtain ⟨i, items, rfl⟩ := List.exists_cons_of_ne_nil hne
      simp only [List.append_nil, List.map_append, hvs, hws, List.map_cons,
        List.intercalate_cons_cons, List.append_assoc]

/-- Items in which nothing ends are listed without an end of anything. -/
theorem unended_separated (hclose : close ≠ ";") (hitem : Takes all item fun us _ => Unended us)
    (fuel : ℕ) : Takes all (separated close what item fuel) fun us _ => Unended us := by
  have hwords (words : List String) (us : List Token) (hus : us.map Token.text = words)
      (h : ∀ word ∈ words, word ≠ ";") : Unended us :=
    fun t ht => h _ (hus ▸ List.mem_map_of_mem ht)
  induction fuel with
  | zero => exact takes_unexpected
  | succ fuel ih =>
    rw [separated]
    refine hitem.bind fun us first _ hfirst => .taken close (fun t ht => .pure ?_) ?_
    · exact hfirst.append (List.forall_mem_singleton.mpr (ht ▸ hclose))
    · refine (takes_expect "," what).bind fun vs _ _ hvs => ih.bind fun ws rest _ hrest => .pure ?_
      rw [List.append_nil]
      refine hfirst.append (.append (hwords _ vs hvs ?_) hrest)
      exact List.forall_mem_singleton.mpr (by decide)

end

/-! ### Names and imports -/

theorem takes_nameParts (fuel : ℕ) : Takes all (nameParts fuel) fun us _ => Unended us := by
  induction fuel with
  | zero => exact .pure (List.forall_mem_nil _)
  | succ fuel ih =>
    rw [nameParts]
    refine .taken "." (fun t ht => ?_) (.pure (List.forall_mem_nil _))
    refine (takes_expectName _).bind fun us name _ hname => ih.bind fun vs _ _ hvs => .pure ?_
    obtain ⟨rfl, hname⟩ := hname
    rw [List.append_nil, ← List.singleton_append]
    refine .append (List.forall_mem_singleton.mpr ?_) ((unended_of_isName hname).append hvs)
    rw [ht]
    decide

theorem takes_dottedName (fuel : ℕ) :
    Takes all (dottedName fuel) fun us _ => us ≠ [] ∧ Unended us := by
  rw [dottedName]
  refine (takes_expectName _).bind fun us first _ hfirst => ?_
  obtain ⟨rfl, hfirst⟩ := hfirst
  refine (takes_nameParts fuel).bind fun vs _ _ hvs => .pure ⟨List.cons_ne_nil _ _, ?_⟩
  rw [List.append_nil]
  exact (unended_of_isName hfirst).append hvs

theorem moves_importParts (fuel : ℕ) : Moves all (importParts fuel) := by
  induction fuel with
  | zero => exact .pure trivial
  | succ fuel ih =>
    rw [importParts]
    refine .taken "." (fun _ _ => ?_) (.pure trivial)
    refine .taken "*" (fun _ _ => .pure trivial) ?_
    exact (takes_expectName _).bind fun _ _ _ _ => ih.bind fun _ _ _ _ => .pure trivial

theorem takes_importDecl (fuel : ℕ) : Takes all (importDecl fuel) fun us _ => us ≠ [] := by
  rw [importDecl]
  refine (takes_expectName _).bind fun us first hus hfirst => ?_
  obtain ⟨rfl, -⟩ := hfirst
  refine (moves_importParts fuel).bind fun vs path _ _ => ?_
  obtain ⟨parts, star⟩ := path
  refine (takes_expect _ _).bind fun ws _ _ _ => .ite (fun _ => .pure (by simp)) fun _ => ?_
  refine .ite (fun _ => ?_) fun _ => .pure (by simp)
  refine (takes_fail (R := fun _ _ => False) _ ?_).bind fun _ _ _ h => h.elim
  rintro _ ⟨⟩
  exact hus.subset (List.mem_singleton_self first)

/-! ### Literals and types -/

theorem takes_unquoted {t : Token} (ht : t ∈ all) :
    Takes all (unquoted t) fun us s => us = [] ∧ Text.unquote t.text = .ok s := by
  rw [unquoted]
  cases Text.unquote t.text with
  | ok s => exact .pure ⟨rfl, rfl⟩
  | error e =>
    refine takes_fail _ ?_
    rintro _ ⟨⟩
    exact ht

/-- A number token spells the literal that it is read as. -/
theorem takes_numberLiteral {t : Token} {n : Numeral} (ht : t ∈ all) (hn : numeral? t = some n) :
    Takes all (numberLiteral t n) fun us l => us = [] ∧ Spells [t.text] l := by
  have hscan : Numeral.scan? Text.isDigit t.text.toList = some (n, []) := by
    rw [numeral?] at hn
    split at hn
    · next heq =>
      cases hn
      exact heq
    · cases hn
  have hfail (fault : ParseFault) : Takes all (fail fault (some t) : Parser Literal)
      fun us l => us = [] ∧ Spells [t.text] l := by
    refine takes_fail _ ?_
    rintro _ ⟨⟩
    exact ht
  rw [numberLiteral]
  refine .ite (fun hinteger => ?_) fun hinteger => ?_
  · refine .ite (fun h => .pure ⟨rfl, ?_⟩) fun _ => hfail _
    exact .integer (writes_of_scan? hscan hinteger h.1) h.2.1 h.2.2
  · refine .ite (fun hvalue => .pure ⟨rfl, ?_⟩) fun _ => hfail _
    exact .double hscan (by simpa using hinteger) hvalue

/-- The words of an entry of an object. -/
def EntrySpells (words : List String) (e : String × Literal) : Prop :=
  ∃ word rest, Quotes word e.1 ∧ Spells rest e.2 ∧ words = word :: ":" :: rest

theorem takes_entry {value : Parser Literal}
    (hvalue : Takes all value fun us l => Spells (us.map Token.text) l) :
    Takes all (entry value) fun us e => EntrySpells (us.map Token.text) e := by
  rw [entry]
  refine (takes_expectWhere _ _).bind fun us key hus hkey => ?_
  obtain ⟨rfl, hquoted⟩ := hkey
  refine (takes_unquoted (hus.subset (List.mem_singleton_self key))).bind fun vs name _ hname => ?_
  obtain ⟨rfl, hname⟩ := hname
  refine (takes_expect _ _).bind fun ws _ _ hws => hvalue.bind fun xs l _ hl => .pure ?_
  refine ⟨key.text, xs.map Token.text, quotes_iff_isQuoted.mpr ⟨hquoted, hname⟩, hl, ?_⟩
  simp [hws]

theorem Listed.spells_array {words : List String} {items : List Literal}
    (h : Listed Spells "]" words items) : Spells ("[" :: words) (.array items) := by
  obtain ⟨items, -, hitems, rfl, rfl⟩ := h
  exact .array hitems

theorem Listed.spells_object {words : List String} {entries : List (String × Literal)}
    (h : Listed EntrySpells "\x7d" words entries) :
    Spells ("\x7b" :: words) (.object entries) := by
  obtain ⟨items, -, hitems, rfl, rfl⟩ := h
  choose! word rest hword hrest hwords using hitems
  have hobject := @Spells.object (items.map fun i => ((word i, rest i), i.2))
    (List.forall_mem_map.mpr hword) (List.forall_mem_map.mpr hrest)
  rw [List.map_map, List.map_map] at hobject
  rw [List.map_congr_left hwords]
  exact hobject

theorem takes_bareLiteral {fuel : ℕ}
    (h : Takes all (literal fuel) fun us l => Spells (us.map Token.text) l) :
    Takes all (bareLiteral fuel) fun us l => Spells (us.map Token.text) l := by
  rw [bareLiteral]
  refine .taken "true" (fun t ht => .pure ?_) (.taken "false" (fun t ht => .pure ?_) ?_)
  · rw [List.map_singleton, ht]
    exact .boolean true
  · rw [List.map_singleton, ht]
    exact .boolean false
  refine .taken "null" (fun t ht => .pure ?_) (.taken "[" (fun t ht => ?_) ?_)
  · rw [List.map_singleton, ht]
    exact .null
  · refine .taken "]" (fun t' ht' => .pure ?_) ?_
    · rw [List.map_cons, List.map_singleton, ht, ht']
      exact @Spells.array [] (List.forall_mem_nil _)
    · refine (takes_separated h _).bind fun us items _ hitems => .pure ?_
      rw [List.append_nil, List.map_cons, ht]
      exact hitems.spells_array
  refine .taken "\x7b" (fun t ht => .taken "\x7d" (fun t' ht' => .pure ?_) ?_) takes_unexpected
  · rw [List.map_cons, List.map_singleton, ht, ht']
    exact @Spells.object [] (List.forall_mem_nil _) (List.forall_mem_nil _)
  · refine (takes_separated (takes_entry h) _).bind fun us entries _ hentries => .pure ?_
    rw [List.append_nil, List.map_cons, ht]
    exact hentries.spells_object

/-- What is read as a literal spells it. -/
theorem takes_literal (fuel : ℕ) :
    Takes all (literal fuel) fun us l => Spells (us.map Token.text) l := by
  induction fuel with
  | zero => exact takes_unexpected
  | succ fuel ih =>
    rw [literal]
    refine takes_peek_bind (.error _ fun _ h => by cases h) fun t ts hts => ?_
    have ht : t ∈ all := hts.subset List.mem_cons_self
    dsimp only
    by_cases hquoted : isQuoted t
    · simp only [hquoted, if_true]
      refine taken_next hts ((takes_unquoted ht).bind fun us s _ hs => .pure ?_)
      obtain ⟨rfl, hs⟩ := hs
      exact .string (quotes_iff_isQuoted.mpr ⟨hquoted, hs⟩)
    simp only [hquoted, Bool.false_eq_true, if_false]
    cases hn : numeral? t with
    | some n =>
      refine taken_next hts ((takes_numberLiteral ht hn).mono fun us l _ hl => ?_)
      obtain ⟨rfl, hl⟩ := hl
      exact hl
    | none => exact takes_bareLiteral ih _ hts

theorem takes_typeExpr (fuel : ℕ) :
    Takes all (typeExpr fuel) fun us _ => us ≠ [] ∧ Unended us := by
  induction fuel with
  | zero => exact takes_unexpected
  | succ fuel ih =>
    rw [typeExpr]
    refine (takes_dottedName _).bind fun us _ _ hus => .taken "<" (fun t ht => ?_) (.pure ?_)
    · have hargs : Takes all (separated ">" "\",\" or \">\"" (typeExpr fuel) (fuel + 1))
          fun us _ => Unended us :=
        unended_separated (by decide) (ih.mono fun _ _ _ h => h.2) _
      refine hargs.bind fun vs args _ hvs => .pure ⟨by simp, ?_⟩
      rw [List.append_nil, ← List.singleton_append]
      refine hus.2.append (.append (List.forall_mem_singleton.mpr ?_) hvs)
      rw [ht]
      decide
    · rwa [List.append_nil]

theorem takes_typeParams (fuel : ℕ) :
    Takes all (typeParams fuel) fun us _ => Unended us := by
  rw [typeParams]
  refine .taken "<" (fun t ht => ?_) (.pure (List.forall_mem_nil _))
  have hparam : Takes all (do return (← expectName "type parameter").text) fun us _ => Unended us :=
    (takes_expectName _).bind fun us name _ hname => .pure <| by
      obtain ⟨rfl, hname⟩ := hname
      exact unended_of_isName hname
  refine (unended_separated (by decide) hparam fuel).mono fun us _ _ hus => ?_
  rw [← List.singleton_append]
  refine .append (List.forall_mem_singleton.mpr ?_) hus
  rw [ht]
  decide

/-! ### Annotations -/

/-- Documentation is taken if there is any. -/
theorem takes_docs : Takes all docs fun us doc => us = [] ↔ doc = none := by
  intro ts hts
  have hsplit := List.takeWhile_append_dropWhile (p := Token.isDoc) (l := ts)
  refine .ok _ hsplit.symm ?_
  cases ts.takeWhile Token.isDoc <;> simp

theorem takes_annotationValue (fuel : ℕ) :
    Takes all (annotationValue fuel) fun _ l => Noted all l := by
  rw [annotationValue]
  refine takes_peek.bind fun us next _ _ => ?_
  cases next with
  | none => exact .pure (.inl rfl)
  | some t =>
    refine .ite (fun _ => ?_) fun _ => .pure (.inl rfl)
    exact (takes_literal fuel).mono fun us l hus hl => .inr (.inr ⟨us, hus, hl⟩)

theorem takes_annotations (fuel : ℕ) :
    Takes all (annotations fuel) fun _ as => ∀ a ∈ as, Noted all a.value := by
  induction fuel with
  | zero => exact .pure (List.forall_mem_nil _)
  | succ fuel ih =>
    rw [annotations_succ]
    refine takes_docs.bind fun us doc _ _ => ?_
    cases doc with
    | some doc =>
      refine ih.bind fun _ as _ has => .pure (List.forall_mem_cons.mpr ⟨?_, has⟩)
      exact .inr (.inl ⟨doc, rfl⟩)
    | none =>
      refine .taken "@" (fun _ _ => ?_) (.pure (List.forall_mem_nil _))
      refine (takes_dottedName _).bind fun _ _ _ _ => ?_
      refine (takes_annotationValue _).bind fun _ value _ hvalue => ?_
      exact ih.bind fun _ as _ has => .pure (List.forall_mem_cons.mpr ⟨hvalue, has⟩)

/-! ### Members, declarations and modules -/

theorem takes_takeSerializedName {name : Token} (hname : name ∈ all)
    {as : List AnnotationEntry} (has : ∀ a ∈ as, Noted all a.value) :
    Takes all (takeSerializedName name as) fun us x =>
      us = [] ∧ ∀ a ∈ x.2, Noted all a.value := by
  rw [takeSerializedName]
  cases as.find? isSerializedName with
  | none => exact .pure ⟨rfl, has⟩
  | some a =>
    dsimp only
    cases a.value with
    | string s => exact .pure ⟨rfl, fun a ha => has a (List.mem_of_mem_eraseP ha)⟩
    | _ =>
      refine takes_fail _ ?_
      rintro _ ⟨⟩
      exact hname

/-- The literal behind an equals sign, as a default. -/
theorem takes_default (fuel : ℕ) : Takes all (some <$> literal fuel) fun us default =>
    ∀ l ∈ default, Spells (us.map Token.text) l := by
  refine (takes_literal fuel).map fun us l hl => ?_
  rintro _ ⟨⟩
  exact hl

/-- The end of a member: its semicolon, and what becomes of its annotations. -/
theorem takes_memberEnd {name : Token} (hname : name ∈ all) {written : List AnnotationEntry}
    (hwritten : ∀ a ∈ written, Noted all a.value) (type : TypeExpr) (default : Option Literal) :
    Takes all (do
      expect ";" "\";\""
      let taken ← takeSerializedName name written
      return (⟨name.text, taken.1, type, default, taken.2, name.position⟩ : Member))
      fun us m => us.map Token.text = [";"] ∧ (∀ a ∈ m.annotations, Noted all a.value) ∧
        m.default = default ∧ m.position = name.position := by
  refine (takes_expect _ _).bind fun us _ _ hus => ?_
  refine (takes_takeSerializedName hname hwritten).bind fun vs _ _ hvs => .pure ?_
  rw [hvs.1, List.append_nil, List.append_nil]
  exact ⟨hus, hvs.2, rfl, rfl⟩

theorem takes_member (allowDefault : Bool) (fuel : ℕ) : Takes all (member allowDefault fuel)
    fun us m => us ≠ [] ∧ m.ReadFrom all := by
  suffices h : Takes all (member allowDefault fuel) fun us m =>
      us ≠ [] ∧ (∀ a ∈ m.annotations, Noted all a.value) ∧
        ∀ l ∈ m.default, Defines us m.position l by
    refine h.mono fun us m hus hm => ⟨hm.1, hm.2.1, fun l hl => ?_⟩
    exact (hm.2.2 l hl).mono hus
  rw [member]
  refine (takes_annotations fuel).bind fun us written _ hwritten => ?_
  refine (takes_typeExpr fuel).bind fun vs type _ hvs => ?_
  refine (takes_expectName _).bind fun ws name hws hname => ?_
  obtain ⟨rfl, -⟩ := hname
  have hmem : name ∈ all := hws.subset (List.mem_singleton_self name)
  refine takes_peek.bind fun xs equals _ hequals => .taken "=" (fun t ht => ?_) ?_
  · refine .ite (fun _ => ?_) fun _ => (takes_default fuel).bind fun ys default _ hdefault => ?_
    · exact (takes_fail (R := fun _ _ => False) _ hequals.2).bind fun _ _ _ h => h.elim
    refine (takes_memberEnd hmem hwritten type default).mono fun zs m _ hm => ⟨by simp, hm.2.1, ?_⟩
    obtain ⟨hzs, -, hm, hposition⟩ := hm
    rw [hm, hposition]
    refine fun l hl => ⟨ys.map Token.text, ?_, hdefault l hl⟩
    obtain ⟨semicolon, _, rfl, hsemicolon, hnil⟩ := List.map_eq_cons_iff.mp hzs
    rw [List.map_eq_nil_iff.mp hnil, hequals.1]
    refine @DefaultAt.mk _ name t semicolon [] ys ?_ ?_ ht hsemicolon
    · exact ⟨us ++ vs, [], by simp⟩
    · exact List.forall_mem_nil _
  · refine (Takes.pure (R := fun _ default => default = none) rfl).bind fun ys default _ hnone => ?_
    refine (takes_memberEnd hmem hwritten type default).mono fun zs m _ hm => ⟨by simp, hm.2.1, ?_⟩
    rw [hm.2.2.1, hnone]
    exact fun _ h => by cases h

theorem takes_label (fuel : ℕ) :
    Takes all (label fuel) fun us m => us ≠ [] ∧ m.ReadFrom all := by
  rw [label]
  refine (takes_annotations fuel).bind fun us written _ hwritten => ?_
  refine (takes_expectName _).bind fun ws name hws hname => ?_
  obtain ⟨rfl, -⟩ := hname
  have hmem : name ∈ all := hws.subset (List.mem_singleton_self name)
  refine (takes_memberEnd hmem hwritten _ none).mono fun zs m _ hm => ⟨by simp, hm.2.1, ?_⟩
  rw [hm.2.2.1]
  exact fun _ h => by cases h

theorem takes_members {P : Member → Prop} {item : Parser Member}
    (hitem : Takes all item fun us m => us ≠ [] ∧ P m) (fuel : ℕ) :
    Takes all (members item fuel) fun us ms => us ≠ [] ∧ ∀ m ∈ ms, P m := by
  rw [members]
  refine (takes_expect _ _).bind fun us _ _ _ => ?_
  refine (takes_many (hitem.mono fun _ _ _ h => h.2) fuel).mono fun vs ms _ hms => ?_
  exact ⟨by simp [hms.1], hms.2⟩

theorem takes_keyword : Takes all keyword fun us x => ∃ t, us = [t] ∧ t.position = x.2 := by
  rw [keyword]
  refine takes_peek_bind (.error _ fun _ h => by cases h) fun t ts hts => ?_
  dsimp only
  cases keyword? t with
  | none => exact takes_unexpected _ hts
  | some k => exact taken_next hts (.pure ⟨t, rfl, rfl⟩)

/-- A body whose literals are spelled by tokens, that of a newtype by the last ones of the body. -/
structure BodyReadFrom (all us : List Token) (b : Body) : Prop where
  members : ∀ d : Decl, d.body = b → ∀ m ∈ d.members, m.ReadFrom all
  newtype : ∀ target l, b = .newtype target (some l) → ∃ between equals ws,
    us = between ++ equals :: ws ∧ Unended between ∧ equals.text = "=" ∧
      Spells (ws.map Token.text) l

theorem BodyReadFrom.of_members {us : List Token} {ms : List Member}
    (h : ∀ m ∈ ms, m.ReadFrom all) {b : Body}
    (hb : b = .struct ms ∨ b = .union ms ∨ b = .enum ms) : BodyReadFrom all us b := by
  refine ⟨fun d hd => ?_, fun target l hnewtype => ?_⟩
  · rw [Decl.members, hd]
    rcases hb with rfl | rfl | rfl <;> exact h
  · rw [hnewtype] at hb
    rcases hb with hb | hb | hb <;> cases hb

theorem BodyReadFrom.of_alias {us : List Token} (t : TypeExpr) :
    BodyReadFrom all us (.alias t) := by
  refine ⟨fun d hd => ?_, fun _ _ h => by cases h⟩
  rw [Decl.members, hd]
  exact List.forall_mem_nil _

theorem takes_body (fuel : ℕ) (k : Keyword) :
    Takes all (body fuel k) fun us b => BodyReadFrom all us b := by
  cases k with
  | struct =>
    refine (takes_members (takes_member true fuel) fuel).bind fun us ms _ hms => .pure ?_
    exact .of_members hms.2 (.inl rfl)
  | union =>
    refine (takes_members (takes_member false fuel) fuel).bind fun us ms _ hms => .pure ?_
    exact .of_members hms.2 (.inr (.inl rfl))
  | enum =>
    refine (takes_members (takes_label fuel) fuel).bind fun us ms _ hms => .pure ?_
    exact .of_members hms.2 (.inr (.inr rfl))
  | «alias» =>
    refine (takes_expect _ _).bind fun us _ _ hus => ?_
    exact (takes_typeExpr fuel).bind fun vs t _ hvs => .pure (.of_alias t)
  | newtype =>
    refine (takes_expect _ _).bind fun us _ _ hus => ?_
    refine (takes_typeExpr fuel).bind fun vs t _ hvs => ?_
    have hmembers (default : Option Literal) : ∀ d : Decl, d.body = .newtype t default →
        ∀ m ∈ d.members, m.ReadFrom all := by
      intro d hd
      rw [Decl.members, hd]
      exact List.forall_mem_nil _
    have hunended : Unended us := by
      intro t ht heq
      have hmem := List.mem_map_of_mem (f := Token.text) ht
      rw [hus, heq] at hmem
      exact absurd hmem (by decide)
    refine .taken "=" (fun equals hequals => ?_) ?_
    · refine (takes_default fuel).bind fun ws default _ hdefault => .pure ⟨hmembers _, ?_⟩
      rintro _ l ⟨⟩
      refine ⟨us ++ vs, equals, ws, by simp, hunended.append hvs.2, hequals, ?_⟩
      exact hdefault l rfl
    · refine (Takes.pure (R := fun _ default => default = none) rfl).bind fun ws default _ hnone =>
        .pure ⟨hmembers _, ?_⟩
      rintro _ l ⟨⟩
      cases hnone

theorem takes_decl (fuel : ℕ) :
    Takes all (decl fuel) fun us d => us ≠ [] ∧ d.ReadFrom all := by
  suffices h : Takes all (decl fuel) fun us d =>
      us ≠ [] ∧ (∀ a ∈ d.annotations, Noted all a.value) ∧ (∀ m ∈ d.members, m.ReadFrom all) ∧
        ∀ target l, d.body = .newtype target (some l) → Defines us d.position l by
    refine h.mono fun us d hus hd => ⟨hd.1, hd.2.1, hd.2.2.1, fun target l hbody => ?_⟩
    exact (hd.2.2.2 target l hbody).mono hus
  rw [decl]
  refine (takes_annotations fuel).bind fun us written _ hwritten => ?_
  refine takes_keyword.bind fun vs read _ hvs => ?_
  obtain ⟨kind, position⟩ := read
  obtain ⟨keyword, rfl, rfl⟩ := hvs
  refine (takes_expectName _).bind fun ws name _ hname => ?_
  obtain ⟨rfl, hname⟩ := hname
  have hend (params : List String) {xs : List Token} (hxs : Unended xs) : Takes all (do
      let b ← body fuel kind
      expect ";" "\";\""
      return (⟨name.text, params, written, b, keyword.position⟩ : Decl)) fun zs d =>
      us ++ ([keyword] ++ ([name] ++ (xs ++ zs))) ≠ [] ∧ (∀ a ∈ d.annotations, Noted all a.value) ∧
        (∀ m ∈ d.members, m.ReadFrom all) ∧ ∀ target l, d.body = .newtype target (some l) →
          Defines (us ++ ([keyword] ++ ([name] ++ (xs ++ zs)))) d.position l := by
    refine (takes_body fuel kind).bind fun ys b _ hb => (takes_expect _ _).bind fun zs _ _ hzs => ?_
    refine .pure ⟨by simp, hwritten, hb.members _ rfl, fun target l hl => ?_⟩
    obtain ⟨between, equals, ws, rfl, hbetween, hequals, hws⟩ := hb.newtype target l hl
    obtain ⟨semicolon, _, rfl, hsemicolon, hnil⟩ := List.map_eq_cons_iff.mp hzs
    rw [List.map_eq_nil_iff.mp hnil]
    refine ⟨ws.map Token.text, ?_, hws⟩
    refine @DefaultAt.mk _ keyword equals semicolon ([name] ++ (xs ++ between)) ws ?_ ?_ hequals
      hsemicolon
    · exact ⟨us, [], by simp⟩
    · exact (unended_of_isName hname).append (hxs.append hbetween)
  refine .ite (fun _ => hend [] (List.forall_mem_nil _)) fun _ => ?_
  exact (takes_typeParams fuel).bind fun xs params _ hxs => hend params hxs

theorem moves_imports (fuel n : ℕ) : Moves all (imports fuel n) := by
  induction n with
  | zero => exact .pure trivial
  | succ n ih =>
    rw [imports]
    refine .taken "import" (fun _ _ => ?_) (.pure trivial)
    exact (takes_importDecl fuel).bind fun _ _ _ _ => ih.bind fun _ _ _ _ => .pure trivial

/-- The literals of a module are spelled by tokens. -/
theorem takes_module (fuel : ℕ) : Takes all (module fuel) fun _ m => m.ReadFrom all := by
  rw [module]
  refine (takes_annotations fuel).bind fun _ written _ hwritten => ?_
  refine (takes_expect _ _).bind fun _ _ _ _ => (takes_dottedName fuel).bind fun _ _ _ _ => ?_
  refine (takes_expect _ _).bind fun _ _ _ _ => (moves_imports fuel fuel).bind fun _ _ _ _ => ?_
  refine (takes_many ((takes_decl fuel).mono fun _ _ _ h => h.2) fuel).bind ?_
  intro _ decls _ hdecls
  refine (takes_eat _).bind fun _ _ _ _ => takes_peek.bind fun _ next _ _ => ?_
  refine .ite (fun _ => ?_) fun _ => .pure ⟨hwritten, hdecls.2⟩
  exact (takes_unexpected (R := fun _ _ => False)).bind fun _ _ _ h => h.elim

/-- Nothing is left behind a module. -/
theorem rest_of_module {fuel : ℕ} {ts rest : List Token} {m : Module}
    (h : module fuel ts = .ok (m, rest)) : rest = [] := by
  rw [module] at h
  obtain ⟨written, _, -, h⟩ := bind_eq_ok_iff.mp h
  obtain ⟨_, _, -, h⟩ := bind_eq_ok_iff.mp h
  obtain ⟨⟨name, position⟩, _, -, h⟩ := bind_eq_ok_iff.mp h
  obtain ⟨_, _, -, h⟩ := bind_eq_ok_iff.mp h
  obtain ⟨imports, _, -, h⟩ := bind_eq_ok_iff.mp h
  obtain ⟨decls, _, -, h⟩ := bind_eq_ok_iff.mp h
  obtain ⟨_, _, -, h⟩ := bind_eq_ok_iff.mp h
  obtain ⟨next, left, hnext, h⟩ := bind_eq_ok_iff.mp h
  obtain ⟨rfl, rfl⟩ := peek_eq_ok hnext
  cases left with
  | nil =>
    cases h
    rfl
  | cons t ts => cases h

end Parser

/-- The literals of a module are spelled by the tokens that it is read from. -/
theorem readFrom_of_parse {tokens : List Token} {m : Module} (h : parse tokens = .ok m) :
    m.ReadFrom tokens := by
  have htaken := Parser.takes_module (tokens.length + 1) tokens (List.suffix_refl tokens)
  rw [parse] at h
  generalize Parser.module (tokens.length + 1) tokens = x at h htaken
  cases htaken with
  | ok _ _ hm =>
    cases h
    exact hm
  | error => cases h

end Adl.Source
