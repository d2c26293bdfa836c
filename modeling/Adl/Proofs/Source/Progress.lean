import Adl.Proofs.Source.Lockstep
import Adl.Proofs.Source.Taken

/-!
# Progress — the parser goes forward and comes to an end

A bound on the repetitions of a parser stands for its recursion.  Each repetition has a generating
function, one round of it, and a round goes on with the next one, if at all, behind at least one
more token (`Repetition`).  So a bound beyond the number of tokens makes no difference (`Stable`):
no answer ever comes from a bound that is used up.  What a parser leaves is the end of the tokens
that it was given, never more than all of them, and it fails at one of them (`Production.moves`).
-/

namespace Adl.Source

namespace Parser

variable {α β : Type} {ts us : List Token} {m n : ℕ}

/-! ### Parsers that agree -/

/-- The parsers do the same on each end of the tokens. -/
def Agree (ts : List Token) (p q : Parser α) : Prop := ∀ us, us <:+ ts → p us = q us

/-- The parsers do the same behind at least one of the tokens. -/
def AgreeBehind (ts : List Token) (p q : Parser α) : Prop :=
  ∀ us, us <:+ ts → us.length < ts.length → p us = q us

/-- Two bounds between which the number of tokens makes no difference. -/
def Ample (ts : List Token) (m n : ℕ) : Prop := m = n ∨ ts.length < m ∧ ts.length < n

theorem Ample.of_suffix (h : Ample ts m n) (hus : us <:+ ts) : Ample us m n := by
  have hle := hus.length_le
  unfold Ample at h ⊢
  omega

section

variable {R : List Token → α → Prop} {p p' q q' : Parser α} {f g : α → Parser β}

theorem Agree.refl (p : Parser α) : Agree ts p p := fun _ _ => rfl

theorem Agree.behind (h : Agree ts p q) : AgreeBehind ts p q := fun us hus _ => h us hus

theorem AgreeBehind.of_agree
    (h : ∀ us, us <:+ ts → us.length < ts.length → Agree us p q) : AgreeBehind ts p q :=
  fun us hus hlt => h us hus hlt us (List.suffix_refl us)

theorem AgreeBehind.agree (h : AgreeBehind ts p q) (hus : us <:+ ts)
    (hlt : us.length < ts.length) : Agree us p q :=
  fun vs hvs => h vs (hvs.trans hus) (hvs.length_le.trans_lt hlt)

/-- The parser puts no tokens back. -/
def Forward (p : Parser α) : Prop := ∀ us a rest, p us = .ok (a, rest) → rest <:+ us

/-- The parser takes at least one token. -/
def Advancing (p : Parser α) : Prop :=
  ∀ us a rest, p us = .ok (a, rest) → rest <:+ us ∧ rest.length < us.length

theorem forward_of_takes (h : ∀ all, Takes all p R) : Forward p := by
  intro us a rest hp
  obtain ⟨vs, hsplit, -⟩ := exists_taken h hp
  exact ⟨vs, hsplit.symm⟩

theorem advancing_of_takes (h : ∀ all, Takes all p fun us _ => us ≠ []) : Advancing p := by
  intro us a rest hp
  obtain ⟨vs, rfl, hvs⟩ := exists_taken h hp
  refine ⟨List.suffix_append vs rest, ?_⟩
  rw [List.length_append]
  exact Nat.lt_add_of_pos_left (List.length_pos_iff.mpr hvs)

theorem Forward.pure (a : α) : Forward (Pure.pure a) := by
  rintro us _ _ ⟨⟩
  exact List.suffix_refl us

theorem Forward.bind (hp : Forward p) (hf : ∀ a, Forward (f a)) : Forward (p >>= f) := by
  intro us b rest h
  obtain ⟨a, mid, ha, hb⟩ := bind_eq_ok_iff.mp h
  exact (hf a mid b rest hb).trans (hp us a mid ha)

theorem Forward.ite {c : Prop} [Decidable c] (hp : Forward p) (hq : Forward q) :
    Forward (if c then p else q) := by
  split
  · exact hp
  · exact hq

theorem Advancing.forward (h : Advancing p) : Forward p := fun us a rest hp => (h us a rest hp).1

/-- Parsers in a row agree if the first ones do, and the others on what these leave. -/
theorem bind_congr_of_ok (hp : p us = q us)
    (hf : ∀ a rest, p us = .ok (a, rest) → f a rest = g a rest) :
    (p >>= f) us = (q >>= g) us := by
  show (p us >>= fun x => f x.1 x.2) = (q us >>= fun x => g x.1 x.2)
  rw [← hp]
  cases hx : p us with
  | ok x => exact hf x.1 x.2 hx
  | error e => rfl

theorem Agree.bind (hp : Agree ts p q) (hforward : Forward p) (hf : ∀ a, Agree ts (f a) (g a)) :
    Agree ts (p >>= f) (q >>= g) :=
  fun us hus => bind_congr_of_ok (hp us hus) fun a rest hok =>
    hf a rest ((hforward us a rest hok).trans hus)

/-- Behind what takes a token it is enough to agree there. -/
theorem Agree.bind_behind (hp : Agree ts p q) (hadvancing : Advancing p)
    (hf : ∀ a, AgreeBehind ts (f a) (g a)) : Agree ts (p >>= f) (q >>= g) := by
  refine fun us hus => bind_congr_of_ok (hp us hus) fun a rest hok => ?_
  obtain ⟨hrest, hlt⟩ := hadvancing us a rest hok
  exact hf a rest (hrest.trans hus) (hlt.trans_le hus.length_le)

theorem AgreeBehind.bind (hp : AgreeBehind ts p q) (hforward : Forward p)
    (hf : ∀ a, AgreeBehind ts (f a) (g a)) : AgreeBehind ts (p >>= f) (q >>= g) := by
  refine fun us hus hlt => bind_congr_of_ok (hp us hus hlt) fun a rest hok => ?_
  have hrest := hforward us a rest hok
  exact hf a rest (hrest.trans hus) (hrest.length_le.trans_lt hlt)

theorem AgreeBehind.map {f : α → β} (h : AgreeBehind ts p q) :
    AgreeBehind ts (do let a ← p; return f a) (do let a ← q; return f a) :=
  fun us hus hlt => bind_congr_of_ok (h us hus hlt) fun _ _ _ => rfl

theorem Agree.map {f : α → β} (h : Agree ts p q) :
    Agree ts (do let a ← p; return f a) (do let a ← q; return f a) :=
  fun us hus => bind_congr_of_ok (h us hus) fun _ _ _ => rfl

theorem Agree.trans {r : Parser α} (h : Agree ts p q) (h' : Agree ts q r) : Agree ts p r :=
  fun us hus => (h us hus).trans (h' us hus)

theorem Agree.ite {c : Prop} [Decidable c] (hp : Agree ts p p') (hq : Agree ts q q') :
    Agree ts (if c then p else q) (if c then p' else q') := by
  split
  · exact hp
  · exact hq

theorem AgreeBehind.ite {c : Prop} [Decidable c] (hp : AgreeBehind ts p p')
    (hq : AgreeBehind ts q q') : AgreeBehind ts (if c then p else q) (if c then p' else q') := by
  split
  · exact hp
  · exact hq

/-- What is read if a token is there, and so behind it, and what is read else. -/
theorem Agree.taken (text : String) (hp : AgreeBehind ts p p') (hq : Agree ts q q') :
    Agree ts (eat text >>= fun eaten => if eaten = true then p else q)
      (eat text >>= fun eaten => if eaten = true then p' else q') := by
  refine fun us hus => bind_congr_of_ok rfl fun eaten rest hok => ?_
  have heat := eat_eq_ok hok
  cases eaten with
  | true =>
    obtain ⟨t, rfl, -⟩ := heat
    exact hp rest ((List.suffix_cons t rest).trans hus)
      (Nat.lt_of_lt_of_le (Nat.lt_succ_self _) hus.length_le)
  | false =>
    obtain rfl := heat
    exact hq rest hus

theorem AgreeBehind.taken (text : String) (hp : AgreeBehind ts p p') (hq : AgreeBehind ts q q') :
    AgreeBehind ts (eat text >>= fun eaten => if eaten = true then p else q)
      (eat text >>= fun eaten => if eaten = true then p' else q') :=
  (Agree.refl _).behind.bind (forward_of_takes fun _ => takes_eat text) fun _ => hp.ite hq

end

theorem forward_eat (text : String) : Forward (eat text) := forward_of_takes fun _ => takes_eat text

theorem forward_peek : Forward peek := by
  intro us next rest h
  obtain ⟨rfl, -⟩ := peek_eq_ok h
  exact List.suffix_refl _

theorem forward_unexpected : Forward (unexpected : Parser α) :=
  forward_of_takes (R := fun _ _ => True) fun _ => takes_unexpected

theorem advancing_expectName (what : String) : Advancing (expectName what) := by
  refine advancing_of_takes fun all => (takes_expectName what).mono fun us _ _ hus => ?_
  rw [hus.1]
  exact List.cons_ne_nil _ _

theorem advancing_expect (text what : String) : Advancing (expect text what) := by
  refine advancing_of_takes fun all => (takes_expect text what).mono fun us _ _ hus => ?_
  rintro rfl
  cases hus

/-! ### Repetitions -/

/-- A bounded repetition and its generating function: a round goes on with the next one behind at
least one more token, since it depends on the parser that it goes on with only there.  A round may
pass a bound on, which makes no difference beyond the number of tokens. -/
structure Repetition (run : ℕ → Parser α) (round : ℕ → Parser α → Parser α) : Prop where
  succ : ∀ n, run (n + 1) = round n (run n)
  behind : ∀ {ts : List Token} {m n : ℕ} {p q : Parser α}, Ample ts (m + 1) (n + 1) → Forward p →
    AgreeBehind ts p q → Agree ts (round m p) (round n q)

/-- Bounds beyond the number of tokens make no difference. -/
def Stable (run : ℕ → Parser α) : Prop :=
  ∀ {ts : List Token} {m n : ℕ}, Ample ts m n → Agree ts (run m) (run n)

theorem Repetition.stable {run : ℕ → Parser α} {round : ℕ → Parser α → Parser α}
    (h : Repetition run round) (hforward : ∀ n, Forward (run n)) : Stable run := by
  intro ts m n hample us hus
  replace hample := hample.of_suffix hus
  clear hus
  induction hlength : us.length using Nat.strongRecOn generalizing us m n with
  | ind _ ih =>
    subst hlength
    rcases hample with rfl | ⟨hm, hn⟩
    · rfl
    · obtain ⟨m, rfl⟩ := Nat.exists_eq_add_of_lt (Nat.zero_lt_of_lt hm)
      obtain ⟨n, rfl⟩ := Nat.exists_eq_add_of_lt (Nat.zero_lt_of_lt hn)
      rw [Nat.zero_add] at hm hn ⊢
      rw [Nat.zero_add, h.succ, h.succ]
      refine h.behind (.inr ⟨hm, hn⟩) (hforward m) (fun vs _ hlt => ?_) us (List.suffix_refl us)
      exact ih _ hlt vs (.inr (by omega)) rfl

section

variable {close what : String} {item item' : Parser α}

/-- A round of the items up to a closing token. -/
def manyRound (close : String) (item : Parser α) (next : Parser (List α)) : Parser (List α) := do
  if ← eat close then return []
  if (← peek).isNone then unexpected
  let first ← item
  let rest ← next
  return first :: rest

/-- A round of the items with commas between them. -/
def separatedRound (close what : String) (item : Parser α) (next : Parser (List α)) :
    Parser (List α) := do
  let first ← item
  if ← eat close then return [first]
  expect "," what
  let rest ← next
  return first :: rest

theorem agree_manyRound {p q : Parser (List α)} (hitem : Agree ts item item')
    (hadvancing : Advancing item) (h : AgreeBehind ts p q) :
    Agree ts (manyRound close item p) (manyRound close item' q) := by
  have hitems : Agree ts (do let first ← item; let rest ← p; return first :: rest)
      (do let first ← item'; let rest ← q; return first :: rest) :=
    hitem.bind_behind hadvancing fun _ => h.map
  refine .taken close (Agree.refl _).behind ((Agree.refl _).bind forward_peek fun next => ?_)
  exact .ite ((Agree.refl _).bind forward_unexpected fun _ => hitems) hitems

theorem agree_separatedRound {p q : Parser (List α)} (hitem : Agree ts item item')
    (hforward : Forward item) (h : AgreeBehind ts p q) :
    Agree ts (separatedRound close what item p) (separatedRound close what item' q) := by
  refine hitem.bind hforward fun first => .taken close (Agree.refl _).behind ?_
  exact (Agree.refl _).bind_behind (advancing_expect _ _) fun _ => h.map

theorem repetition_many (close : String) (hitem : Advancing item) :
    Repetition (many close item) fun _ => manyRound close item :=
  ⟨fun _ => rfl, fun _ _ hbehind => agree_manyRound (.refl item) hitem hbehind⟩

theorem repetition_separated (close what : String) (hitem : Forward item) :
    Repetition (separated close what item) fun _ => separatedRound close what item :=
  ⟨fun _ => rfl, fun _ _ hbehind => agree_separatedRound (.refl item) hitem hbehind⟩

theorem forward_many (hitem : Forward item) (n : ℕ) : Forward (many close item n) := by
  induction n with
  | zero => exact forward_unexpected
  | succ n ih =>
    rw [many]
    refine .bind (forward_eat _) fun _ => .ite (.pure _) (.bind forward_peek fun _ => ?_)
    have hitems : Forward (do
        let first ← item
        let rest ← many close item n
        return first :: rest) := .bind hitem fun _ => .bind ih fun _ => .pure _
    exact .ite (.bind forward_unexpected fun _ => hitems) hitems

theorem forward_separated (hitem : Forward item) (n : ℕ) :
    Forward (separated close what item n) := by
  induction n with
  | zero => exact forward_unexpected
  | succ n ih =>
    rw [separated]
    refine .bind hitem fun _ => .bind (forward_eat _) fun _ => .ite (.pure _) ?_
    exact .bind (advancing_expect _ _).forward fun _ => .bind ih fun _ => .pure _

/-- Items that agree make up lists that agree. -/
theorem agree_many (hitem : Agree ts item item') (hadvancing : Advancing item)
    (hample : Ample ts m n) : Agree ts (many close item m) (many close item' n) := by
  have hitems : Agree ts (many close item n) (many close item' n) := by
    clear hample
    induction n with
    | zero => exact .refl _
    | succ n ih => exact agree_manyRound hitem hadvancing ih.behind
  have hbounds : Agree ts (many close item m) (many close item n) :=
    (repetition_many close hadvancing).stable (forward_many hadvancing.forward) hample
  exact hbounds.trans hitems

theorem agree_separated (hitem : Agree ts item item') (hforward : Forward item)
    (hample : Ample ts m n) :
    Agree ts (separated close what item m) (separated close what item' n) := by
  have hitems : Agree ts (separated close what item n) (separated close what item' n) := by
    clear hample
    induction n with
    | zero => exact .refl _
    | succ n ih => exact agree_separatedRound hitem hforward ih.behind
  have hbounds : Agree ts (separated close what item m) (separated close what item n) :=
    (repetition_separated close what hforward).stable (forward_separated hforward) hample
  exact hbounds.trans hitems

end

/-! ### The repetitions of the grammar -/

/-- A round of the names behind the dots of a dotted name. -/
def nameRound (next : Parser (List String)) : Parser (List String) := do
  if ← eat "." then
    let part ← expectName "identifier"
    let parts ← next
    return part.text :: parts
  else return []

/-- A round of the names behind the dots of an import. -/
def importRound (next : Parser (List String × Bool)) : Parser (List String × Bool) := do
  if ← eat "." then
    if ← eat "*" then return ([], true)
    let part ← expectName "identifier or \"*\""
    let (parts, all) ← next
    return (part.text :: parts, all)
  else return ([], false)

/-- A round of the imports. -/
def importsRound (fuel : ℕ) (next : Parser (List Import)) : Parser (List Import) := do
  if ← eat "import" then
    let first ← importDecl fuel
    let rest ← next
    return first :: rest
  else return []

/-- A literal, where `next` reads the literals in it. -/
def literalRound (n : ℕ) (next : Parser Literal) : Parser Literal := do
  match ← peek with
  | none => unexpected
  | some t =>
    if isQuoted t then
      let _ ← eat t.text
      return .string (← unquoted t)
    else if let some m := numeral? t then
      let _ ← eat t.text
      numberLiteral t m
    else if ← eat "true" then return .boolean true
    else if ← eat "false" then return .boolean false
    else if ← eat "null" then return .null
    else if ← eat "[" then
      if ← eat "]" then return .array []
      return .array (← separated "]" "\",\" or \"]\"" next (n + 1))
    else if ← eat "\x7b" then
      if ← eat "\x7d" then return .object []
      return .object (← separated "\x7d" "\",\" or \"\x7d\"" (entry next) (n + 1))
    else unexpected

/-- A type, where `next` reads its arguments. -/
def typeRound (n : ℕ) (next : Parser TypeExpr) : Parser TypeExpr := do
  let (name, position) ← dottedName (n + 1)
  if ← eat "<" then
    let args ← separated ">" "\",\" or \">\"" next (n + 1)
    return .mk name args position
  else return .mk name [] position

/-- A round of the annotations. -/
def annotationRound (n : ℕ) (next : Parser (List AnnotationEntry)) :
    Parser (List AnnotationEntry) := do
  match ← docs with
  | some doc =>
    let rest ← next
    return ⟨docName, .string doc⟩ :: rest
  | none =>
    if ← eat "@" then
      let (name, _) ← dottedName (n + 1)
      let value ← annotationValue (n + 1)
      let rest ← next
      return ⟨name, value⟩ :: rest
    else return []

theorem repetition_nameParts : Repetition nameParts fun _ => nameRound := by
  refine ⟨fun _ => rfl, fun {ts _ _ p q} _ _ hbehind => .taken "." ?_ (.refl _)⟩
  exact (Agree.refl _).behind.bind (advancing_expectName _).forward fun _ => hbehind.map

theorem repetition_importParts : Repetition importParts fun _ => importRound := by
  refine ⟨fun _ => rfl, fun {ts _ _ p q} _ _ hbehind => .taken "." ?_ (.refl _)⟩
  refine .taken "*" (Agree.refl _).behind ?_
  exact (Agree.refl _).behind.bind (advancing_expectName _).forward fun _ => hbehind.map

theorem repetition_imports (fuel : ℕ) : Repetition (imports fuel) fun _ => importsRound fuel := by
  refine ⟨fun _ => rfl, fun {ts _ _ p q} _ _ hbehind => .taken "import" ?_ (.refl _)⟩
  have hforward : Forward (importDecl fuel) := forward_of_takes fun _ => takes_importDecl fuel
  exact (Agree.refl _).behind.bind hforward fun _ => hbehind.map

theorem stable_nameParts : Stable nameParts :=
  repetition_nameParts.stable fun n => forward_of_takes fun _ => takes_nameParts n

theorem stable_importParts : Stable importParts :=
  repetition_importParts.stable fun n => forward_of_takes fun _ => moves_importParts n

theorem stable_dottedName : Stable dottedName := fun hample =>
  (Agree.refl _).bind (advancing_expectName _).forward fun _ => (stable_nameParts hample).map

theorem advancing_dottedName (n : ℕ) : Advancing (dottedName n) :=
  advancing_of_takes fun _ => (takes_dottedName n).mono fun _ _ _ h => h.1

theorem forward_unquoted (t : Token) : Forward (unquoted t) := by
  rw [unquoted]
  cases Text.unquote t.text with
  | ok s => exact .pure s
  | error e => exact fun _ _ _ h => by cases h

theorem forward_entry {value : Parser Literal} (h : Forward value) : Forward (entry value) := by
  refine .bind (forward_of_takes fun _ => takes_expectWhere _ _) fun key => ?_
  refine .bind (forward_unquoted key) fun name => .bind (advancing_expect _ _).forward fun _ => ?_
  exact .bind h fun l => .pure _

theorem agree_entry {p q : Parser Literal} (h : Agree ts p q) : Agree ts (entry p) (entry q) := by
  refine (Agree.refl _).bind (forward_of_takes fun _ => takes_expectWhere _ _) fun key => ?_
  refine (Agree.refl _).bind (forward_unquoted key) fun name => ?_
  exact (Agree.refl _).bind (advancing_expect _ _).forward fun _ => h.map

theorem repetition_literal : Repetition literal literalRound := by
  refine ⟨fun _ => rfl, fun {ts m n p q} hample hp hbehind => ?_⟩
  refine (Agree.refl _).bind forward_peek fun next => ?_
  cases next with
  | none => exact .refl _
  | some t =>
    refine .ite (.refl _) ?_
    cases numeral? t with
    | some n => exact .refl _
    | none =>
      refine .taken _ (Agree.refl _).behind (.taken _ (Agree.refl _).behind ?_)
      refine .taken _ (Agree.refl _).behind (.taken _ ?_ (.taken _ ?_ (.refl _)))
      · refine .taken _ (Agree.refl _).behind (.of_agree fun us hus hlt => ?_)
        exact (agree_separated (hbehind.agree hus hlt) hp (hample.of_suffix hus)).map
      · refine .taken _ (Agree.refl _).behind (.of_agree fun us hus hlt => ?_)
        exact (agree_separated (agree_entry (hbehind.agree hus hlt)) (forward_entry hp)
          (hample.of_suffix hus)).map

theorem forward_literal (n : ℕ) : Forward (literal n) := forward_of_takes fun _ => takes_literal n

theorem stable_literal : Stable literal := repetition_literal.stable forward_literal

theorem repetition_typeExpr : Repetition typeExpr typeRound := by
  refine ⟨fun _ => rfl, fun {ts m n p q} hample hp hbehind => ?_⟩
  refine (stable_dottedName hample).bind (advancing_dottedName _).forward fun name => ?_
  refine .taken _ (.of_agree fun us hus hlt => ?_) (.refl _)
  exact (agree_separated (hbehind.agree hus hlt) hp (hample.of_suffix hus)).map

theorem advancing_typeExpr (n : ℕ) : Advancing (typeExpr n) :=
  advancing_of_takes fun _ => (takes_typeExpr n).mono fun _ _ _ h => h.1

theorem stable_typeExpr : Stable typeExpr :=
  repetition_typeExpr.stable fun n => (advancing_typeExpr n).forward

theorem stable_annotationValue : Stable annotationValue := by
  intro ts m n hample
  refine (Agree.refl _).bind forward_peek fun next => ?_
  cases next with
  | none => exact .refl _
  | some t => exact .ite (stable_literal hample) (.refl _)

theorem forward_annotationValue (n : ℕ) : Forward (annotationValue n) :=
  forward_of_takes fun _ => (takes_annotationValue n).moves

theorem repetition_annotations : Repetition annotations annotationRound := by
  refine ⟨annotations_succ, fun {ts m n p q} hample hp hbehind us hus => ?_⟩
  refine bind_congr_of_ok rfl fun doc rest hok => ?_
  rcases docs_eq_ok hok with ⟨rfl, rfl⟩ | ⟨block, rfl, rfl, hne, -, -⟩
  · refine Agree.taken "@" ?_ (.refl _) rest hus
    refine (stable_dottedName hample).behind.bind (advancing_dottedName _).forward fun name => ?_
    exact (stable_annotationValue hample).behind.bind (forward_annotationValue _) fun value =>
      hbehind.map
  · refine hbehind.map rest ((List.suffix_append block rest).trans hus) ?_
    have hle := hus.length_le
    have hpos := List.length_pos_iff.mpr hne
    rw [List.length_append] at hle
    omega

theorem forward_annotations (n : ℕ) : Forward (annotations n) :=
  forward_of_takes fun _ => (takes_annotations n).moves

theorem stable_annotations : Stable annotations :=
  repetition_annotations.stable forward_annotations

/-! ### The rest of the grammar -/

theorem stable_typeParams : Stable typeParams := by
  intro ts m n hample
  refine .taken _ (Agree.behind ?_) (.refl _)
  exact agree_separated (.refl _) (.bind (advancing_expectName _).forward fun _ => .pure _) hample

theorem stable_default : Stable fun n => some <$> literal n := by
  intro ts m n hample
  dsimp only
  rw [← bind_pure_comp, ← bind_pure_comp]
  exact (stable_literal hample).map

theorem forward_default (n : ℕ) : Forward (some <$> literal n) :=
  forward_of_takes fun _ => (takes_default n).moves

theorem agree_fail_bind {fault : ParseFault} {token : Option Token} {f g : α → Parser β} :
    Agree ts (fail fault token >>= f) (fail fault token >>= g) := fun _ _ => rfl

theorem stable_member (allowDefault : Bool) : Stable (member allowDefault) := by
  intro ts m n hample
  refine (stable_annotations hample).bind (forward_annotations m) fun written => ?_
  refine (stable_typeExpr hample).bind (advancing_typeExpr m).forward fun type => ?_
  refine (Agree.refl _).bind (advancing_expectName _).forward fun name => ?_
  refine (Agree.refl _).bind forward_peek fun equals => .taken _ (Agree.behind ?_) (.refl _)
  exact .ite agree_fail_bind ((stable_default hample).bind (forward_default m) fun _ => .refl _)

theorem stable_label : Stable label := fun hample =>
  (stable_annotations hample).bind (forward_annotations _) fun _ => .refl _

theorem advancing_member (allowDefault : Bool) (n : ℕ) : Advancing (member allowDefault n) :=
  advancing_of_takes fun _ => (takes_member allowDefault n).mono fun _ _ _ h => h.1

theorem advancing_label (n : ℕ) : Advancing (label n) :=
  advancing_of_takes fun _ => (takes_label n).mono fun _ _ _ h => h.1

theorem stable_members {item : ℕ → Parser Member} (hstable : Stable item)
    (hadvancing : ∀ n, Advancing (item n)) : Stable fun n => members (item n) n := fun hample =>
  (Agree.refl _).bind (advancing_expect _ _).forward fun _ =>
    agree_many (hstable hample) (hadvancing _) hample

theorem stable_body (k : Keyword) : Stable fun n => body n k := by
  intro ts m n hample
  have hmembers (allowDefault : Bool) :
      Agree ts (members (member allowDefault m) m) (members (member allowDefault n) n) :=
    stable_members (stable_member allowDefault) (advancing_member allowDefault) hample
  cases k with
  | struct => exact (hmembers true).map
  | union => exact (hmembers false).map
  | enum => exact Agree.map (stable_members stable_label advancing_label hample)
  | «alias» =>
    exact (Agree.refl _).bind (advancing_expect _ _).forward fun _ => (stable_typeExpr hample).map
  | newtype =>
    refine (Agree.refl _).bind (advancing_expect _ _).forward fun _ => ?_
    refine (stable_typeExpr hample).bind (advancing_typeExpr m).forward fun target => ?_
    exact .taken _ (stable_default hample).map.behind (.refl _)

theorem forward_body (n : ℕ) (k : Keyword) : Forward (body n k) :=
  forward_of_takes fun _ => (takes_body n k).moves

theorem stable_decl : Stable decl := by
  intro ts m n hample
  refine (stable_annotations hample).bind (forward_annotations m) fun written => ?_
  refine (Agree.refl _).bind (forward_of_takes fun _ => takes_keyword) fun ⟨kind, position⟩ => ?_
  refine (Agree.refl _).bind (advancing_expectName _).forward fun name => .ite ?_ ?_
  · refine (Agree.refl _).bind (.pure []) fun params => ?_
    exact (stable_body kind hample).bind (forward_body m kind) fun _ => .refl _
  · refine (stable_typeParams hample).bind (forward_of_takes fun _ => takes_typeParams m) ?_
    exact fun params => (stable_body kind hample).bind (forward_body m kind) fun _ => .refl _

theorem advancing_decl (n : ℕ) : Advancing (decl n) :=
  advancing_of_takes fun _ => (takes_decl n).mono fun _ _ _ h => h.1

theorem stable_importDecl : Stable importDecl := fun hample =>
  (Agree.refl _).bind (advancing_expectName _).forward fun _ =>
    (stable_importParts hample).bind (forward_of_takes fun _ => moves_importParts _) fun _ =>
      .refl _

theorem forward_imports (fuel n : ℕ) : Forward (imports fuel n) :=
  forward_of_takes fun _ => moves_imports fuel n

theorem stable_imports : Stable fun n => imports n n := by
  intro ts m n hample
  have hlines : ∀ k, Agree ts (imports m k) (imports n k) := by
    intro k
    induction k with
    | zero => exact .refl _
    | succ k ih =>
      refine .taken _ (Agree.behind ?_) (.refl _)
      exact (stable_importDecl hample).bind (forward_of_takes fun _ => takes_importDecl m) fun _ =>
        ih.map
  exact ((repetition_imports m).stable (forward_imports m) hample).trans (hlines n)

/-- A module is read alike whatever the bound, beyond the number of tokens. -/
theorem stable_module : Stable module := by
  intro ts m n hample
  refine (stable_annotations hample).bind (forward_annotations m) fun written => ?_
  refine (Agree.refl _).bind (advancing_expect _ _).forward fun _ => ?_
  refine (stable_dottedName hample).bind (advancing_dottedName m).forward fun name => ?_
  refine (Agree.refl _).bind (advancing_expect _ _).forward fun _ => ?_
  refine (stable_imports hample).bind (forward_imports m m) fun lines => ?_
  refine (agree_many (stable_decl hample) (advancing_decl m) hample).bind ?_ fun _ => .refl _
  exact forward_many (advancing_decl m).forward m

/-! ### Loops and productions -/

/-- The loops of the grammar with their rounds, and the two productions that descend into
themselves. -/
inductive Loop : ∀ {α : Type}, (ℕ → Parser α) → (ℕ → Parser α → Parser α) → Prop
  | names : Loop nameParts fun _ => nameRound
  | importNames : Loop importParts fun _ => importRound
  | imports (fuel : ℕ) : Loop (imports fuel) fun _ => importsRound fuel
  | annotations : Loop annotations annotationRound
  | literal : Loop literal literalRound
  | items (fuel : ℕ) (what : String) :
      Loop (separated "]" what (literal fuel)) fun _ => separatedRound "]" what (literal fuel)
  | entries (fuel : ℕ) (what : String) : Loop (separated "\x7d" what (entry (literal fuel)))
      fun _ => separatedRound "\x7d" what (entry (literal fuel))
  | typeExpr : Loop typeExpr typeRound
  | typeArgs (fuel : ℕ) (what : String) :
      Loop (separated ">" what (typeExpr fuel)) fun _ => separatedRound ">" what (typeExpr fuel)
  | typeParams (what : String) :
      Loop (separated ">" what (return (← expectName "type parameter").text)) fun _ =>
        separatedRound ">" what (return (← expectName "type parameter").text)
  | members (allowDefault : Bool) (fuel : ℕ) : Loop (many "\x7d" (member allowDefault fuel))
      fun _ => manyRound "\x7d" (member allowDefault fuel)
  | labels (fuel : ℕ) : Loop (many "\x7d" (label fuel)) fun _ => manyRound "\x7d" (label fuel)
  | decls (fuel : ℕ) : Loop (many "\x7d" (decl fuel)) fun _ => manyRound "\x7d" (decl fuel)

/-- What the grammar is made of: single tokens, documentation, and the productions. -/
inductive Production : ∀ {α : Type}, Parser α → Prop
  | eat (text : String) : Production (eat text)
  | expect (text what : String) : Production (expect text what)
  | expectName (what : String) : Production (expectName what)
  | keyword : Production keyword
  | docs : Production docs
  | dottedName (n : ℕ) : Production (dottedName n)
  | importDecl (n : ℕ) : Production (importDecl n)
  | annotations (n : ℕ) : Production (annotations n)
  | literal (n : ℕ) : Production (literal n)
  | entry (n : ℕ) : Production (entry (literal n))
  | typeExpr (n : ℕ) : Production (typeExpr n)
  | typeParams (n : ℕ) : Production (typeParams n)
  | member (allowDefault : Bool) (n : ℕ) : Production (member allowDefault n)
  | label (n : ℕ) : Production (label n)
  | body (n : ℕ) (k : Keyword) : Production (body n k)
  | decl (n : ℕ) : Production (decl n)
  | imports (m n : ℕ) : Production (imports m n)
  | module (n : ℕ) : Production (module n)

theorem Loop.repetition {run : ℕ → Parser α} {round : ℕ → Parser α → Parser α}
    (h : Loop run round) : Repetition run round := by
  cases h with
  | names => exact repetition_nameParts
  | importNames => exact repetition_importParts
  | imports fuel => exact repetition_imports fuel
  | annotations => exact repetition_annotations
  | literal => exact repetition_literal
  | items fuel what => exact repetition_separated _ _ (forward_literal fuel)
  | entries fuel what => exact repetition_separated _ _ (forward_entry (forward_literal fuel))
  | typeExpr => exact repetition_typeExpr
  | typeArgs fuel what => exact repetition_separated _ _ (advancing_typeExpr fuel).forward
  | typeParams what =>
    exact repetition_separated _ _ (.bind (advancing_expectName _).forward fun _ => .pure _)
  | members allowDefault fuel => exact repetition_many _ (advancing_member allowDefault fuel)
  | labels fuel => exact repetition_many _ (advancing_label fuel)
  | decls fuel => exact repetition_many _ (advancing_decl fuel)

/-- On an end of the tokens a production leaves an end of them, or fails at one of them or behind
them all. -/
theorem Production.moves {p : Parser α} (h : Production p) (all : List Token) : Moves all p := by
  cases h with
  | eat text => exact (takes_eat text).moves
  | expect text what => exact (takes_expect text what).moves
  | expectName what => exact (takes_expectName what).moves
  | keyword => exact takes_keyword.moves
  | docs => exact takes_docs.moves
  | dottedName n => exact (takes_dottedName n).moves
  | importDecl n => exact (takes_importDecl n).moves
  | annotations n => exact (takes_annotations n).moves
  | literal n => exact (takes_literal n).moves
  | entry n => exact (takes_entry (takes_literal n)).moves
  | typeExpr n => exact (takes_typeExpr n).moves
  | typeParams n => exact (takes_typeParams n).moves
  | member allowDefault n => exact (takes_member allowDefault n).moves
  | label n => exact (takes_label n).moves
  | body n k => exact (takes_body n k).moves
  | decl n => exact (takes_decl n).moves
  | imports m n => exact moves_imports m n
  | module n => exact (takes_module n).moves

end Parser

/-! ### Texts -/

variable {text : String} {tokens : Tokens}

theorem exists_closed_of_mem {next : Option Token} (h : ∀ t ∈ next, t ∈ tokens.list) :
    ∃ t ∈ tokens.closed, (next.map Token.position).getD tokens.stop = t.position := by
  cases next with
  | none => exact ⟨⟨"", tokens.stop⟩, List.mem_append_right _ (List.mem_singleton_self _), rfl⟩
  | some t => exact ⟨t, List.mem_append_left _ (h t rfl), rfl⟩

/-- **The parser makes progress.**  On the tokens of a text no bound on the repetitions beyond the
number of tokens makes a difference, so each reading ends by itself: a module with nothing left
behind it, or a failure at one of the tokens or at the end of the text.  Every production leaves an
end of the tokens, so it is never behind them all; every round of a loop goes on with the next one
only behind at least one more token, as does every literal or type with those in it; and a line of
documentation is one token. -/
theorem progress_laws (label : String) (h : Token.scan text = .ok tokens) :
    (∀ n, tokens.list.length < n →
      Parser.module n tokens.list = Parser.module (tokens.list.length + 1) tokens.list) ∧
    (∀ {α : Type} {p : Parser α}, Parser.Production p → ∀ ts, ts <:+ tokens.list →
      Parser.Taken tokens.list (fun _ _ => True) ts (p ts)) ∧
    (∀ {α : Type} {run : ℕ → Parser α} {round : ℕ → Parser α → Parser α},
      Parser.Loop run round → Parser.Repetition run round) ∧
    (∀ ts doc rest, Parser.docs ts = .ok (doc, rest) → doc = none ∧ rest = ts ∨
      ∃ block, doc = some (Note.docText block) ∧ ts = block ++ rest ∧ block ≠ [] ∧
        (∀ t ∈ block, t.isDoc) ∧ ∀ t ∈ rest.head?, ¬ t.isDoc) ∧
    ((∃ m, ofText label text = .ok m ∧
        Parser.module (tokens.list.length + 1) tokens.list = .ok (m, [])) ∨
      ∃ t ∈ tokens.closed, ∃ fault,
        ofText label text = .error (.form label t.position (.parse fault))) := by
  refine ⟨fun n hn => ?_, fun hp => hp.moves _, fun hloop => hloop.repetition,
    fun _ _ _ hdocs => Parser.docs_eq_ok hdocs, ?_⟩
  · exact Parser.stable_module (.inr ⟨hn, Nat.lt_succ_self _⟩) _ (List.suffix_refl _)
  · have htaken := Parser.takes_module (tokens.list.length + 1) _ (List.suffix_refl tokens.list)
    rw [ofText, h]
    dsimp only
    rw [parse]
    cases hx : Parser.module (tokens.list.length + 1) tokens.list with
    | ok x =>
      obtain ⟨m, rest⟩ := x
      obtain rfl := Parser.rest_of_module hx
      exact .inl ⟨m, rfl, rfl⟩
    | error e =>
      rw [hx] at htaken
      cases htaken with
      | error fault htoken =>
        obtain ⟨t, ht, hposition⟩ := exists_closed_of_mem htoken
        refine .inr ⟨t, ht, fault, ?_⟩
        rw [← hposition]
        rfl

/-- What `nestedText` is read as. -/
def nestedModule : Source.Module :=
  ⟨"m", [⟨"a", .all, ⟨3, 8⟩⟩, ⟨"a", .name "B", ⟨3, 20⟩⟩],
    [⟨"S", ["T"], [⟨"Since", .array [.integer 1, .object [("k", .array [])]]⟩],
      .struct [⟨"x", "x",
        .mk "B" [.mk "List" [.mk "T" [] ⟨7, 8⟩] ⟨7, 3⟩, .mk "T" [] ⟨7, 12⟩] ⟨7, 1⟩,
        some (.array [.array [.null]]), [], ⟨7, 15⟩⟩], ⟨6, 1⟩⟩],
    [⟨"Doc", .string "All\n"⟩]⟩

/-- The module is read whatever the bound. -/
theorem nestedText_progress :
    ∃ tokens, Token.scan nestedText = .ok tokens ∧ tokens.list.length = 52 ∧
      ∀ n, 52 < n → Parser.module n tokens.list = .ok (nestedModule, []) := by
  have hscan := Token.scan_of_cut cut_nestedText
  have hlength : (Token.kept [] nestedLexemes).length = 52 := by decide +kernel
  obtain ⟨hbound, -⟩ := progress_laws "a" hscan
  refine ⟨_, hscan, hlength, fun n hn => ?_⟩
  rw [hbound n (by rwa [hlength])]
  rfl

end Adl.Source
