import Adl.Text.Quoted

/-!
# Quoted — the texts between quotes

A character is written between quotes as it is, by a short escape, by the four digits of its unit,
or by those of a surrogate pair (`Piece`).  A text between quotes denotes the characters that it is
written for piece by piece (`Denotation`), and the reader reads just that: it stops behind the first
quote that belongs to no piece (`unquoteRest_eq_ok_iff`).  The writer uses pieces, so what it writes
is read back (`unquote_quote`).
-/

namespace Adl.Text

/-! ### Pieces -/

/-- The forms in which a character may be written between quotes. -/
inductive Piece : List Char → Char → Prop
  | plain {c : Char} (hcontrol : ¬ c.toNat < 32) (hquote : c ≠ '"') (hback : c ≠ '\\') :
      Piece [c] c
  | short {d c : Char} (h : shortEscape? d = some c) : Piece ['\\', d] c
  | unit {a b c d : Char} {u : Nat} (hu : unit? a b c d = some u)
      (htrailing : isTrailing u = false) (hleading : isLeading u = false) :
      Piece ['\\', 'u', a, b, c, d] (Char.ofNat u)
  | pair {a b c d a' b' c' d' : Char} {u v : Nat} (hu : unit? a b c d = some u)
      (htrailing : isTrailing u = false) (hleading : isLeading u = true)
      (hv : unit? a' b' c' d' = some v) (htrailing' : isTrailing v = true) :
      Piece ['\\', 'u', a, b, c, d, '\\', 'u', a', b', c', d'] (pairChar u v)

/-- A text between quotes denotes characters: one for each piece. -/
inductive Denotation : List Char → List Char → Prop
  | nil : Denotation [] []
  | cons {form body cs : List Char} {c : Char} (hform : Piece form c) (h : Denotation body cs) :
      Denotation (form ++ body) (c :: cs)

/-- The digits of a control are read as the control. -/
theorem unit?_control :
    ∀ n < 32, unit? '0' '0' (hexDigit (n / 16)) (hexDigit (n % 16)) = some n := by
  decide

/-- The digits of a unit are hexadecimal. -/
theorem hexValue?_ne_none {a b c d e : Char} {u : Nat} (h : unit? a b c d = some u)
    (he : e ∈ [a, b, c, d]) : hexValue? e ≠ none := by
  intro hnone
  simp only [unit?, Option.bind_eq_bind, Option.bind_eq_some_iff] at h
  obtain ⟨_, ha, _, hb, _, hc, _, hd, -⟩ := h
  simp only [List.mem_cons, List.not_mem_nil, or_false] at he
  rcases he with rfl | rfl | rfl | rfl <;> simp_all

theorem ne_u_of_shortEscape? {c d : Char} (h : shortEscape? d = some c) : d ≠ 'u' := by
  rintro rfl
  exact absurd h (Option.some_ne_none c).symm

theorem piece_escapeChar (c : Char) : Piece (escapeChar c) c := by
  have short {d e : Char} (h : shortEscape? d = some e) (hc : c = e) : Piece ['\\', d] c :=
    hc ▸ .short h
  unfold escapeChar
  split
  · next h => exact short rfl h
  split
  · next h => exact short rfl h
  split
  · next h => exact short rfl h
  split
  · next h => exact short rfl h
  split
  · next h => exact short rfl h
  split
  · next h => exact short rfl h
  split
  · next h => exact short rfl h
  split
  · next h =>
    have htrailing : isTrailing c.toNat = false := by simp [isTrailing]; omega
    have hleading : isLeading c.toNat = false := by simp [isLeading]; omega
    have hunit := Piece.unit (unit?_control c.toNat h) htrailing hleading
    rwa [Char.ofNat_toNat] at hunit
  · next hquote hback _ _ _ _ _ h => exact .plain h hquote hback

theorem denotation_flatMap (cs : List Char) : Denotation (cs.flatMap escapeChar) cs := by
  induction cs with
  | nil => exact .nil
  | cons c cs ih => exact .cons (piece_escapeChar c) ih

/-! ### The reader -/

variable {pos : Nat} {body cs rest : List Char}

/-- A character is read from each form in which it may be written. -/
theorem unquoteRest_piece {form : List Char} {c : Char} (h : Piece form c) (pos : Nat)
    (rest : List Char) : ∃ pos', unquoteRest pos (form ++ rest) =
      (unquoteRest pos' rest).map fun (s, r) => (c :: s, r) := by
  cases h with
  | plain hcontrol hquote hback =>
    refine ⟨pos + c.utf8Size, ?_⟩
    rw [List.cons_append, List.nil_append, unquoteRest, if_neg hcontrol] <;> simp_all
  | short h =>
    refine ⟨pos + 2, ?_⟩
    rw [List.cons_append, List.cons_append, List.nil_append, unquoteRest]
    · rw [h]
    · exact ne_u_of_shortEscape? h
  | unit hu htrailing hleading =>
    refine ⟨pos + 6, ?_⟩
    simp only [List.cons_append, List.nil_append]
    rw [unquoteRest]
    simp only [hu, htrailing, hleading]
    rfl
  | pair hu htrailing hleading hv htrailing' =>
    refine ⟨pos + 12, ?_⟩
    simp only [List.cons_append, List.nil_append]
    rw [unquoteRest]
    simp only [hu, htrailing, hleading, hv, htrailing', if_true]
    rfl

theorem unquoteRest_denoted (h : Denotation body cs) (pos : Nat) (rest : List Char) :
    unquoteRest pos (body ++ '"' :: rest) = .ok (cs, rest) := by
  induction h generalizing pos with
  | nil => rw [List.nil_append, unquoteRest]
  | @cons form body cs c hform _ ih =>
    obtain ⟨pos', hread⟩ := unquoteRest_piece hform pos (body ++ '"' :: rest)
    rw [List.append_assoc, hread, ih]
    rfl

/-- What is read in front of a text that denotes characters denotes one more. -/
theorem exists_denotation_cons {form : List Char} {c : Char} (hform : Piece form c)
    {x : Except QuoteError (List Char × List Char)} {rest' : List Char}
    (h : x.map (fun (s, r) => (c :: s, r)) = .ok (cs, rest'))
    (ih : ∀ {cs}, x = .ok (cs, rest') → ∃ body, rest = body ++ '"' :: rest' ∧ Denotation body cs) :
    ∃ body, form ++ rest = body ++ '"' :: rest' ∧ Denotation body cs := by
  cases x with
  | error e => cases h
  | ok y =>
    cases h
    obtain ⟨body, rfl, hbody⟩ := ih rfl
    exact ⟨form ++ body, (List.append_assoc ..).symm, .cons hform hbody⟩

theorem exists_denotation_of_unquoteRest {text left : List Char}
    (h : unquoteRest pos text = .ok (cs, left)) :
    ∃ body, text = body ++ '"' :: left ∧ Denotation body cs := by
  fun_induction unquoteRest pos text generalizing cs left with
  | case2 pos rest =>
    cases h
    exact ⟨[], rfl, .nil⟩
  | case6 pos a b c d u hu htrailing hleading a' b' c' d' rest v hv htrailing' ih =>
    exact exists_denotation_cons (.pair hu (by simpa using htrailing) hleading hv htrailing') h ih
  | case13 pos a b c d rest u hu htrailing hleading ih =>
    exact exists_denotation_cons (.unit hu (by simpa using htrailing) (by simpa using hleading)) h
      ih
  | case15 pos d rest hne c hc ih => exact exists_denotation_cons (.short hc) h ih
  | case19 pos c rest hquote hu hback hend hcontrol ih =>
    refine exists_denotation_cons (.plain hcontrol hquote ?_) h ih
    rintro rfl
    cases rest with
    | nil => exact hend rfl rfl
    | cons d rest => exact hback d rest rfl rfl
  | _ => cases h

/-- The reader reads what the text up to its closing quote denotes. -/
theorem unquoteRest_eq_ok_iff {text : List Char} :
    unquoteRest pos text = .ok (cs, rest) ↔
      ∃ body, text = body ++ '"' :: rest ∧ Denotation body cs := by
  constructor
  · exact exists_denotation_of_unquoteRest
  · rintro ⟨body, rfl, h⟩
    exact unquoteRest_denoted h pos rest

/-- A text is read back up to the quote that closes it. -/
theorem unquoteRest_flatMap (pos : Nat) (cs rest : List Char) :
    unquoteRest pos (cs.flatMap escapeChar ++ '"' :: rest) = .ok (cs, rest) :=
  unquoteRest_denoted (denotation_flatMap cs) pos rest

/-- A string is read back from its quoted text. -/
theorem unquote_quote (s : String) : unquote (quote s) = .ok s := by
  rw [unquote, quote, String.toList_ofList, quoteChars, List.drop_one, List.tail_cons,
    unquoteRest_flatMap]
  exact congrArg Except.ok String.ofList_toList

end Adl.Text
