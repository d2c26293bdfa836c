import Adl.Proofs.Source.Parses
import Adl.Proofs.Source.WellFormed

/-!
# Literals — written literals are read back

A literal can be written if its integers have 64 bits and its floating point numbers have texts
(`Writable`).  Its first word tells that a literal starts there (`literalWords_eq_cons`), and then
which one; what is read is the same literal, with the order and the repetitions of its entries
(`parses_literal`).
-/

namespace Adl.Source

/-! ### Literals that can be written -/

/-- A literal whose integers have 64 bits, signed or not, and whose floating point numbers are
written by `form`. -/
inductive Writable (form : Double → String) : Literal → Prop
  | null : Writable form .null
  | integer {i : Int} (hle : Parser.minInteger ≤ i) (hge : i ≤ Parser.maxInteger) :
      Writable form (.integer i)
  | double {d : Double} (h : d.IsWrittenAs (form d)) : Writable form (.double d)
  | string (s : String) : Writable form (.string s)
  | boolean (b : Bool) : Writable form (.boolean b)
  | array {items : List Literal} (h : ∀ l ∈ items, Writable form l) : Writable form (.array items)
  | object {entries : List (String × Literal)} (h : ∀ e ∈ entries, Writable form e.2) :
      Writable form (.object entries)

theorem itemDoubles_eq_flatMap (items : List Literal) :
    Literal.itemDoubles items = items.flatMap Literal.doubles := by
  induction items with
  | nil => rfl
  | cons l items ih => rw [Literal.itemDoubles, ih, List.flatMap_cons]

theorem entryDoubles_eq_flatMap (entries : List (String × Literal)) :
    Literal.entryDoubles entries = entries.flatMap fun e => e.2.doubles := by
  induction entries with
  | nil => rfl
  | cons e entries ih => rw [Literal.entryDoubles, ih, List.flatMap_cons]

variable {form : Double → String}

theorem InRange.writable {l : Literal} (h : InRange l) :
    (∀ d ∈ l.doubles, d.IsWrittenAs (form d)) → Writable form l := by
  induction h with
  | null => exact fun _ => .null
  | integer hle hge => exact fun _ => .integer hle hge
  | double d => exact fun hd => .double (hd d (List.mem_singleton.mpr rfl))
  | string s => exact fun _ => .string s
  | boolean b => exact fun _ => .boolean b
  | array _ ih =>
    intro hd
    rw [Literal.doubles, itemDoubles_eq_flatMap, List.forall_mem_flatMap] at hd
    exact .array fun l hl => ih l hl (hd l hl)
  | object _ ih =>
    intro hd
    rw [Literal.doubles, entryDoubles_eq_flatMap, List.forall_mem_flatMap] at hd
    exact .object fun e he => ih e he (hd e he)

theorem itemWords_eq_map (items : List Literal) :
    itemWords form items = items.map (literalWords form) := by
  induction items with
  | nil => rfl
  | cons l items ih => rw [itemWords, ih, List.map_cons]

theorem entryWords_eq_map (entries : List (String × Literal)) : entryWords form entries =
    entries.map fun e => Text.quote e.1 :: ":" :: literalWords form e.2 := by
  induction entries with
  | nil => rfl
  | cons e entries ih => rw [entryWords, ih, List.map_cons]

namespace Parser

/-! ### Literals -/

section

variable {t : Token} {l : Literal} {s w : String} {rest : List String} {fuel limit : Nat}

theorem isQuoted_of_text (h : t.text = Text.quote s) : isQuoted t := by
  rw [isQuoted, h, Text.quote, String.toList_ofList]
  rfl

theorem unquoted_of_text (h : t.text = Text.quote s) : unquoted t = pure s := by
  rw [unquoted, h, Text.unquote_quote]

/-- The words that start literals and are neither strings nor numbers. -/
theorem not_isQuoted_of_text (h : t.text ∈ ["true", "false", "null", "[", "\x7b"]) :
    isQuoted t = false ∧ numeral? t = none ∧ startsLiteral t := by
  have hall : ∀ w ∈ ["true", "false", "null", "[", "\x7b"], w.toList.head? ≠ some '"' ∧
      Numeral.scan? Text.isDigit w.toList = none := by decide
  obtain ⟨hquote, hscan⟩ := hall _ h
  refine ⟨by simpa [isQuoted] using hquote, by rw [numeral?, hscan], ?_⟩
  rw [startsLiteral, List.contains_iff_mem.mpr h, Bool.or_true]

/-- A number is no string. -/
theorem isQuoted_of_number {n : Numeral}
    (h : Numeral.scan? Text.isDigit t.text.toList = some (n, [])) (hvalue : n.hasValue) :
    isQuoted t = false ∧ numeral? t = some n := by
  refine ⟨?_, by rw [numeral?, h]⟩
  rw [isQuoted]
  cases ht : t.text.toList with
  | nil => rfl
  | cons c cs =>
    rw [ht] at h
    obtain ⟨-, -, -, hquote, -⟩ := Lexeme.classes_of_number (head_of_scan? h hvalue)
    simpa using hquote

theorem hasValue_ofInt (i : Int) : (Numeral.ofInt i).hasValue := by
  have hwhole : (Numeral.ofInt i).whole.all Text.isAsciiDigit :=
    List.all_eq_true.mpr fun _ h => Numeral.isAsciiDigit_of_mem_toDigits h
  rw [Numeral.hasValue, hwhole]
  rfl

theorem scan?_toString (i : Int) :
    Numeral.scan? Text.isDigit (toString i).toList = some (Numeral.ofInt i, []) := by
  have hscan : Numeral.scan? Text.isDigit ((toString i).toList ++ []) =
      some (Numeral.ofInt i, []) :=
    Numeral.scan?_toString (fun c hc => by simp [Text.isDigit, hc]) (by decide +kernel) i
      (fun _ h => nomatch h)
  rwa [List.append_nil] at hscan

/-- The first word of a literal shows that one starts there. -/
theorem literalWords_eq_cons (h : Writable form l) :
    ∃ w ws, literalWords form l = w :: ws ∧ ∀ t : Token, t.text = w → startsLiteral t := by
  have hstart : ∀ w ∈ ["true", "false", "null", "[", "\x7b"], ∀ t : Token, t.text = w →
      startsLiteral t := by
    rintro w hw t rfl
    exact (not_isQuoted_of_text hw).2.2
  have hnumber : ∀ (w : String) (n : Numeral),
      Numeral.scan? Text.isDigit w.toList = some (n, []) → n.hasValue →
      ∀ t : Token, t.text = w → startsLiteral t := by
    rintro w n hscan hvalue t rfl
    rw [startsLiteral, (isQuoted_of_number hscan hvalue).2]
    simp
  cases h with
  | null => exact ⟨_, _, rfl, hstart _ (by decide)⟩
  | @integer i => exact ⟨_, _, rfl, hnumber _ _ (scan?_toString i) (hasValue_ofInt i)⟩
  | double h =>
    obtain ⟨n, hscan, -, hvalue, -⟩ := h
    exact ⟨_, _, rfl, hnumber _ n hscan hvalue⟩
  | string s =>
    refine ⟨_, _, rfl, fun t ht => ?_⟩
    rw [startsLiteral, isQuoted_of_text ht]
    rfl
  | boolean b =>
    refine ⟨_, _, rfl, hstart _ ?_⟩
    cases b <;> decide
  | array _ => exact ⟨_, _, rfl, hstart _ (by decide)⟩
  | object _ => exact ⟨_, _, rfl, hstart _ (by decide)⟩

theorem head?_intercalate {α : Type} (a : α) (as sep rest : List α) (ls : List (List α)) :
    (sep.intercalate ((a :: as) :: ls) ++ rest).head? = some a := by
  cases ls with
  | nil => rw [List.intercalate_singleton]; rfl
  | cons l ls => rw [List.intercalate_cons_cons]; rfl

theorem parses_entry {value : Parser Literal} {e : String × Literal}
    (hvalue : Parses value (literalWords form e.2 ++ rest) rest (· = e.2)) :
    Parses (entry value) ((Text.quote e.1 :: ":" :: literalWords form e.2) ++ rest) rest
      (· = e) := by
  rw [entry]
  refine (parses_expectWhere (fun t ht => isQuoted_of_text ht) _).bind fun t ht => ?_
  rw [unquoted_of_text ht]
  refine (Parses.pure (P := (· = e.1)) rfl).bind ?_
  rintro _ rfl
  refine (parses_expect _ _).bind fun _ _ => hvalue.bind ?_
  rintro _ rfl
  exact .pure rfl

/-- Reads a literal that is neither a string nor a number. -/
def bareLiteral (fuel : Nat) : Parser Literal := do
  if ← eat "true" then return .boolean true
  else if ← eat "false" then return .boolean false
  else if ← eat "null" then return .null
  else if ← eat "[" then
    if ← eat "]" then return .array []
    return .array (← separated "]" "\",\" or \"]\"" (literal fuel) (fuel + 1))
  else if ← eat "\x7b" then
    if ← eat "\x7d" then return .object []
    return .object (← separated "\x7d" "\",\" or \"\x7d\"" (entry (literal fuel)) (fuel + 1))
  else unexpected

theorem parses_literal_of_bare {k : List String} {P : Literal → Prop}
    (hw : w ∈ ["true", "false", "null", "[", "\x7b"])
    (h : Parses (bareLiteral fuel) (w :: rest) k P) :
    Parses (literal (fuel + 1)) (w :: rest) k P := by
  rw [literal]
  refine (parses_peek_cons _ _).bind ?_
  rintro _ ⟨t, rfl, rfl⟩
  obtain ⟨hquoted, hnumeral, -⟩ := not_isQuoted_of_text hw
  simp only [hquoted, hnumeral, Bool.false_eq_true, if_false]
  exact h

theorem parses_literal_number {n : Numeral} {P : Literal → Prop}
    (hscan : Numeral.scan? Text.isDigit w.toList = some (n, [])) (hvalue : n.hasValue)
    (h : ∀ t, Parses (numberLiteral t n) rest rest P) :
    Parses (literal (fuel + 1)) (w :: rest) rest P := by
  rw [literal]
  refine (parses_peek_cons _ _).bind ?_
  rintro _ ⟨t, rfl, rfl⟩
  obtain ⟨hquoted, hnumeral⟩ := isQuoted_of_number hscan hvalue
  simp only [hquoted, hnumeral, Bool.false_eq_true, if_false]
  exact (parses_eat _ _).bind fun _ _ => h t

theorem parses_enclosed {α : Type} {close what : String} {item : Parser α}
    {words : α → List String} (make : List α → Literal) (limit : Nat) {items : List α}
    (hitem : ∀ a ∈ items, ∀ rest, (words a ++ rest).length ≤ limit →
      Parses item (words a ++ rest) rest (· = a))
    (hhead : ∀ a ∈ items, ∃ w ws, words a = w :: ws ∧ w ≠ close) (hclose : close ≠ ",")
    (hlimit : ([","].intercalate (items.map words) ++ close :: rest).length ≤ limit)
    (hfuel : ([","].intercalate (items.map words) ++ close :: rest).length ≤ fuel) :
    Parses (do
      if ← eat close then return make []
      return make (← separated close what item fuel))
      ([","].intercalate (items.map words) ++ close :: rest) rest (· = make items) := by
  cases items with
  | nil => exact .taken (.pure rfl)
  | cons a items =>
    refine .passed ?_ ?_
    · obtain ⟨w, ws, hw, hne⟩ := hhead a List.mem_cons_self
      rw [List.map_cons, hw, head?_intercalate]
      rintro _ ⟨⟩
      exact hne
    · refine (parses_separated id limit (List.cons_ne_nil _ _) ?_ hclose rest hlimit hfuel).bind ?_
      · exact fun a ha rest hrest _ => hitem a ha rest hrest
      intro as has
      rw [List.map_id, List.map_id] at has
      exact .pure (by rw [has])

theorem exists_fuel (h : Writable form l) (hfuel : (literalWords form l ++ rest).length ≤ fuel) :
    ∃ n, fuel = n + 1 := by
  obtain ⟨w, ws, hwords, -⟩ := literalWords_eq_cons h
  cases fuel with
  | zero =>
    rw [hwords] at hfuel
    cases hfuel
  | succ n => exact ⟨n, rfl⟩

theorem parses_literal_string (s : String) (rest : List String) :
    Parses (literal (fuel + 1)) (Text.quote s :: rest) rest (· = .string s) := by
  rw [literal]
  refine (parses_peek_cons _ _).bind ?_
  rintro _ ⟨t, rfl, ht⟩
  simp only [isQuoted_of_text ht, if_true]
  rw [ht]
  refine (parses_eat _ _).bind fun _ _ => ?_
  rw [unquoted_of_text ht]
  refine (Parses.pure (P := (· = s)) rfl).bind ?_
  rintro _ rfl
  exact .pure rfl

/-- An array is read back if its items are. -/
theorem parses_literal_array {items : List Literal} (h : ∀ l ∈ items, Writable form l)
    (hitem : ∀ l ∈ items, ∀ rest, (literalWords form l ++ rest).length ≤ fuel →
      Parses (literal fuel) (literalWords form l ++ rest) rest (· = l))
    (hfuel : (literalWords form (.array items) ++ rest).length ≤ fuel + 1) :
    Parses (literal (fuel + 1)) (literalWords form (.array items) ++ rest) rest
      (· = .array items) := by
  have hwords : literalWords form (.array items) ++ rest =
      "[" :: ([","].intercalate (items.map (literalWords form)) ++ "]" :: rest) := by
    simp [literalWords, enclosed, itemWords_eq_map]
  rw [hwords, List.length_cons] at hfuel
  rw [hwords]
  refine parses_literal_of_bare (by decide) ?_
  refine .passed_cons (by decide) (.passed_cons (by decide) ?_)
  refine .passed_cons (by decide) (.taken ?_)
  refine parses_enclosed .array fuel hitem ?_ (by decide) (by omega) (by omega)
  intro l hl
  obtain ⟨w, ws, hl, hstart⟩ := literalWords_eq_cons (h l hl)
  refine ⟨w, ws, hl, ?_⟩
  rintro rfl
  exact absurd (hstart ⟨"]", .start⟩ rfl) (by decide)

/-- An object is read back if the literals in it are. -/
theorem parses_literal_object {entries : List (String × Literal)}
    (hvalue : ∀ e ∈ entries, ∀ rest, (literalWords form e.2 ++ rest).length ≤ fuel →
      Parses (literal fuel) (literalWords form e.2 ++ rest) rest (· = e.2))
    (hfuel : (literalWords form (.object entries) ++ rest).length ≤ fuel + 1) :
    Parses (literal (fuel + 1)) (literalWords form (.object entries) ++ rest) rest
      (· = .object entries) := by
  have hwords : literalWords form (.object entries) ++ rest = "\x7b" ::
      ([","].intercalate (entries.map fun e =>
        Text.quote e.1 :: ":" :: literalWords form e.2) ++ "\x7d" :: rest) := by
    simp [literalWords, enclosed, entryWords_eq_map]
  rw [hwords, List.length_cons] at hfuel
  rw [hwords]
  refine parses_literal_of_bare (by decide) ?_
  refine .passed_cons (by decide) (.passed_cons (by decide) (.passed_cons (by decide) ?_))
  refine .passed_cons (by decide) (.taken ?_)
  refine parses_enclosed .object fuel ?_ ?_ (by decide) (by omega) (by omega)
  · intro e he rest hlength
    simp only [List.cons_append, List.length_cons] at hlength
    exact parses_entry (hvalue e he rest (by omega))
  · intro e _
    refine ⟨_, _, rfl, fun hquote => ?_⟩
    have hquoted := isQuoted_of_text (t := ⟨"\x7d", .start⟩) hquote.symm
    exact absurd hquoted (by decide)

theorem parses_literal_succ (h : Writable form l)
    (hfuel : (literalWords form l ++ rest).length ≤ fuel + 1) :
    Parses (literal (fuel + 1)) (literalWords form l ++ rest) rest (· = l) := by
  induction h generalizing rest fuel with
  | null =>
    refine parses_literal_of_bare (by decide) ?_
    exact .passed_cons (by decide) (.passed_cons (by decide) (.taken (.pure rfl)))
  | @integer i hle hge =>
    refine parses_literal_number (scan?_toString i) (hasValue_ofInt i) fun t => ?_
    rw [numberLiteral, if_pos (by rfl), Numeral.toInt_ofInt, if_pos ⟨hasValue_ofInt i, hle, hge⟩]
    exact .pure rfl
  | double h =>
    obtain ⟨n, hscan, hinteger, hvalue, rfl⟩ := h
    refine parses_literal_number hscan hvalue fun t => ?_
    rw [numberLiteral, hinteger, if_neg Bool.false_ne_true, if_pos hvalue]
    exact .pure rfl
  | string s => exact parses_literal_string s rest
  | boolean b =>
    cases b with
    | true => exact parses_literal_of_bare (by decide) (.taken (.pure rfl))
    | false =>
      exact parses_literal_of_bare (by decide) (.passed_cons (by decide) (.taken (.pure rfl)))
  | array h ih =>
    refine parses_literal_array h (fun l hl rest hlength => ?_) hfuel
    obtain ⟨fuel, rfl⟩ := exists_fuel (h l hl) hlength
    exact ih l hl hlength
  | object h ih =>
    refine parses_literal_object (fun e he rest hlength => ?_) hfuel
    obtain ⟨fuel, rfl⟩ := exists_fuel (h e he) hlength
    exact ih e he hlength

/-- A literal is read back. -/
theorem parses_literal (h : Writable form l) (hfuel : (literalWords form l ++ rest).length ≤ fuel) :
    Parses (literal fuel) (literalWords form l ++ rest) rest (· = l) := by
  obtain ⟨fuel, rfl⟩ := exists_fuel h hfuel
  exact parses_literal_succ h hfuel

end

end Parser

end Adl.Source
