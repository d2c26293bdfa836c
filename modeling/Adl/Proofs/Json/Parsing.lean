import Adl.Json.Decode
import Adl.Proofs.Number.Numeral
import Adl.Proofs.Text.Quoted

/-!
# Parsing — what is written as JSON is read back

The text of a value is read as a tree, which is `Json.node` of the value (`Json.parse?_compact`).
That the text of a number is read as this number is a property of the number (`Double.ReadsBack`),
and it is asked for the finite numbers that a value holds (`Json.Readable`).  The others are written
as `null`, and their tree is that of null.
-/

namespace Adl

/-- The JSON text of a number is read as this number. -/
def Double.ReadsBack (d : Double) : Prop :=
  (Json.Node.parse? (Json.doubleText d)).bind (Json.Node.toJson? 0) = some (.double d)

namespace Json

/-- Induction on a value, where a property may be assumed of all items and of the values of all
members. -/
@[elab_as_elim, induction_eliminator]
theorem ind {motive : Json → Prop} (null : motive null) (bool : ∀ b, motive (bool b))
    (integer : ∀ i, motive (integer i)) (double : ∀ d, motive (double d))
    (string : ∀ s, motive (string s))
    (array : ∀ items, (∀ item ∈ items, motive item) → motive (array items))
    (object : ∀ members, (∀ m ∈ members, motive m.2) → motive (object members)) (j : Json) :
    motive j :=
  @Json.rec motive (fun items => ∀ item ∈ items, motive item)
    (fun members => ∀ m ∈ members, motive m.2) (fun m => motive m.2) null bool integer double string
    array object (fun _ h => nomatch h)
    (fun _ _ h hs _ ht => (List.mem_cons.mp ht).elim (fun e => e ▸ h) (hs _))
    (fun _ h => nomatch h)
    (fun _ _ h hs _ ht => (List.mem_cons.mp ht).elim (fun e => e ▸ h) (hs _)) (fun _ _ h => h) j

/-! ### Trees -/

mutual

/-- The tree that the text of a value is read into. -/
def node : Json → Node
  | null => .null
  | bool b => .bool b
  | integer i => .number (Numeral.ofInt i)
  | double d => (Node.parse? (doubleText d)).getD .null
  | string s => .string (some s)
  | array items => .array (itemNodes items)
  | object members => .object (memberNodes members)

/-- The trees of the items of an array. -/
def itemNodes : List Json → List Node
  | [] => []
  | item :: items => node item :: itemNodes items

/-- The trees of the members of an object. -/
def memberNodes : List (String × Json) → List (Option String × Node)
  | [] => []
  | (key, value) :: members => (some key, node value) :: memberNodes members

end

mutual

/-- The floating point numbers in a value. -/
def doubles : Json → List Double
  | null => []
  | bool _ => []
  | integer _ => []
  | double d => [d]
  | string _ => []
  | array items => itemDoubles items
  | object members => memberDoubles members

/-- The floating point numbers in the items of an array. -/
def itemDoubles : List Json → List Double
  | [] => []
  | item :: items => doubles item ++ itemDoubles items

/-- The floating point numbers in the members of an object. -/
def memberDoubles : List (String × Json) → List Double
  | [] => []
  | (_, value) :: members => doubles value ++ memberDoubles members

end

namespace Node

open Numeral (Closed)

/-! ### Strings -/

/-- Each form in which a character may be written is part of a quoted text. -/
theorem scanQuoted_piece {form : List Char} {c : Char} (h : Text.Piece form c) (cs : List Char) :
    scanQuoted (form ++ cs) = (scanQuoted cs).map fun x => (form ++ x.1, x.2) := by
  cases h with
  | plain hcontrol hquote hback =>
    simp only [List.cons_append, List.nil_append]
    rw [scanQuoted, if_neg (by simp [hcontrol, hback])] <;> simp_all
  | short h =>
    simp only [List.cons_append, List.nil_append]
    rw [scanQuoted, h]
    exact fun _ _ _ _ _ hu => absurd hu (Text.ne_u_of_shortEscape? h)
  | unit hu =>
    simp only [List.cons_append, List.nil_append]
    rw [scanQuoted, hu]
  | pair hu _ _ hv =>
    simp only [List.cons_append, List.nil_append]
    rw [scanQuoted, hu, scanQuoted, hv]
    simp only [Option.map_map]
    rfl

/-- A text that denotes characters is cut off together with the quote behind it. -/
theorem scanQuoted_denoted {body cs : List Char} (h : Text.Denotation body cs)
    (rest : List Char) : scanQuoted (body ++ '"' :: rest) = some (body ++ ['"'], rest) := by
  induction h with
  | nil => rfl
  | cons hform _ ih => rw [List.append_assoc, scanQuoted_piece hform, ih, Option.map_some,
      List.append_assoc]

/-- A string is read behind the opening quote of its text. -/
theorem parseString_flatMap (s : String) (rest : List Char) :
    parseString (s.toList.flatMap Text.escapeChar ++ '"' :: rest) = some (some s, rest) := by
  rw [parseString, scanQuoted_denoted (Text.denotation_flatMap s.toList), Option.map_some]
  dsimp only
  rw [Text.unquoteRest_flatMap]
  dsimp only
  rw [String.ofList_toList]

/-! ### Numbers -/

theorem head_of_scan? {cs rest : List Char} {n : Numeral}
    (h : Numeral.scan? Text.isAsciiDigit cs = some (n, rest)) :
    ∃ c cs', cs = c :: cs' ∧ (c = '-' ∨ Text.isAsciiDigit c) := by
  rw [Numeral.scan?] at h
  dsimp only at h
  split at h
  · cases h
  next hdigits =>
  cases cs with
  | nil => exact absurd rfl hdigits
  | cons c cs =>
    refine ⟨c, cs, rfl, ?_⟩
    by_contra hc
    rw [not_or] at hc
    have hsign : Numeral.scanSign (c :: cs) = (false, c :: cs) := by
      rw [Numeral.scanSign]
      exact fun _ h => hc.1 (List.cons.inj h).1
    rw [hsign, List.takeWhile_cons_of_neg hc.2] at hdigits
    exact hdigits rfl

theorem parseValue_of_scan? {cs rest : List Char} {n : Numeral} (fuel : Nat)
    (h : Numeral.scan? Text.isAsciiDigit cs = some (n, rest)) :
    parseValue (fuel + 1) cs = parseNumber cs := by
  obtain ⟨c, cs', rfl, hc⟩ := head_of_scan? h
  have hne : c ∉ ['n', 't', 'f', '"', '[', '\x7b'] := by
    rintro hmem
    simp only [List.mem_cons, List.not_mem_nil, or_false] at hmem
    rcases hmem with rfl | rfl | rfl | rfl | rfl | rfl <;> revert hc <;> decide
  simp only [List.mem_cons, not_or] at hne
  rw [parseValue] <;> simp [hne]

/-- A value that starts like a number is read as a number. -/
theorem parseNumber_eq_some_iff {cs rest : List Char} {node : Node} :
    parseNumber cs = some (node, rest) ↔
      ∃ n, Numeral.scan? Text.isAsciiDigit cs = some (n, rest) ∧
        (n.whole.head? = some '0' → n.whole.length = 1) ∧ node = .number n := by
  rw [parseNumber]
  cases hscan : Numeral.scan? Text.isAsciiDigit cs with
  | none => simp
  | some p =>
    obtain ⟨n, r⟩ := p
    dsimp only
    by_cases hzero : n.whole.head? = some '0' ∧ n.whole.length ≠ 1
    · rw [if_pos hzero]
      refine iff_of_false (fun h => nomatch h) ?_
      rintro ⟨_, h, hw, -⟩
      cases h
      exact hzero.2 (hw hzero.1)
    · rw [if_neg hzero]
      rw [not_and, not_not] at hzero
      constructor
      · rintro ⟨⟩
        exact ⟨n, rfl, hzero, rfl⟩
      · rintro ⟨_, h, -, rfl⟩
        cases h
        rfl

theorem parseNumber_closed {cs rest : List Char} {node : Node} (h : Closed Text.isAsciiDigit rest)
    (hparse : parseNumber cs = some (node, [])) : parseNumber (cs ++ rest) = some (node, rest) := by
  obtain ⟨n, hscan, hzero, rfl⟩ := parseNumber_eq_some_iff.mp hparse
  exact parseNumber_eq_some_iff.mpr ⟨n, Numeral.scan?_closed h hscan, hzero, rfl⟩

theorem parseNumber_ofInt (i : Int) {rest : List Char} (h : Closed Text.isAsciiDigit rest) :
    parseNumber ((toString i).toList ++ rest) = some (.number (Numeral.ofInt i), rest) :=
  parseNumber_eq_some_iff.mpr
    ⟨_, Numeral.scan?_ofInt i h, Numeral.length_whole_ofInt, rfl⟩

/-- Only a number is read as a number. -/
theorem parseNumber_of_parseValue {fuel : Nat} {cs rest : List Char} {n : Numeral}
    (h : parseValue fuel cs = some (.number n, rest)) :
    parseNumber cs = some (.number n, rest) := by
  revert h
  fun_cases parseValue fuel cs with
  | case10 => exact id
  | _ => simp

theorem skipBlanks_eq_self {cs : List Char} (h : ∀ c ∈ cs.head?, isBlank c = false) :
    skipBlanks cs = cs := by
  cases cs with
  | nil => rfl
  | cons c cs => rw [skipBlanks, List.dropWhile_cons_of_neg (by simp [h c rfl])]

theorem not_isBlank_of_isNumberChar {c : Char} (h : Layout.IsNumberChar c) : isBlank c = false := by
  cases hc : isBlank c with
  | false => rfl
  | true =>
    simp only [isBlank, Bool.or_eq_true, beq_iff_eq] at hc
    rcases hc with ((rfl | rfl) | rfl) | rfl <;> revert h <;> unfold Layout.IsNumberChar <;> decide

theorem not_isBlank_of_mem_doubleText {d : Double} {c : Char} (h : c ∈ (doubleText d).toList) :
    isBlank c = false := by
  unfold doubleText at h
  split at h
  · next hd => exact not_isBlank_of_isNumberChar (Layout.isNumberChar_of_mem_text hd h)
  · have hnull : "null".toList.all (fun c => !isBlank c) = true := by decide
    simpa using List.all_eq_true.mp hnull c h

/-- The text of a number that reads back is a number and nothing else. -/
theorem number_of_readsBack {d : Double} (h : d.ReadsBack) :
    ∃ n, parseNumber (doubleText d).toList = some (.number n, []) ∧
      toNumber? n = some (.double d) ∧ (Json.double d).node = .number n := by
  obtain ⟨node, hnode, hd⟩ := Option.bind_eq_some_iff.mp h
  obtain ⟨n, rfl, hn⟩ : ∃ n, node = .number n ∧ toNumber? n = some (.double d) := by
    cases node with
    | number n => exact ⟨n, rfl, hd⟩
    | _ => simp [toJson?] at hd
  refine ⟨n, ?_, hn, by rw [Json.node, hnode, Option.getD_some]⟩
  have hblank {cs : List Char} (hcs : cs <:+ (doubleText d).toList) : skipBlanks cs = cs :=
    skipBlanks_eq_self fun c hc =>
      not_isBlank_of_mem_doubleText (hcs.subset (List.mem_of_mem_head? hc))
  rw [parse?, hblank (List.suffix_refl _)] at hnode
  obtain ⟨⟨node, rest⟩, hvalue, hrest⟩ := Option.bind_eq_some_iff.mp hnode
  dsimp only at hrest
  split at hrest
  · next hempty =>
    cases hrest
    have hnumber := parseNumber_of_parseValue hvalue
    obtain ⟨_, hscan, -⟩ := parseNumber_eq_some_iff.mp hnumber
    rw [hblank ⟨_, Numeral.scan?_append hscan⟩, List.isEmpty_iff] at hempty
    rw [hnumber, hempty]
  · cases hrest

/-! ### Values -/

/-- What stands behind a value in a text: nothing, or a mark of the container that it is in. -/
def Delimited (rest : List Char) : Prop := ∀ c ∈ rest.head?, c = ',' ∨ c = ']' ∨ c = '\x7d'

section

variable {rest : List Char}

theorem Delimited.closed (h : Delimited rest) : Closed Text.isAsciiDigit rest := by
  intro c hc
  rcases h c hc with rfl | rfl | rfl <;> decide

theorem Delimited.cons {c : Char} (h : c = ',' ∨ c = ']' ∨ c = '\x7d') : Delimited (c :: rest) := by
  intro d hd
  cases hd
  exact h

/-! ### Steps of the reader -/

section

variable {fuel : Nat} {cs cs' cs'' : List Char} {item : Node} {items : List Node}
  {key : Option String} {members : List (Option String × Node)}

theorem parseValue_string (h : parseString cs = some (key, rest)) :
    parseValue (fuel + 1) ('"' :: cs) = some (string key, rest) := by
  rw [parseValue, h]
  · rfl
  · exact Nat.succ_ne_zero fuel

/-- An array that is not closed at once has items. -/
theorem parseValue_items {c : Char} (hcs : skipBlanks cs = c :: cs') (hc : c ≠ ']')
    (h : parseItems fuel (c :: cs') = some (items, rest)) :
    parseValue (fuel + 1) ('[' :: cs) = some (array items, rest) := by
  rw [parseValue, hcs]
  split
  · next hclose => exact absurd (List.cons.inj hclose).1 hc
  · rw [h]
    rfl

/-- An object that is not closed at once has members. -/
theorem parseValue_members {c : Char} (hcs : skipBlanks cs = c :: cs') (hc : c ≠ '\x7d')
    (h : parseMembers fuel (c :: cs') = some (members, rest)) :
    parseValue (fuel + 1) ('\x7b' :: cs) = some (object members, rest) := by
  rw [parseValue, hcs]
  split
  · next hclose => exact absurd (List.cons.inj hclose).1 hc
  · rw [h]
    rfl

theorem parseItems_last (h : parseValue fuel cs = some (item, ']' :: rest)) :
    parseItems (fuel + 1) cs = some ([item], rest) := by
  rw [parseItems, h]
  rfl

theorem parseItems_cons (h : parseValue fuel cs = some (item, ',' :: cs'))
    (hitems : parseItems fuel (skipBlanks cs') = some (items, rest)) :
    parseItems (fuel + 1) cs = some (item :: items, rest) := by
  have hcomma : skipBlanks (',' :: cs') = ',' :: cs' := rfl
  simp only [parseItems, Option.bind_eq_bind, h, Option.bind_some, hcomma, hitems]
  rfl

theorem parseMembers_last (hkey : parseString cs = some (key, ':' :: cs'))
    (h : parseValue fuel (skipBlanks cs') = some (item, '\x7d' :: rest)) :
    parseMembers (fuel + 1) ('"' :: cs) = some ([(key, item)], rest) := by
  have hcolon : skipBlanks (':' :: cs') = ':' :: cs' := rfl
  have hclose : skipBlanks ('\x7d' :: rest) = '\x7d' :: rest := rfl
  simp only [parseMembers, Option.bind_eq_bind, hkey, Option.bind_some, hcolon, h, hclose]
  rfl

theorem parseMembers_cons (hkey : parseString cs = some (key, ':' :: cs'))
    (h : parseValue fuel (skipBlanks cs') = some (item, ',' :: cs''))
    (hmembers : parseMembers fuel (skipBlanks cs'') = some (members, rest)) :
    parseMembers (fuel + 1) ('"' :: cs) = some ((key, item) :: members, rest) := by
  have hcolon : skipBlanks (':' :: cs') = ':' :: cs' := rfl
  have hcomma : skipBlanks (',' :: cs'') = ',' :: cs'' := rfl
  simp only [parseMembers, Option.bind_eq_bind, hkey, Option.bind_some, hcolon, h, hcomma, hmembers]
  rfl

end

end

end Node

/-- The finite numbers in a value read back. -/
def Readable (j : Json) : Prop := ∀ d ∈ j.doubles, d.isFinite → d.ReadsBack

theorem itemDoubles_eq (items : List Json) : itemDoubles items = items.flatMap doubles := by
  induction items with
  | nil => rfl
  | cons item items ih => rw [itemDoubles, ih, List.flatMap_cons]

theorem memberDoubles_eq (members : List (String × Json)) :
    memberDoubles members = members.flatMap fun m => doubles m.2 := by
  induction members with
  | nil => rfl
  | cons m members ih => rw [memberDoubles, ih, List.flatMap_cons]

theorem readable_array_iff {items : List Json} :
    (array items).Readable ↔ ∀ item ∈ items, item.Readable := by
  rw [Readable, doubles, itemDoubles_eq]
  simp only [List.mem_flatMap]
  constructor
  · exact fun h item hitem d hd => h d ⟨item, hitem, hd⟩
  · rintro h d ⟨item, hitem, hd⟩
    exact h item hitem d hd

theorem readable_object_iff {members : List (String × Json)} :
    (object members).Readable ↔ ∀ m ∈ members, m.2.Readable := by
  rw [Readable, doubles, memberDoubles_eq]
  simp only [List.mem_flatMap]
  constructor
  · exact fun h m hm d hd => h d ⟨m, hm, hd⟩
  · rintro h d ⟨m, hm, hd⟩
    exact h m hm d hd

open Node

/-- The text of a value starts with a character that no blank and no closing mark is. -/
theorem head_compact {j : Json} (h : j.Readable) :
    ∃ c cs, j.compact.toList = c :: cs ∧ isBlank c = false ∧ c ≠ ']' := by
  have hnumber {cs rest : List Char} {n : Numeral}
      (hscan : Numeral.scan? Text.isAsciiDigit cs = some (n, rest)) :
      ∃ c cs', cs = c :: cs' ∧ isBlank c = false ∧ c ≠ ']' := by
    obtain ⟨c, cs', rfl, hc⟩ := head_of_scan? hscan
    refine ⟨c, cs', rfl, ?_, ?_⟩
    · rcases hc with rfl | hc
      · rfl
      · exact not_isBlank_of_isNumberChar (.inl hc)
    · rintro rfl
      revert hc
      decide
  cases j with
  | null => exact ⟨'n', _, rfl, rfl, by decide⟩
  | bool b => cases b <;> exact ⟨_, _, rfl, rfl, by decide⟩
  | integer i =>
    have hscan : Numeral.scan? Text.isAsciiDigit ((toString i).toList ++ []) = some (_, []) :=
      Numeral.scan?_ofInt i fun _ h => nomatch h
    rw [List.append_nil] at hscan
    exact hnumber hscan
  | double d =>
    rw [compact]
    by_cases hd : d.isFinite
    · obtain ⟨n, hn, -⟩ := number_of_readsBack (h d (List.mem_singleton_self d) hd)
      obtain ⟨_, hscan, -⟩ := parseNumber_eq_some_iff.mp hn
      exact hnumber hscan
    · rw [doubleText, if_neg hd]
      exact ⟨'n', _, rfl, rfl, by decide⟩
  | string s => exact ⟨'"', _, String.toList_ofList, rfl, by decide⟩
  | array items =>
    refine ⟨'[', (compactItems items).toList ++ [']'], ?_, rfl, by decide⟩
    rw [compact, String.toList_append, String.toList_append]
    rfl
  | object members =>
    refine ⟨'\x7b', (compactMembers members).toList ++ ['\x7d'], ?_, rfl, by decide⟩
    rw [compact, String.toList_append, String.toList_append]
    rfl

theorem skipBlanks_compact {j : Json} (h : j.Readable) (cs : List Char) :
    skipBlanks (j.compact.toList ++ cs) = j.compact.toList ++ cs := by
  obtain ⟨c, cs', hhead, hblank, -⟩ := head_compact h
  rw [hhead]
  refine skipBlanks_eq_self fun d hd => ?_
  cases hd
  exact hblank

/-! ### Texts of containers -/

theorem toList_quote (s : String) :
    (Text.quote s).toList = '"' :: (s.toList.flatMap Text.escapeChar ++ ['"']) :=
  String.toList_ofList

theorem toList_compact_array (items : List Json) :
    (array items).compact.toList = '[' :: ((compactItems items).toList ++ [']']) := by
  rw [compact, String.toList_append, String.toList_append]
  rfl

theorem toList_compact_object (members : List (String × Json)) :
    (object members).compact.toList = '\x7b' :: ((compactMembers members).toList ++ ['\x7d']) := by
  rw [compact, String.toList_append, String.toList_append]
  rfl

/-- The first item of an array stands at the start of the text of all items. -/
theorem toList_compactItems (item : Json) (items : List Json) :
    (compactItems (item :: items)).toList = item.compact.toList ++
      (if items = [] then [] else ',' :: (compactItems items).toList) := by
  cases items with
  | nil => rw [if_pos rfl, List.append_nil, compactItems]
  | cons item' items =>
    rw [compactItems, if_neg (List.cons_ne_nil _ _), String.toList_append, String.toList_append,
      List.append_assoc]
    · rfl
    · exact List.cons_ne_nil _ _

theorem skipBlanks_compactItems {item : Json} (h : item.Readable) (items : List Json)
    (cs : List Char) : skipBlanks ((compactItems (item :: items)).toList ++ cs) =
      (compactItems (item :: items)).toList ++ cs := by
  rw [toList_compactItems, List.append_assoc, skipBlanks_compact h]

/-- The first member of an object stands at the start of the text of all members. -/
theorem toList_compactMembers (key : String) (value : Json) (members : List (String × Json)) :
    (compactMembers ((key, value) :: members)).toList =
      '"' :: (key.toList.flatMap Text.escapeChar ++ '"' :: ':' :: (value.compact.toList ++
        (if members = [] then [] else ',' :: (compactMembers members).toList))) := by
  cases members with
  | nil => simp [compactMembers, String.toList_append, toList_quote]
  | cons m members => simp [compactMembers, String.toList_append, toList_quote]

theorem skipBlanks_compactMembers (m : String × Json) (members : List (String × Json))
    (cs : List Char) : skipBlanks ((compactMembers (m :: members)).toList ++ cs) =
      (compactMembers (m :: members)).toList ++ cs := by
  obtain ⟨key, value⟩ := m
  rw [toList_compactMembers]
  rfl

/-! ### Values -/

/-- A value is read from its text, whatever stands behind it, if there is fuel for its length. -/
def ParsesBack (j : Json) : Prop :=
  ∀ fuel rest, Delimited rest → j.compact.toList.length ≤ fuel →
    parseValue (fuel + 1) (j.compact.toList ++ rest) = some (j.node, rest)

theorem parseItems_compact {items : List Json} (h : ∀ item ∈ items, item.ParsesBack)
    (hread : ∀ item ∈ items, item.Readable) (hne : items ≠ []) {fuel : Nat} (rest : List Char)
    (hfuel : (compactItems items).toList.length < fuel) :
    parseItems (fuel + 1) ((compactItems items).toList ++ ']' :: rest) =
      some (itemNodes items, rest) := by
  induction items generalizing fuel with
  | nil => exact absurd rfl hne
  | cons item items ih =>
    obtain ⟨fuel, rfl⟩ : ∃ k, fuel = k + 1 := Nat.exists_eq_add_of_le' (Nat.zero_lt_of_lt hfuel)
    have hitem := h item List.mem_cons_self fuel
    rw [toList_compactItems, List.length_append] at hfuel
    rw [toList_compactItems, List.append_assoc]
    cases items with
    | nil => exact parseItems_last (hitem _ (.cons (by simp)) (by omega))
    | cons item' items =>
      rw [if_neg (List.cons_ne_nil _ _), List.length_cons] at hfuel
      rw [if_neg (List.cons_ne_nil _ _), List.cons_append]
      refine parseItems_cons (hitem _ (.cons (by simp)) (by omega)) ?_
      rw [skipBlanks_compactItems (hread item' (by simp))]
      obtain ⟨fuel, rfl⟩ : ∃ k, fuel = k + 1 := Nat.exists_eq_add_of_le' (by omega)
      obtain ⟨c, cs, hhead, -⟩ := head_compact (hread item List.mem_cons_self)
      rw [hhead, List.length_cons] at hfuel
      exact ih (fun i hi => h i (List.mem_cons_of_mem _ hi))
        (fun i hi => hread i (List.mem_cons_of_mem _ hi)) (List.cons_ne_nil _ _) (by omega)

theorem parseMembers_compact {members : List (String × Json)} (h : ∀ m ∈ members, m.2.ParsesBack)
    (hread : ∀ m ∈ members, m.2.Readable) (hne : members ≠ []) {fuel : Nat} (rest : List Char)
    (hfuel : (compactMembers members).toList.length < fuel) :
    parseMembers (fuel + 1) ((compactMembers members).toList ++ '\x7d' :: rest) =
      some (memberNodes members, rest) := by
  induction members generalizing fuel with
  | nil => exact absurd rfl hne
  | cons m members ih =>
    obtain ⟨key, value⟩ := m
    obtain ⟨fuel, rfl⟩ : ∃ k, fuel = k + 1 := Nat.exists_eq_add_of_le' (Nat.zero_lt_of_lt hfuel)
    have hvalue : value.compact.toList.length ≤ fuel → ∀ rest, Delimited rest →
        parseValue (fuel + 1) (value.compact.toList ++ rest) = some (value.node, rest) :=
      fun hlen rest hrest => h _ List.mem_cons_self fuel rest hrest hlen
    have hblanks := skipBlanks_compact (hread _ List.mem_cons_self)
    rw [toList_compactMembers] at hfuel
    simp only [List.length_cons, List.length_append] at hfuel
    rw [toList_compactMembers]
    simp only [List.cons_append, List.append_assoc]
    cases members with
    | nil =>
      refine parseMembers_last (parseString_flatMap _ _) ?_
      rw [hblanks]
      exact hvalue (by omega) _ (.cons (by simp))
    | cons m' members =>
      rw [if_neg (List.cons_ne_nil _ _), List.length_cons] at hfuel
      rw [if_neg (List.cons_ne_nil _ _), List.cons_append]
      have hfirst := hvalue (by omega)
        (',' :: ((compactMembers (m' :: members)).toList ++ '\x7d' :: rest)) (.cons (by simp))
      rw [← hblanks] at hfirst
      refine parseMembers_cons (parseString_flatMap _ _) hfirst ?_
      rw [skipBlanks_compactMembers]
      obtain ⟨fuel, rfl⟩ : ∃ k, fuel = k + 1 := Nat.exists_eq_add_of_le' (by omega)
      exact ih (fun i hi => h i (List.mem_cons_of_mem _ hi))
        (fun i hi => hread i (List.mem_cons_of_mem _ hi)) (List.cons_ne_nil _ _) (by omega)

/-- The text of a value is read as its tree. -/
theorem parsesBack (j : Json) (hj : j.Readable) : j.ParsesBack := by
  induction j with
  | null => exact fun _ _ _ _ => rfl
  | bool b => cases b <;> exact fun _ _ _ _ => rfl
  | integer i =>
    intro fuel rest hrest _
    exact (parseValue_of_scan? fuel (Numeral.scan?_ofInt i hrest.closed)).trans
      (parseNumber_ofInt i hrest.closed)
  | double d =>
    intro fuel rest hrest _
    rw [compact]
    by_cases hd : d.isFinite
    · obtain ⟨n, hn, -, hnode⟩ := number_of_readsBack (hj d (List.mem_singleton_self d) hd)
      have hnumber := parseNumber_closed hrest.closed hn
      obtain ⟨_, hscan, -⟩ := parseNumber_eq_some_iff.mp hnumber
      rw [parseValue_of_scan? fuel hscan, hnumber, hnode]
    · rw [node, doubleText, if_neg hd]
      rfl
  | string s =>
    intro fuel rest _ _
    rw [compact, toList_quote, List.cons_append, List.append_assoc, List.singleton_append]
    exact parseValue_string (parseString_flatMap s rest)
  | array items ih =>
    intro fuel rest _ hfuel
    have hread := readable_array_iff.mp hj
    rw [toList_compact_array] at hfuel ⊢
    cases items with
    | nil => rfl
    | cons item items =>
      rw [List.length_cons, List.length_append, List.length_singleton] at hfuel
      obtain ⟨fuel, rfl⟩ : ∃ k, fuel = k + 1 := Nat.exists_eq_add_of_le' (by omega)
      have hitems : parseItems (fuel + 1) ((compactItems (item :: items)).toList ++ ']' :: rest) =
          some (itemNodes (item :: items), rest) :=
        parseItems_compact (fun i hi => ih i hi (hread i hi)) hread (List.cons_ne_nil _ _) rest
          (by omega)
      have hblanks := skipBlanks_compactItems (hread item List.mem_cons_self) items (']' :: rest)
      obtain ⟨c, cs, hhead, -, hc⟩ := head_compact (hread item List.mem_cons_self)
      rw [List.cons_append, List.append_assoc, List.singleton_append]
      rw [toList_compactItems, hhead] at hblanks hitems ⊢
      exact parseValue_items hblanks hc hitems
  | object members ih =>
    intro fuel rest _ hfuel
    have hread := readable_object_iff.mp hj
    rw [toList_compact_object] at hfuel ⊢
    cases members with
    | nil => rfl
    | cons m members =>
      rw [List.length_cons, List.length_append, List.length_singleton] at hfuel
      obtain ⟨fuel, rfl⟩ : ∃ k, fuel = k + 1 := Nat.exists_eq_add_of_le' (by omega)
      have hmembers :
          parseMembers (fuel + 1) ((compactMembers (m :: members)).toList ++ '\x7d' :: rest) =
            some (memberNodes (m :: members), rest) :=
        parseMembers_compact (fun i hi => ih i hi (hread i hi)) hread (List.cons_ne_nil _ _) rest
          (by omega)
      have hblanks := skipBlanks_compactMembers m members ('\x7d' :: rest)
      rw [List.cons_append, List.append_assoc, List.singleton_append]
      rw [toList_compactMembers] at hblanks hmembers ⊢
      exact parseValue_members hblanks (by decide) hmembers

theorem parse?_compact {j : Json} (h : j.Readable) : parse? j.compact = some j.node := by
  have hblanks := skipBlanks_compact h []
  have hparse := parsesBack j h j.compact.toList.length [] (fun _ h => nomatch h) le_rfl
  rw [List.append_nil] at hblanks hparse
  rw [parse?, hblanks, hparse]
  rfl

end Json

end Adl
