import Adl.Proofs.Text.NameStyle

/-!
# SnakeCase — underscores between the words of a name

In snake case a name consists of its own characters, in lower case, and of underscores that are
inserted.  `Mark`s tell the two apart, and there is one way only to do so
(`Explains.eq_of_spaced`), because an underscore is inserted between two other characters and never
beside an underscore.  One is inserted exactly where a word starts, and a name in snake case has no
such place (`snakeCase_laws`).
-/

namespace Adl.Text

variable {c p : Char} {cs : List Char} {prev : Option Char} {name out : String}

/-! ### Characters and inserted underscores -/

/-- A character of a converted name: one of the name itself, or an underscore that is inserted. -/
inductive Mark where
  | kept (c : Char)
  | inserted

namespace Mark

/-- What is written. -/
def char : Mark → Char
  | kept c => c
  | inserted => '_'

/-- The character of the name, if there is one. -/
def kept? : Mark → Option Char
  | kept c => some c
  | inserted => none

@[simp] theorem char_kept : (kept c).char = c := rfl

@[simp] theorem kept?_kept : (kept c).kept? = some c := rfl

@[simp] theorem kept?_inserted : inserted.kept? = none := rfl

end Mark

variable {ms ns left right : List Mark}

/-- The marks tell which underscores are inserted in `out`: without them it is the name in lower
case. -/
structure Explains (name out : String) (ms : List Mark) : Prop where
  kept_eq : ms.filterMap Mark.kept? = name.toList.map Char.toLower
  out_eq : ms.map Mark.char = out.toList

/-- Each inserted underscore, the first of which may follow `prev`, stands between two characters of
the name that are no underscores. -/
inductive Spaced : Option Char → List Mark → Prop
  | nil (prev : Option Char) : Spaced prev []
  | kept {prev : Option Char} {c : Char} {ms : List Mark} (h : Spaced (some c) ms) :
      Spaced prev (.kept c :: ms)
  | inserted {p c : Char} {ms : List Mark} (hp : p ≠ '_') (hc : c ≠ '_') (h : Spaced (some c) ms) :
      Spaced (some p) (.inserted :: .kept c :: ms)

/-- Inserted underscores do not count where underscores are removed. -/
theorem filter_map_char (ms : List Mark) :
    (ms.map Mark.char).filter (· ≠ '_') = (ms.filterMap Mark.kept?).filter (· ≠ '_') := by
  induction ms with
  | nil => rfl
  | cons m ms ih =>
    cases m with
    | kept c =>
      rw [List.map_cons, List.filterMap_cons_some Mark.kept?_kept, List.filter_cons,
        List.filter_cons, ih, Mark.char_kept]
    | inserted =>
      rw [List.map_cons, List.filterMap_cons_none Mark.kept?_inserted, ← ih]
      rfl

theorem Spaced.neighbours (h : Spaced prev ms) (heq : ms = left ++ .inserted :: right) :
    (∃ p, p ≠ '_' ∧ (prev.toList.map Mark.kept ++ left).getLast? = some (.kept p)) ∧
      ∃ c, c ≠ '_' ∧ right.head? = some (.kept c) := by
  induction h generalizing left with
  | nil prev => simp at heq
  | @kept prev c ms h ih =>
    cases left with
    | nil => cases heq
    | cons m left =>
      obtain ⟨rfl, htail⟩ := List.cons.inj heq
      simpa using ih htail
  | @inserted p c ms hp hc h ih =>
    match left with
    | [] =>
      cases heq
      exact ⟨⟨p, hp, rfl⟩, c, hc, rfl⟩
    | [m] => simp at heq
    | m :: m' :: left =>
      obtain ⟨-, hkept⟩ := List.cons.inj heq
      obtain ⟨rfl, htail⟩ := List.cons.inj hkept
      simpa using ih htail

/-! ### There is one explanation -/

theorem Mark.eq_of_char_eq {m : Mark} (h : m.char = c) :
    m = .kept c ∨ m = .inserted ∧ c = '_' := by
  cases m with
  | kept d => exact .inl (congrArg kept h)
  | inserted => exact .inr ⟨rfl, h.symm⟩

/-- Spaced marks are the only ones of their text and their name.  In the induction on them, `ns` has
inserted `k` underscores that `ms` has kept, all of them just before, and has as many more to keep.
Behind an underscore `ms` inserts none, so there are not more to keep unless `k` is zero. -/
theorem Spaced.eq_of_map_char_eq (h : Spaced prev ms) {k : ℕ} (hprev : k ≠ 0 → prev = some '_')
    (hchar : ns.map Mark.char = ms.map Mark.char)
    (hkept : ns.filterMap Mark.kept? = List.replicate k '_' ++ ms.filterMap Mark.kept?) :
    k = 0 ∧ ns = ms := by
  have hreplicate (k : ℕ) (cs : List Char) :
      List.replicate k '_' ++ '_' :: cs = List.replicate (k + 1) '_' ++ cs := by
    rw [List.replicate_succ', List.append_assoc, List.singleton_append]
  induction h generalizing k ns with
  | nil =>
    obtain rfl := List.map_eq_nil_iff.mp hchar
    simpa using hkept
  | @kept _ c ms h ih =>
    obtain ⟨n, ns, rfl, hn, hchars⟩ := List.map_eq_cons_iff.mp hchar
    rw [List.filterMap_cons_some Mark.kept?_kept] at hkept
    rcases Mark.eq_of_char_eq hn with rfl | ⟨rfl, hc⟩
    · rw [List.filterMap_cons_some Mark.kept?_kept, Mark.char_kept] at hkept
      cases k with
      | zero =>
        obtain ⟨-, rfl⟩ := ih (k := 0) (absurd rfl) hchars (List.cons.inj hkept).2
        exact ⟨rfl, rfl⟩
      | succ k =>
        obtain ⟨rfl, hkepts⟩ := List.cons.inj hkept
        have hcontra := ih (fun _ => rfl) hchars (hkepts.trans (hreplicate k _))
        exact absurd hcontra.1 (Nat.succ_ne_zero k)
    · obtain rfl : c = '_' := hc
      rw [List.filterMap_cons_none Mark.kept?_inserted, hreplicate] at hkept
      exact absurd (ih (fun _ => rfl) hchars hkept).1 (Nat.succ_ne_zero k)
  | @inserted p c ms hp hc h ih =>
    obtain rfl : k = 0 := by
      by_contra hk
      exact hp (Option.some.inj (hprev hk))
    obtain ⟨n, ns, rfl, hn, hchars⟩ := List.map_eq_cons_iff.mp hchar
    obtain ⟨n', ns, rfl, hn', hrest⟩ := List.map_eq_cons_iff.mp hchars
    obtain rfl := (Mark.eq_of_char_eq hn').resolve_right fun h => hc h.2
    rcases Mark.eq_of_char_eq hn with rfl | ⟨rfl, -⟩
    · exact absurd (List.cons.inj hkept).1.symm hc
    · obtain ⟨-, rfl⟩ := ih (k := 0) (absurd rfl) hrest (List.cons.inj hkept).2
      exact ⟨rfl, rfl⟩

theorem Explains.eq_of_spaced (h : Explains name out ms) (h' : Explains name out ns)
    (hs : Spaced none ms) : ns = ms :=
  (hs.eq_of_map_char_eq (k := 0) (absurd rfl) (h'.out_eq.trans h.out_eq.symm)
    (h'.kept_eq.trans h.kept_eq.symm)).2

/-! ### The marks of a name in snake case -/

/-- A word starts with the letter `c` between the characters `p` and `next`: behind a character in
lower case or a digit, or in front of a letter in lower case. -/
def startsWordAt (p c : Char) (next : Option Char) : Bool :=
  c.isUpper && p != '_' && (!p.isUpper || next.any Char.isLower)

/-- The characters behind `prev` in lower case, with an underscore in front of each word. -/
def snakeMarks : Option Char → List Char → List Mark
  | _, [] => []
  | prev, c :: cs =>
    (if prev.any (startsWordAt · c cs.head?) then [.inserted] else []) ++
      .kept c.toLower :: snakeMarks (some c) cs

/-- What the table says of the characters of names. -/
theorem isLower_eq_of_isNameChar (hc : isNameChar c) : isLower c = c.isLower := by
  have hruns : ∀ r ∈ lowerRuns.tail, 128 ≤ r.1 := by decide +kernel
  have hisLower : isLower c = inRuns [(0x61, 0x7a, 1)] c :=
    inRuns_cons hruns (toNat_lt_of_isNameChar hc)
  rw [hisLower]
  exact of_isNameChar (P := fun c => inRuns [(0x61, 0x7a, 1)] c = c.isLower) (by decide +kernel) hc

theorem startsWord_eq (hp : isNameChar p) (hc : c.isUpper) (hcs : ∀ c ∈ cs, isNameChar c) :
    startsWord p cs = startsWordAt p c cs.head? := by
  have hnext : cs.head?.any isLower = cs.head?.any Char.isLower := by
    cases cs with
    | nil => rfl
    | cons c cs => exact isLower_eq_of_isNameChar (hcs c List.mem_cons_self)
  rw [startsWord, startsWordAt, hc, (case_of_isNameChar hp).1, hnext, Bool.true_and]

theorem filterMap_kept?_snakeMarks (prev : Option Char) (cs : List Char) :
    (snakeMarks prev cs).filterMap Mark.kept? = cs.map Char.toLower := by
  induction cs generalizing prev with
  | nil => rfl
  | cons c cs ih =>
    rw [snakeMarks, List.filterMap_append, List.filterMap_cons_some Mark.kept?_kept, ih]
    split <;> rfl

theorem map_char_snakeMarks (prev : Option Char) (hprev : ∀ p ∈ prev, isNameChar p)
    (hcs : ∀ c ∈ cs, isNameChar c) : (snakeMarks prev cs).map Mark.char = snakeChars prev cs := by
  induction cs generalizing prev with
  | nil => rfl
  | cons c cs ih =>
    obtain ⟨hc, hrest⟩ := List.forall_mem_cons.mp hcs
    obtain ⟨hupper, -, htoLower⟩ := case_of_isNameChar hc
    obtain ⟨-, -, -, hkept⟩ := toLower_laws hc
    have htail := ih (some c) (by simpa using hc) hrest
    rw [snakeMarks, snakeChars, hupper, htoLower, List.map_append, List.map_cons, Mark.char_kept,
      htail]
    by_cases h : c.isUpper
    · have hstarts : prev.any (startsWord · cs) = prev.any (startsWordAt · c cs.head?) := by
        cases prev with
        | none => rfl
        | some p => exact startsWord_eq (hprev p rfl) h hrest
      rw [if_pos h, hstarts, List.append_assoc]
      split <;> rfl
    · have hstarts : prev.any (startsWordAt · c cs.head?) = false := by
        simp [startsWordAt, h]
      rw [if_neg h, hstarts, if_neg Bool.false_ne_true, hkept h]
      rfl

theorem spaced_snakeMarks (prev : Option Char) (hprev : ∀ p ∈ prev, isNameChar p)
    (hcs : ∀ c ∈ cs, isNameChar c) :
    Spaced (prev.map Char.toLower) (snakeMarks prev cs) := by
  induction cs generalizing prev with
  | nil => exact .nil _
  | cons c cs ih =>
    obtain ⟨hc, hrest⟩ := List.forall_mem_cons.mp hcs
    have htail := ih (some c) (by simpa using hc) hrest
    rw [snakeMarks]
    split
    · next hstarts =>
      obtain ⟨p, rfl, hstart⟩ := (Option.any_eq_true _ _).mp hstarts
      simp only [startsWordAt, Bool.and_eq_true, bne_iff_ne] at hstart
      obtain ⟨⟨hupper, hp⟩, -⟩ := hstart
      have hne : c ≠ '_' := by
        rintro rfl
        exact absurd hupper (by decide)
      obtain ⟨-, -, hpunderscore, -⟩ := toLower_laws (hprev p rfl)
      obtain ⟨-, -, hcunderscore, -⟩ := toLower_laws hc
      exact .inserted (mt hpunderscore.mp hp) (mt hcunderscore.mp hne) htail
    · exact .kept htail

/-- What stands between two neighbours. -/
theorem snakeMarks_append (prev : Option Char) (cs : List Char) (p c : Char) (ds : List Char) :
    ∃ before, before.filterMap Mark.kept? = cs.map Char.toLower ∧
      snakeMarks prev (cs ++ p :: c :: ds) = before ++ .kept p.toLower ::
        ((if startsWordAt p c ds.head? then [.inserted] else []) ++
          .kept c.toLower :: snakeMarks (some c) ds) := by
  induction cs generalizing prev with
  | nil =>
    refine ⟨if prev.any (startsWordAt · p (some c)) then [.inserted] else [], ?_, rfl⟩
    split <;> rfl
  | cons d cs ih =>
    obtain ⟨before, hkept, heq⟩ := ih (some d)
    refine ⟨(if prev.any (startsWordAt · d (cs ++ p :: c :: ds).head?) then [.inserted] else []) ++
      .kept d.toLower :: before, ?_, ?_⟩
    · rw [List.filterMap_append, List.filterMap_cons_some Mark.kept?_kept, hkept]
      split <;> rfl
    · rw [List.cons_append, snakeMarks, heq, List.append_assoc, List.cons_append]

theorem explains_snakeMarks (h : IsNameText name) :
    Explains name (snakeCase name) (snakeMarks none name.toList) where
  kept_eq := filterMap_kept?_snakeMarks none name.toList
  out_eq := by
    rw [snakeCase, String.toList_ofList]
    exact map_char_snakeMarks none (by simp) h

/-- The marks of a name in snake case. -/
theorem explains_snakeCase_iff (h : IsNameText name) :
    Explains name (snakeCase name) ms ↔ ms = snakeMarks none name.toList := by
  constructor
  · intro hms
    exact (explains_snakeMarks h).eq_of_spaced hms (spaced_snakeMarks none (by simp) h)
  · rintro rfl
    exact explains_snakeMarks h

/-! ### Names in snake case -/

theorem snakeChars_eq_self (prev : Option Char) (h : ∀ c ∈ cs, isSnakeChar c) :
    snakeChars prev cs = cs := by
  induction cs generalizing prev with
  | nil => rfl
  | cons c cs ih =>
    obtain ⟨hc, hcs⟩ := List.forall_mem_cons.mp h
    obtain ⟨hname, hlower⟩ := Bool.and_eq_true_iff.mp hc
    have hupper : ¬ isUpper c := by
      rw [(case_of_isNameChar hname).1]
      simpa using hlower
    rw [snakeChars, if_neg hupper, ih _ hcs]

theorem snakeCase_eq_self (h : IsSnakeText name) : snakeCase name = name := by
  rw [snakeCase, snakeChars_eq_self none h, String.ofList_toList]

/-- Without underscores, only the case is changed. -/
theorem filter_snakeCase (h : IsNameText name) :
    (snakeCase name).toList.filter (· ≠ '_') =
      (name.toList.filter (· ≠ '_')).map Char.toLower := by
  have hexplains := explains_snakeMarks h
  rw [← hexplains.out_eq, filter_map_char, hexplains.kept_eq, List.filter_map]
  refine congrArg _ (List.filter_congr fun c hc => ?_)
  obtain ⟨-, -, hunderscore, -⟩ := toLower_laws (h c hc)
  simp [hunderscore]

/-! ### Main statement -/

/-- **A name in snake case has the characters of the name.**  Without its underscores it is the name
without underscores, in lower case.  There is one way to tell which underscores are inserted.  None
of them is the first or the last character or stands beside an underscore, and there is one between
two neighbouring characters if and only if a word starts there.  Converted again, the name stays as
it is. -/
theorem snakeCase_laws (h : IsNameText name) :
    (snakeCase name).toList.filter (· ≠ '_') =
      (name.toList.filter (· ≠ '_')).map Char.toLower ∧
    (∃! ms, Explains name (snakeCase name) ms) ∧
    (∀ ms, Explains name (snakeCase name) ms → ∀ left right, ms = left ++ .inserted :: right →
      (∃ p, p ≠ '_' ∧ left.getLast? = some (.kept p)) ∧
        ∃ c, c ≠ '_' ∧ right.head? = some (.kept c)) ∧
    (∀ ms, Explains name (snakeCase name) ms → ∀ cs p c ds, name.toList = cs ++ p :: c :: ds →
      ∃ before after, ms = before ++ .kept p.toLower ::
          ((if startsWordAt p c ds.head? then [.inserted] else []) ++ .kept c.toLower :: after) ∧
        before.filterMap Mark.kept? = cs.map Char.toLower ∧
        after.filterMap Mark.kept? = ds.map Char.toLower) ∧
    snakeCase (snakeCase name) = snakeCase name := by
  refine ⟨filter_snakeCase h, ?_, ?_, ?_, snakeCase_eq_self (isSnakeText_snakeCase h)⟩
  · exact ⟨_, explains_snakeMarks h, fun ms hms => (explains_snakeCase_iff h).mp hms⟩
  · intro ms hms left right heq
    obtain rfl := (explains_snakeCase_iff h).mp hms
    exact (spaced_snakeMarks none (by simp) h).neighbours heq
  · intro ms hms cs p c ds heq
    obtain rfl := (explains_snakeCase_iff h).mp hms
    obtain ⟨before, hkept, hmarks⟩ := snakeMarks_append none cs p c ds
    rw [heq]
    exact ⟨before, _, hmarks, hkept, filterMap_kept?_snakeMarks (some c) ds⟩

/-- Of the underscores of `parse_http_2_x_response__`, the first, the third and the fourth one are
inserted: the abbreviation `HTTP` stays one word, and `X` is one. -/
theorem response_snakeCase :
    IsNameText "parseHTTP_2XResponse__" ∧
      snakeCase "parseHTTP_2XResponse__" = "parse_http_2_x_response__" ∧
      snakeCase "parse_http_2_x_response__" = "parse_http_2_x_response__" ∧
      ∃! ms, Explains "parseHTTP_2XResponse__" "parse_http_2_x_response__" ms := by
  have hname : IsNameText "parseHTTP_2XResponse__" :=
    List.all_eq_true.mp (by decide +kernel)
  have hsnake : snakeCase "parseHTTP_2XResponse__" = "parse_http_2_x_response__" := by
    decide +kernel
  obtain ⟨-, hunique, -, -, hagain⟩ := snakeCase_laws hname
  rw [hsnake] at hunique hagain
  exact ⟨hname, hsnake, hagain, hunique⟩

end Adl.Text
