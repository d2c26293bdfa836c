import Adl.Proofs.Source.Written

/-!
# Parses — following the texts of tokens

A parser looks at the texts of tokens and keeps their places.  `Parses` follows it from the texts
of the tokens before it to the texts of those behind it, with what is known of the value it gives
back.  Each item and each comma is a token, so a list is read if its length is no more than the
fuel.
-/

namespace Adl.Source

namespace Parser

/-! ### Following the texts of the tokens -/

/-- On tokens with the texts `i` the parser gives back something with the property `P` and leaves
tokens with the texts `j`. -/
def Parses {α : Type} (p : Parser α) (i j : List String) (P : α → Prop) : Prop :=
  ∀ ts, ts.map Token.text = i → ∃ a ts', p ts = .ok (a, ts') ∧ ts'.map Token.text = j ∧ P a

section

variable {α β : Type} {P P' : α → Prop} {Q : β → Prop} {p q : Parser α} {i j k rest : List String}
  {w what : String}

theorem Parses.pure {a : α} (h : P a) : Parses (pure a) i i P := fun ts hts => ⟨a, ts, rfl, hts, h⟩

theorem Parses.bind {f : α → Parser β} (hp : Parses p i j P)
    (hf : ∀ a, P a → Parses (f a) j k Q) : Parses (p >>= f) i k Q := by
  intro ts hts
  obtain ⟨a, ts', hrun, hts', ha⟩ := hp ts hts
  obtain ⟨b, ts'', hrun', hts'', hb⟩ := hf a ha ts' hts'
  refine ⟨b, ts'', ?_, hts'', hb⟩
  show (p ts >>= fun x => f x.1 x.2) = _
  rw [hrun]
  exact hrun'

theorem Parses.mono (hp : Parses p i j P) (h : ∀ a, P a → P' a) : Parses p i j P' := by
  intro ts hts
  obtain ⟨a, ts', hrun, hts', ha⟩ := hp ts hts
  exact ⟨a, ts', hrun, hts', h a ha⟩

theorem Parses.map {f : α → β} (hp : Parses p i j P) (h : ∀ a, P a → Q (f a)) :
    Parses (f <$> p) i j Q := by
  rw [← bind_pure_comp]
  exact hp.bind fun a ha => .pure (h a ha)

theorem parses_peek (i : List String) :
    Parses peek i i fun next => next.map Token.text = i.head? := by
  rintro ts rfl
  exact ⟨ts.head?, ts, rfl, rfl, (List.head?_map ..).symm⟩

theorem parses_peek_cons (w : String) (rest : List String) :
    Parses peek (w :: rest) (w :: rest) fun next => ∃ t, next = some t ∧ t.text = w :=
  (parses_peek _).mono fun _ h => Option.map_eq_some_iff.mp h

theorem parses_eat (w : String) (rest : List String) :
    Parses (eat w) (w :: rest) rest (· = true) := by
  intro ts hts
  obtain ⟨t, ts, rfl, rfl, hrest⟩ := List.map_eq_cons_iff.mp hts
  exact ⟨true, ts, by rw [eat, if_pos rfl], hrest, rfl⟩

theorem parses_eat_ne (h : ∀ v ∈ i.head?, v ≠ w) : Parses (eat w) i i (· = false) := by
  rintro ts rfl
  refine ⟨false, ts, ?_, rfl, rfl⟩
  cases ts with
  | nil => rfl
  | cons t ts => rw [eat, if_neg (h t.text rfl)]

/-- A token that is there is eaten. -/
theorem Parses.taken (h : Parses p rest k P) :
    Parses (eat w >>= fun b => if b = true then p else q) (w :: rest) k P := by
  refine (parses_eat w rest).bind ?_
  rintro _ rfl
  exact h

/-- A token that is not there is passed over. -/
theorem Parses.passed (hne : ∀ v ∈ i.head?, v ≠ w) (h : Parses q i k P) :
    Parses (eat w >>= fun b => if b = true then p else q) i k P := by
  refine (parses_eat_ne hne).bind ?_
  rintro _ rfl
  exact h

theorem Parses.passed_cons {v : String} (hne : v ≠ w) (h : Parses q (v :: i) k P) :
    Parses (eat w >>= fun b => if b = true then p else q) (v :: i) k P :=
  .passed (by rintro _ ⟨⟩; exact hne) h

theorem parses_expectWhere {test : Token → Bool} (h : ∀ t : Token, t.text = w → test t)
    (rest : List String) : Parses (expectWhere test what) (w :: rest) rest (·.text = w) := by
  intro ts hts
  obtain ⟨t, ts, rfl, rfl, hrest⟩ := List.map_eq_cons_iff.mp hts
  exact ⟨t, ts, by rw [expectWhere, if_pos (h t rfl)], hrest, rfl⟩

theorem parses_expect (w : String) (rest : List String) :
    Parses (expect w what) (w :: rest) rest fun _ => True := by
  rw [expect]
  refine (parses_expectWhere (fun t ht => ?_) rest).bind fun _ _ => .pure trivial
  simp [ht]

theorem parses_expectName (h : isName w) (rest : List String) :
    Parses (expectName what) (w :: rest) rest (·.text = w) := by
  refine parses_expectWhere (fun t ht => ?_) rest
  rw [ht]
  exact h

end

/-! ### Lists -/

section

variable {α γ : Type} {item : Parser α} {words : α → List String}
  {close what : String}

/-- Items are read up to what closes them if each of them is read. -/
theorem parses_many (view : α → γ) (limit : Nat) {items : List α}
    (hitem : ∀ a ∈ items, ∀ rest, (words a ++ rest).length ≤ limit →
      Parses item (words a ++ rest) rest fun b => view b = view a)
    (hhead : ∀ a ∈ items, ∃ w ws, words a = w :: ws ∧ w ≠ close) {fuel : Nat} (rest : List String)
    (hlimit : (items.flatMap words ++ close :: rest).length ≤ limit)
    (hfuel : (items.flatMap words ++ close :: rest).length ≤ fuel) :
    Parses (many close item fuel) (items.flatMap words ++ close :: rest) rest
      fun bs => bs.map view = items.map view := by
  induction items generalizing fuel with
  | nil =>
    cases fuel with
    | zero => simp at hfuel
    | succ fuel =>
      rw [many]
      exact .taken (.pure rfl)
  | cons a items ih =>
    rw [List.forall_mem_cons] at hitem hhead
    obtain ⟨w, ws, hw, hne⟩ := hhead.1
    have hread := hitem.1 (items.flatMap words ++ close :: rest)
    rw [List.flatMap_cons, List.append_assoc] at hlimit hfuel ⊢
    rw [hw] at hread hlimit hfuel ⊢
    have hshorter : (items.flatMap words ++ close :: rest).length <
        (w :: ws ++ (items.flatMap words ++ close :: rest)).length := by
      simp only [List.length_append, List.length_cons]
      omega
    cases fuel with
    | zero => omega
    | succ fuel =>
      rw [many]
      refine .passed (by simpa using hne) ?_
      refine (parses_peek_cons _ _).bind ?_
      rintro _ ⟨t, rfl, -⟩
      refine (hread hlimit).bind fun b hb => ?_
      refine (ih hitem.2 hhead.2 (by omega) (by omega)).bind fun bs hbs => .pure ?_
      rw [List.map_cons, List.map_cons, hb, hbs]

/-- Items with commas between them are read up to what closes them if each of them is read. -/
theorem parses_separated (view : α → γ) (limit : Nat) {items : List α} (hitems : items ≠ [])
    (hitem : ∀ a ∈ items, ∀ rest, (words a ++ rest).length ≤ limit →
      (∀ w ∈ rest.head?, w = "," ∨ w = close) →
      Parses item (words a ++ rest) rest fun b => view b = view a)
    (hclose : close ≠ ",") {fuel : Nat} (rest : List String)
    (hlimit : ([","].intercalate (items.map words) ++ close :: rest).length ≤ limit)
    (hfuel : ([","].intercalate (items.map words) ++ close :: rest).length ≤ fuel) :
    Parses (separated close what item fuel) ([","].intercalate (items.map words) ++ close :: rest)
      rest fun bs => bs.map view = items.map view := by
  induction items generalizing fuel with
  | nil => exact absurd rfl hitems
  | cons a items ih =>
    rw [List.forall_mem_cons] at hitem
    cases items with
    | nil =>
      rw [List.map_singleton, List.intercalate_singleton] at hlimit hfuel ⊢
      cases fuel with
      | zero => simp at hfuel
      | succ fuel =>
        rw [separated]
        refine (hitem.1 _ hlimit (by simp)).bind fun b hb => .taken (.pure ?_)
        rw [List.map_singleton, List.map_singleton, hb]
    | cons a' items =>
      rw [List.map_cons, List.map_cons, List.intercalate_cons_cons, List.append_assoc,
        List.append_assoc, ← List.map_cons] at hlimit hfuel ⊢
      have hread := hitem.1 _ hlimit (by simp)
      simp only [List.length_append, List.length_singleton] at hlimit hfuel
      cases fuel with
      | zero => omega
      | succ fuel =>
        rw [separated]
        refine hread.bind fun b hb => .passed (by simpa using hclose.symm) ?_
        refine (parses_expect "," _).bind fun _ _ => ?_
        refine (ih (List.cons_ne_nil _ _) hitem.2 ?_ ?_).bind fun bs hbs => .pure ?_
        · rw [List.length_append]
          omega
        · rw [List.length_append]
          omega
        · rw [List.map_cons, List.map_cons, hb, hbs]

end

end Parser

end Adl.Source
