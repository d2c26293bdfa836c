import Mathlib.Data.List.Forall2

/-!
# Pointwise — lists that are related place by place
-/

namespace Adl

variable {α β γ : Type} {R : α → β → Prop} {as as' : List α} {bs : List β} {a : α} {b : β}

theorem length_eq_of_map_eq {f : α → γ} {g : β → γ} (h : as.map f = bs.map g) :
    as.length = bs.length := by
  simpa only [List.length_map] using congrArg List.length h

theorem map_eq_of_forall₂ {f : α → γ} {g : β → γ} (h : List.Forall₂ (fun a b => f a = g b) as bs) :
    as.map f = bs.map g := by
  induction h with
  | nil => rfl
  | cons h _ ih => rw [List.map_cons, List.map_cons, h, ih]

/-- A pair is in two lists at once if its parts are at the same place. -/
theorem mem_zip_iff : (a, b) ∈ as.zip bs ↔ ∃ i : Nat, as[i]? = some a ∧ bs[i]? = some b := by
  rw [List.mem_iff_getElem?]
  simp only [List.getElem?_zip_eq_some]

theorem forall₂_iff_getElem? :
    List.Forall₂ R as bs ↔ as.length = bs.length ∧
      ∀ (i : Nat) a b, as[i]? = some a → bs[i]? = some b → R a b := by
  rw [List.forall₂_iff_zip]
  refine and_congr_right fun _ => ?_
  constructor
  · exact fun h i a b ha hb => h (mem_zip_iff.mpr ⟨i, ha, hb⟩)
  · intro h a b hab
    obtain ⟨i, ha, hb⟩ := mem_zip_iff.mp hab
    exact h i a b ha hb

/-- There is something at every place of a list that is as long. -/
theorem exists_getElem?_of_length_eq (h : as.length = bs.length) {i : Nat}
    (hb : bs[i]? = some b) : ∃ a, as[i]? = some a := by
  obtain ⟨hlt, -⟩ := List.getElem?_eq_some_iff.mp hb
  exact ⟨as[i], List.getElem?_eq_getElem (by omega)⟩

theorem exists_mem_zip (h : as.length = bs.length) (hb : b ∈ bs) : ∃ a, (a, b) ∈ as.zip bs := by
  obtain ⟨i, hi⟩ := List.mem_iff_getElem?.mp hb
  obtain ⟨a, ha⟩ := exists_getElem?_of_length_eq h hi
  exact ⟨a, mem_zip_iff.mpr ⟨i, ha, hi⟩⟩

theorem forall₂_getElem? (h : List.Forall₂ R as bs) {i : Nat} (hb : bs[i]? = some b) :
    ∃ a, as[i]? = some a ∧ R a b := by
  obtain ⟨hlen, hR⟩ := forall₂_iff_getElem?.mp h
  obtain ⟨a, ha⟩ := exists_getElem?_of_length_eq hlen hb
  exact ⟨a, ha, hR i a b ha hb⟩

theorem exists_of_forall₂ (h : List.Forall₂ R as bs) (hb : b ∈ bs) : ∃ a ∈ as, R a b := by
  obtain ⟨i, hi⟩ := List.mem_iff_getElem?.mp hb
  obtain ⟨a, ha, hR⟩ := forall₂_getElem? h hi
  exact ⟨a, List.mem_of_getElem? ha, hR⟩

/-- Where each element is related to something, the list is related to a list. -/
theorem exists_forall₂ (h : ∀ a ∈ as, ∃ b, R a b) : ∃ bs, List.Forall₂ R as bs := by
  induction as with
  | nil => exact ⟨[], .nil⟩
  | cons a as ih =>
    obtain ⟨⟨b, hb⟩, has⟩ := List.forall_mem_cons.mp h
    obtain ⟨bs, hbs⟩ := ih has
    exact ⟨b :: bs, .cons hb hbs⟩

/-- Lists that are related to one list are equal, if the elements of the first are all that the
relation allows. -/
theorem eq_of_forall₂ {cs : List β} (h : List.Forall₂ (fun a b => ∀ c, R a c → b = c) as bs)
    (h' : List.Forall₂ R as cs) : bs = cs := by
  induction h generalizing cs with
  | nil =>
    cases h'
    rfl
  | cons h _ ih =>
    cases h' with
    | cons hc hcs => rw [h _ hc, ih hcs]

/-- Only how the elements of the lists are related matters. -/
theorem forall₂_congr_of_mem {S : α → β → Prop} (h : ∀ a ∈ as, ∀ b, R a b ↔ S a b) :
    List.Forall₂ R as bs ↔ List.Forall₂ S as bs := by
  induction as generalizing bs with
  | nil => rw [List.forall₂_nil_left_iff, List.forall₂_nil_left_iff]
  | cons a as ih =>
    obtain ⟨ha, has⟩ := List.forall_mem_cons.mp h
    simp only [List.forall₂_cons_left_iff, ha, ih has]

theorem forall₂_append_left_iff :
    List.Forall₂ R (as ++ as') bs ↔
      ∃ bs₁ bs₂, List.Forall₂ R as bs₁ ∧ List.Forall₂ R as' bs₂ ∧ bs = bs₁ ++ bs₂ := by
  constructor
  · intro h
    refine ⟨bs.take as.length, bs.drop as.length, ?_, ?_, (List.take_append_drop _ bs).symm⟩
    · have hl := List.forall₂_take as.length h
      rwa [List.take_left] at hl
    · have hr := List.forall₂_drop as.length h
      rwa [List.drop_left] at hr
  · rintro ⟨bs₁, bs₂, h₁, h₂, rfl⟩
    exact List.rel_append h₁ h₂

end Adl
