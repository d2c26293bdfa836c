import Adl.Proofs.Json.Reading
import Adl.Proofs.Pointwise

/-!
# Same — JSON values as data

`Json.same` compares data like `Literal.same`: numbers as numbers, so that the two zeros are the
same, and objects by their members in order.  The objects that are made from literals are sorted.
If no key is repeated, they are the same only if they have the same keys, each with the same value
(`Json.mem_keys_of_same_sorted`, `Json.same_of_same_sorted`).
-/

namespace Adl

namespace Literal

theorem sameItems_iff {xs ys : List Literal} :
    sameItems xs ys ↔ List.Forall₂ (fun x y => same x y) xs ys := by
  induction xs generalizing ys with
  | nil => cases ys <;> simp [sameItems]
  | cons x xs ih => cases ys <;> simp [sameItems, ih]

theorem sameEntries_iff {xs ys : List (String × Literal)} :
    sameEntries xs ys ↔ List.Forall₂ (fun x y => x.1 = y.1 ∧ same x.2 y.2) xs ys := by
  induction xs generalizing ys with
  | nil => cases ys <;> simp [sameEntries]
  | cons x xs ih => cases ys <;> simp [sameEntries, ih]

theorem itemsToJson_eq_map (items : List Literal) :
    itemsToJson items = items.map toJson := by
  induction items with
  | nil => rfl
  | cons item items ih => rw [itemsToJson, ih, List.map_cons]

theorem entriesToJson_eq_map (entries : List (String × Literal)) :
    entriesToJson entries = entries.map fun e => (e.1, e.2.toJson) := by
  induction entries with
  | nil => rfl
  | cons e entries ih => rw [entriesToJson, ih, List.map_cons]

end Literal

namespace Json

mutual

/-- Equality of values, where numbers are compared as numbers. -/
def same : Json → Json → Bool
  | null, null => true
  | bool b, bool c => b == c
  | integer i, integer j => i == j
  | double d, double e => d.sameNumber e
  | string s, string t => s == t
  | array xs, array ys => sameItems xs ys
  | object xs, object ys => sameMembers xs ys
  | _, _ => false

/-- Equality of lists of values. -/
def sameItems : List Json → List Json → Bool
  | [], [] => true
  | x :: xs, y :: ys => same x y && sameItems xs ys
  | _, _ => false

/-- Equality of lists of members. -/
def sameMembers : List (String × Json) → List (String × Json) → Bool
  | [], [] => true
  | (k, x) :: xs, (l, y) :: ys => k == l && same x y && sameMembers xs ys
  | _, _ => false

end

theorem same_null_left {j : Json} : same null j ↔ j = null := by cases j <;> simp [same]

theorem same_null_right {j : Json} : same j null ↔ j = null := by cases j <;> simp [same]

theorem sameItems_iff {xs ys : List Json} :
    sameItems xs ys ↔ List.Forall₂ (fun x y => same x y) xs ys := by
  induction xs generalizing ys with
  | nil => cases ys <;> simp [sameItems]
  | cons x xs ih => cases ys <;> simp [sameItems, ih]

theorem sameMembers_iff {xs ys : List (String × Json)} :
    sameMembers xs ys ↔ List.Forall₂ (fun x y => x.1 = y.1 ∧ same x.2 y.2) xs ys := by
  induction xs generalizing ys with
  | nil => cases ys <;> simp [sameMembers]
  | cons x xs ih => cases ys <;> simp [sameMembers, ih]

section

variable {members xs ys : List (String × Json)} {m : String × Json} {key : String} {value : Json}

/-! ### Sorted members -/

theorem mem_insertSorted_iff (h : key ∉ members.map Prod.fst) :
    m ∈ insertSorted key value members ↔ m = (key, value) ∨ m ∈ members := by
  induction members with
  | nil => simp [insertSorted]
  | cons m' members ih =>
    rw [List.map_cons, List.mem_cons, not_or] at h
    rw [insertSorted]
    split
    · rw [List.mem_cons]
    · rw [if_neg h.1, List.mem_cons, ih h.2, List.mem_cons]
      exact or_left_comm

/-- No member is lost if no key is repeated. -/
theorem mem_sortMembers_iff (h : (members.map Prod.fst).Nodup) :
    m ∈ sortMembers members ↔ m ∈ members := by
  -- Members are inserted in order, and none has the key of one before.
  have hfold : ∀ sorted, (∀ k ∈ members.map Prod.fst, k ∉ sorted.map Prod.fst) →
      (m ∈ members.foldl (fun sorted m => insertSorted m.1 m.2 sorted) sorted ↔
        m ∈ sorted ∨ m ∈ members) := by
    induction members with
    | nil => exact fun sorted _ => by simp
    | cons m' members ih =>
      intro sorted hsorted
      rw [List.map_cons, List.nodup_cons] at h
      rw [List.map_cons, List.forall_mem_cons] at hsorted
      rw [List.foldl_cons, ih h.2, mem_insertSorted_iff hsorted.1, List.mem_cons]
      · rw [or_assoc, or_left_comm]
      · intro k hk hmem
        obtain ⟨e, he, rfl⟩ := List.mem_map.mp hmem
        rcases (mem_insertSorted_iff hsorted.1).mp he with rfl | he
        · exact h.1 hk
        · exact hsorted.2 _ hk (List.mem_map_of_mem he)
  rw [sortMembers, hfold [] fun _ _ => List.not_mem_nil]
  simp

variable (hx : (xs.map Prod.fst).Nodup) (hy : (ys.map Prod.fst).Nodup)
  (h : (sorted xs).same (sorted ys))

include hx hy h

/-- Each member of an object has a counterpart in the same object. -/
theorem exists_of_same_sorted (hm : m ∈ xs) : ∃ m' ∈ ys, m.1 = m'.1 ∧ m.2.same m'.2 := by
  rw [sorted, sorted, same, sameMembers_iff] at h
  obtain ⟨i, hi⟩ := List.mem_iff_getElem?.mp ((mem_sortMembers_iff hx).mpr hm)
  obtain ⟨hlen, hall⟩ := forall₂_iff_getElem?.mp h
  obtain ⟨m', hm'⟩ := exists_getElem?_of_length_eq hlen.symm hi
  exact ⟨m', (mem_sortMembers_iff hy).mp (List.mem_of_getElem? hm'), hall i m m' hi hm'⟩

theorem same_of_same_sorted {y : Json} (hxs : (key, value) ∈ xs) (hys : (key, y) ∈ ys) :
    value.same y := by
  obtain ⟨m, hm, heq, hsame⟩ := exists_of_same_sorted hx hy h hxs
  rwa [List.inj_on_of_nodup_map hy hm hys heq.symm] at hsame

theorem mem_keys_of_same_sorted : key ∈ xs.map Prod.fst ↔ key ∈ ys.map Prod.fst := by
  have hkeys : (sortMembers xs).map Prod.fst = (sortMembers ys).map Prod.fst := by
    rw [sorted, sorted, same, sameMembers_iff] at h
    refine List.forall₂_eq_eq_eq ▸ ?_
    rw [List.forall₂_map_left_iff, List.forall₂_map_right_iff]
    exact h.imp fun _ _ h => h.1
  have hmem {zs : List (String × Json)} (hz : (zs.map Prod.fst).Nodup) :
      key ∈ (sortMembers zs).map Prod.fst ↔ key ∈ zs.map Prod.fst := by
    simp only [List.mem_map, mem_sortMembers_iff hz]
  rw [← hmem hx, ← hmem hy, hkeys]

end

end Json

end Adl
