import Mathlib.Data.List.Nodup

/-!
# Lookup — what is found under a key
-/

namespace Adl

variable {κ α β : Type} [BEq κ]

theorem lookup_map_snd (f : α → β) (entries : List (κ × α)) (k : κ) :
    (entries.map fun e => (e.1, f e.2)).lookup k = (entries.lookup k).map f := by
  induction entries with
  | nil => rfl
  | cons e entries ih =>
    rw [List.map_cons, List.lookup_cons, List.lookup_cons, ih]
    split <;> rfl

variable [LawfulBEq κ] {k : κ} {a : α} {entries : List (κ × α)}

theorem mem_of_lookup (h : entries.lookup k = some a) : (k, a) ∈ entries := by
  obtain ⟨before, after, rfl, -⟩ := List.lookup_eq_some_iff.mp h
  simp

/-- A key that is not looked up is not there. -/
theorem not_mem_of_lookup_eq_none (h : entries.lookup k = none) : k ∉ entries.map Prod.fst := by
  rw [List.lookup_eq_none_iff] at h
  rintro hmem
  obtain ⟨e, he, rfl⟩ := List.mem_map.mp hmem
  exact absurd (h e he) (by simp)

/-- The entry of a key is found, if it is the only one. -/
theorem lookup_of_mem (hnd : (entries.map Prod.fst).Nodup) (h : (k, a) ∈ entries) :
    entries.lookup k = some a := by
  cases hl : entries.lookup k with
  | none => exact absurd (List.mem_map_of_mem h) (not_mem_of_lookup_eq_none hl)
  | some b =>
    have heq : (k, a) = (k, b) := List.inj_on_of_nodup_map hnd h (mem_of_lookup hl) rfl
    cases heq
    rfl

/-- Of distinct names with their places, a name is found at its place. -/
theorem lookup_zipIdx_eq_some_iff {names : List κ} (hnd : names.Nodup) {i : Nat} :
    names.zipIdx.lookup k = some i ↔ names[i]? = some k := by
  constructor
  · intro h
    exact List.mem_zipIdx_iff_getElem?.mp (mem_of_lookup h)
  · intro h
    refine lookup_of_mem ?_ (List.mem_zipIdx_iff_getElem?.mpr h)
    rwa [List.zipIdx_map_fst]

end Adl
