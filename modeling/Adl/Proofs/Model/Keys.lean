import Adl.Model.Resolve
import Adl.Proofs.Lookup
import Mathlib.Data.List.Induction

/-!
# Keys — what is found among annotations

Written annotations are put one after the other into a list by what their names are looked up as,
and each takes the place of an earlier one.  So a name is found with the value that is written with
it last (`lookup_resolveAnnotations_eq_some_iff`).
-/

namespace Adl

open Source (AnnotationEntry)

/-- The last of the written annotations that is looked up as a name has this value. -/
def LastValue (key : String → ScopedName) (written : List AnnotationEntry) (k : ScopedName)
    (v : Literal) : Prop :=
  ∃ before a after, written = before ++ a :: after ∧ key a.name = k ∧ a.value = v ∧
    ∀ b ∈ after, key b.name ≠ k

/-! ### Annotations that are put in -/

namespace Resolve

variable {key k : ScopedName} {value v : Literal} {annotations : Annotations}

theorem mem_insertKey {a : ScopedName × Literal} (h : a ∈ insertKey key value annotations) :
    a = (key, value) ∨ a ∈ annotations := by
  induction annotations with
  | nil => exact .inl (List.mem_singleton.mp h)
  | cons b annotations ih =>
    rw [insertKey] at h
    split at h
    · exact List.mem_cons.mp h
    split at h
    · exact (List.mem_cons.mp h).imp_right (List.mem_cons_of_mem b)
    · rcases List.mem_cons.mp h with rfl | h
      · exact .inr List.mem_cons_self
      · exact (ih h).imp_right (List.mem_cons_of_mem b)

theorem lookup_cons_eq_ite :
    List.lookup k ((key, value) :: annotations) =
      if k = key then some value else annotations.lookup k := by
  rw [List.lookup_cons]
  by_cases h : k = key
  · simp [h]
  · rw [beq_false_of_ne h, if_neg h]

theorem lookup_insertKey :
    (insertKey key value annotations).lookup k =
      if k = key then some value else annotations.lookup k := by
  induction annotations with
  | nil => rw [insertKey, lookup_cons_eq_ite]
  | cons a annotations ih =>
    obtain ⟨key', value'⟩ := a
    rw [insertKey]
    by_cases hbefore : key.before key'
    · rw [if_pos hbefore, lookup_cons_eq_ite]
    · rw [if_neg hbefore]
      by_cases heq : key = key'
      · rw [if_pos heq, lookup_cons_eq_ite, lookup_cons_eq_ite, ← heq]
        split <;> rfl
      · rw [if_neg heq, lookup_cons_eq_ite, lookup_cons_eq_ite, ih]
        by_cases h : k = key
        · rw [if_pos h, if_pos h, if_neg (h ▸ heq)]
        · rw [if_neg h, if_neg h]

end Resolve

/-! ### Last values -/

section

variable {key : String → ScopedName} {written : List AnnotationEntry} {k : ScopedName} {v : Literal}

/-- With one more annotation the last one is the new one, or that of the others if the new one is
looked up as something else. -/
theorem lastValue_concat_iff {a : AnnotationEntry} : LastValue key (written ++ [a]) k v ↔
    (key a.name = k ∧ a.value = v) ∨ key a.name ≠ k ∧ LastValue key written k v := by
  constructor
  · rintro ⟨before, b, after, heq, hkey, hvalue, hafter⟩
    rcases List.eq_nil_or_concat' after with rfl | ⟨after, c, rfl⟩
    · obtain ⟨-, hab⟩ := List.append_inj' heq rfl
      cases hab
      exact .inl ⟨hkey, hvalue⟩
    · rw [← List.cons_append, ← List.append_assoc] at heq
      obtain ⟨rfl, hac⟩ := List.append_inj' heq rfl
      cases hac
      refine .inr ⟨hafter a (by simp), before, b, after, rfl, hkey, hvalue, fun c hc => ?_⟩
      exact hafter c (List.mem_append_left _ hc)
  · rintro (⟨hkey, hvalue⟩ | ⟨hne, before, b, after, rfl, hkey, hvalue, hafter⟩)
    · exact ⟨written, a, [], rfl, hkey, hvalue, fun _ h => nomatch h⟩
    · refine ⟨before, b, after ++ [a], by simp, hkey, hvalue, fun c hc => ?_⟩
      rcases List.mem_append.mp hc with hc | hc
      · exact hafter c hc
      · rwa [List.mem_singleton.mp hc]

/-- A name has a last value if an annotation is looked up as it. -/
theorem exists_lastValue_iff :
    (∃ v, LastValue key written k v) ↔ ∃ a ∈ written, key a.name = k := by
  constructor
  · rintro ⟨v, before, a, after, rfl, hkey, -⟩
    exact ⟨a, by simp, hkey⟩
  · rintro ⟨a, ha, hkey⟩
    induction written using List.reverseRecOn with
    | nil => cases ha
    | append_singleton written b ih =>
      by_cases hb : key b.name = k
      · exact ⟨b.value, lastValue_concat_iff.mpr (.inl ⟨hb, rfl⟩)⟩
      · have hmem : a ∈ written := (List.mem_append.mp ha).resolve_right fun h =>
          hb (List.mem_singleton.mp h ▸ hkey)
        exact (ih hmem).imp fun v hv => lastValue_concat_iff.mpr (.inr ⟨hb, hv⟩)

/-- Where all names are different, each of them is the last one. -/
theorem lastValue_iff_of_nodup (hnd : (written.map (key ·.name)).Nodup) :
    LastValue key written k v ↔ ∃ a ∈ written, key a.name = k ∧ a.value = v := by
  constructor
  · rintro ⟨before, a, after, rfl, hkey, hvalue, -⟩
    exact ⟨a, by simp, hkey, hvalue⟩
  · rintro ⟨a, ha, rfl, rfl⟩
    obtain ⟨before, after, rfl⟩ := List.append_of_mem ha
    rw [List.map_append, List.map_cons] at hnd
    have hafter := (List.nodup_cons.mp hnd.of_append_right).1
    exact ⟨before, a, after, rfl, rfl, rfl, fun b hb heq => hafter (List.mem_map.mpr ⟨b, hb, heq⟩)⟩

end

/-! ### Resolved annotations -/

namespace Resolve.Scope

variable (scope : Scope) {written : List AnnotationEntry} {k : ScopedName} {v : Literal}

theorem resolveAnnotations_concat (written : List AnnotationEntry) (a : AnnotationEntry) :
    scope.resolveAnnotations (written ++ [a]) =
      insertKey (scope.annotationKey a.name) a.value (scope.resolveAnnotations written) := by
  rw [resolveAnnotations, List.foldl_append]
  rfl

/-- What is found under a name is the value that is written with it last. -/
theorem lookup_resolveAnnotations_eq_some_iff :
    (scope.resolveAnnotations written).lookup k = some v ↔
      LastValue scope.annotationKey written k v := by
  induction written using List.reverseRecOn with
  | nil => simp [resolveAnnotations, LastValue]
  | append_singleton written a ih =>
    rw [resolveAnnotations_concat, lookup_insertKey, lastValue_concat_iff, ← ih]
    by_cases hkey : k = scope.annotationKey a.name
    · simp [hkey]
    · simp [hkey, Ne.symm hkey]

/-- A name is not found if nothing is written with it. -/
theorem lookup_resolveAnnotations_eq_none (h : ∀ a ∈ written, scope.annotationKey a.name ≠ k) :
    (scope.resolveAnnotations written).lookup k = none := by
  rw [Option.eq_none_iff_forall_ne_some]
  intro v hv
  obtain ⟨before, a, after, rfl, hkey, -⟩ := scope.lookup_resolveAnnotations_eq_some_iff.mp hv
  exact h a (by simp) hkey

/-- The value of a name that is written with one value only. -/
theorem lookup_resolveAnnotations (hone : ∀ a ∈ written, scope.annotationKey a.name = k →
    a.value = v) (hsome : ∃ a ∈ written, scope.annotationKey a.name = k) :
    (scope.resolveAnnotations written).lookup k = some v := by
  obtain ⟨v', hlast⟩ := exists_lastValue_iff.mpr hsome
  obtain ⟨before, a, after, hwritten, hkey, rfl, -⟩ := id hlast
  rw [scope.lookup_resolveAnnotations_eq_some_iff.mpr hlast, hone a (by simp [hwritten]) hkey]

end Resolve.Scope

end Adl
