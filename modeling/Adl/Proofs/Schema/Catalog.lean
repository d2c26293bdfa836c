import Adl.Proofs.Lookup
import Adl.Proofs.Pointwise
import Adl.Schema.Catalog

/-!
# Catalog — what a table of texts makes of a catalog

A table is read if each of its rows is (`ofTable?_isSome_iff`).  If the declarations in it have
distinct names, each of them is found under its name, and there are no others (`ofTable?_eq_some`).
-/

namespace Adl.Schema.Catalog

/-- The rows of a table are read one after the other, and all of them have to be readable. -/
theorem extend_snd_eq_true_iff {c : Catalog} {rows : List String} :
    (c.extend rows).2 = true ↔ ∀ row ∈ rows, (Decl.ofText? row).isSome := by
  induction rows generalizing c with
  | nil => simp [extend]
  | cons row rows ih =>
    rw [extend, List.forall_mem_cons]
    cases Decl.ofText? row with
    | none => simp
    | some d => simpa using ih

/-- A table can be read if and only if each of its rows can. -/
theorem ofTable?_isSome_iff {rows : List String} :
    (ofTable? rows).isSome ↔ ∀ row ∈ rows, (Decl.ofText? row).isSome := by
  rw [← extend_snd_eq_true_iff (c := empty), ofTable?]
  cases hextend : empty.extend rows with
  | mk c all => cases all <;> simp

/-- Declarations that are not in a catalog yet come before its entries. -/
theorem extend_eq {c : Catalog} {rows : List String} {ds : List Decl}
    (h : List.Forall₂ (fun row d => Decl.ofText? row = some d) rows ds)
    (hnd : ((ds.map Decl.scopedName) ++ c.entries.map Prod.fst).Nodup) :
    c.extend rows = (⟨(ds.map fun d => (d.scopedName, d)).reverse ++ c.entries⟩, true) := by
  induction h generalizing c with
  | nil => rfl
  | @cons row d rows ds hrow _ ih =>
    rw [List.map_cons, List.cons_append, List.nodup_cons] at hnd
    have hnew : c.entries.filter (·.1 ≠ d.scopedName) = c.entries := by
      refine List.filter_eq_self.mpr fun e he => decide_eq_true fun heq => hnd.1 ?_
      exact List.mem_append_right _ (heq ▸ List.mem_map_of_mem he)
    have hinsert : c.insert d = ⟨(d.scopedName, d) :: c.entries⟩ := by rw [insert, hnew]
    have hnd' : (ds.map Decl.scopedName ++ (c.insert d).entries.map Prod.fst).Nodup := by
      rw [hinsert, List.map_cons]
      exact (List.perm_middle.nodup_iff).mpr (List.nodup_cons.mpr hnd)
    rw [extend, hrow]
    dsimp only
    rw [ih hnd', hinsert, List.map_cons, List.reverse_cons, List.append_assoc]
    rfl

/-- Each declaration of a table without repeated names is found under its name. -/
theorem ofTable?_eq_some {rows : List String} {ds : List Decl}
    (h : List.Forall₂ (fun row d => Decl.ofText? row = some d) rows ds)
    (hnd : (ds.map Decl.scopedName).Nodup) :
    ∃ c, ofTable? rows = some c ∧ c.size = ds.length ∧ ∀ d ∈ ds, c.get? d.scopedName = some d := by
  have hextend := extend_eq (c := empty) h (by simpa [empty] using hnd)
  refine ⟨_, by rw [ofTable?, hextend], by simp [size, empty], fun d hd => ?_⟩
  refine lookup_of_mem ?_ ?_
  · simpa [empty, Function.comp_def, List.map_reverse] using hnd
  · simpa [empty] using hd

end Adl.Schema.Catalog
