import Adl.Files.Access
import Adl.Proofs.Success

/-!
# Located — where a path of a tree leads

Following a path enters directories and leaves them again by the way it came (`Located`), so what it
leads to is what stands at its place, and a file that is read is one of the files of the tree
(`exists_mem_files_of_read`).
-/

namespace Adl.Tree

variable {t : Tree} {p q : Position} {path : String}

theorem find?_concat (name : String) : ∀ (place : Place) (t : Tree),
    t.find? (place ++ [name]) = (t.find? place).bind (·.child? name)
  | [], t => by
    simp only [List.nil_append, find?, Option.bind_some]
    cases t.child? name <;> rfl
  | first :: place, t => by
    simp only [List.cons_append, find?, find?_concat name place]
    cases t.child? first <;> rfl

/-- A position is reached from the outermost directory by entering what is there. -/
inductive Located (t : Tree) : Position → Prop
  | start : Located t ⟨[], [], some t⟩
  | enter {p : Position} {inner : Tree} (name : String) (h : Located t p)
      (hhere : p.here = some inner) : Located t (p.enter name)

/-- A position knows what stands at its place. -/
theorem Located.here_eq (h : Located t p) : p.here = t.find? p.place := by
  induction h with
  | start => rfl
  | @enter p inner name _ hhere ih =>
    have hplace : (p.enter name).place = p.place ++ [name] := List.reverse_cons
    rw [hplace, find?_concat, ← ih]
    rfl

/-- The way out of a directory is the way by which it was entered. -/
theorem Located.leave (h : Located t p) {inner : Tree} (hhere : p.here = some inner) :
    Located t p.leave := by
  unfold Position.leave
  split
  · exact .enter ".." h hhere
  · split
    · exact h
    · cases h with
      | start => next hnames _ => exact absurd rfl hnames
      | enter name h hbefore =>
        simp only [Position.enter, hbefore, Option.toList_some, List.singleton_append,
          List.tail_cons, List.head?_cons]
        exact hbefore ▸ h

theorem Located.follow (h : Located t p) {segment : String} (hq : p.follow segment = .ok q) :
    Located t q := by
  unfold Position.follow at hq
  split at hq
  · cases hq
  · cases hq
  · next entries hhere =>
    split at hq
    · cases hq
      exact h
    split at hq
    · cases hq
      exact h.leave hhere
    split at hq
    · cases hq
    · cases hq
      exact .enter segment h hhere

theorem Located.foldlM_follow {segments : List String} (h : Located t p)
    (hq : segments.foldlM Position.follow p = .ok q) : Located t q := by
  induction segments generalizing p with
  | nil =>
    rw [List.foldlM_nil, pure_eq_ok_iff] at hq
    exact hq ▸ h
  | cons segment segments ih =>
    rw [List.foldlM_cons] at hq
    obtain ⟨p', hp', hq⟩ := bind_eq_ok_iff.mp hq
    exact ih (h.follow hp') hq

theorem located_start : Located t (t.start path) := by
  unfold Tree.start
  dsimp only
  split
  · exact .enter root .start rfl
  · exact .start

theorem located_of_locate (h : t.locate path = .ok p) : Located t p := by
  unfold locate at h
  split at h
  · cases h
  split at h
  · cases h
  split at h
  · cases h
  exact located_start.foldlM_follow h

/-- A text that is read is that of a file of the tree. -/
theorem exists_mem_files_of_read {text : String} (h : t.read path = .ok text) :
    ∃ place contents, (place, contents) ∈ t.files ∧ String.fromUTF8? contents = some text := by
  obtain ⟨found, hlookup, h⟩ := bind_eq_ok_iff.mp h
  obtain ⟨p, hlocate, hlookup⟩ := bind_eq_ok_iff.mp hlookup
  have hhere := (located_of_locate hlocate).here_eq
  split at hlookup
  · next found' hsome =>
    obtain rfl := pure_eq_ok_iff.mp hlookup
    split at h
    · cases h
    · next contents _ =>
      refine ⟨p.place, contents, mem_files_of_find? (hhere ▸ hsome), ?_⟩
      split at h
      · next text' htext =>
        obtain rfl := pure_eq_ok_iff.mp h
        exact htext
      · cases h
  · cases hlookup

end Adl.Tree
