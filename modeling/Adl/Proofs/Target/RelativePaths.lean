import Adl.Proofs.Files.Paths
import Adl.Target.Basic

/-!
# RelativePaths — where the paths in a TypeScript unit lead

A path is followed from the directory of a unit by going along its segments: a point stays, two
points go back, a name goes on.  From the unit of a module an import leads to the file of the
imported module, and the path of the support library leads where it leads from the output directory
(`relativePaths_laws`).  Both go back first, as far as the directories of the two do not agree, and
never further than to the output directory.
-/

namespace Adl

open Adl.Path (IsEntry IsExtension)

namespace Path

variable {path segment extension : String} {stack names : List String}

/-! ### Following a path -/

/-- Goes along a segment.  The segments so far are given from the last one; going back removes a
name, and is kept where there is none. -/
def goAlong (stack : List String) (segment : String) : List String :=
  if segment = "" ∨ segment = "." then stack
  else if segment = ".." then
    match stack with
    | [] => [".."]
    | last :: before => if last = ".." then ".." :: stack else before
  else segment :: stack

/-- The segments of a path without those that stay and those that are taken back. -/
def cleaned (path : String) : List String :=
  ((Text.split '/' path).foldl goAlong []).reverse

/-- A path that says that it starts where it stands. -/
def IsRelative (path : String) : Prop :=
  ∃ rest, path = "./" ++ rest ∨ path = "../" ++ rest

theorem goAlong_stay (h : segment = "" ∨ segment = ".") : goAlong stack segment = stack := by
  unfold goAlong
  rw [if_pos h]

theorem goAlong_name (h : ¬ (segment = "" ∨ segment = ".")) (hback : segment ≠ "..") :
    goAlong stack segment = segment :: stack := by
  unfold goAlong
  rw [if_neg h, if_neg hback]

theorem goAlong_entry (h : IsEntry segment) : goAlong stack segment = segment :: stack :=
  goAlong_name (not_or.mpr ⟨h.ne_empty, h.ne_here⟩) h.ne_around

theorem foldl_goAlong_entries (h : ∀ n ∈ names, IsEntry n) :
    names.foldl goAlong stack = names.reverse ++ stack := by
  induction names generalizing stack with
  | nil => rfl
  | cons n ns ih =>
    obtain ⟨hn, hns⟩ := List.forall_mem_cons.mp h
    rw [List.foldl_cons, goAlong_entry hn, ih hns, List.reverse_cons, List.append_assoc,
      List.singleton_append]

/-- Steps back take names away. -/
theorem foldl_goAlong_back (h : ∀ n ∈ stack, IsEntry n) {n : Nat} (hn : n ≤ stack.length) :
    (List.replicate n "..").foldl goAlong stack = stack.drop n := by
  induction n generalizing stack with
  | zero => rfl
  | succ n ih =>
    cases stack with
    | nil => exact absurd hn (by simp)
    | cons last before =>
      obtain ⟨hlast, hbefore⟩ := List.forall_mem_cons.mp h
      have hback : goAlong (last :: before) ".." = before := by
        simp [goAlong, hlast.ne_around]
      rw [List.replicate_succ, List.foldl_cons, hback, List.drop_succ_cons,
        ih hbefore (by simpa using hn)]

/-- Without steps back, all names of a path stay. -/
theorem cleaned_of_notMem (h : ".." ∉ Text.split '/' path) :
    cleaned path = (Text.split '/' path).filter fun s => s ≠ "" ∧ s ≠ "." := by
  have hrun : ∀ (segments stack : List String), ".." ∉ segments →
      segments.foldl goAlong stack =
        (segments.filter fun s => s ≠ "" ∧ s ≠ ".").reverse ++ stack := by
    intro segments
    induction segments with
    | nil => intro stack _; rfl
    | cons s segments ih =>
      intro stack h
      rw [List.mem_cons, not_or] at h
      rw [List.foldl_cons, ih _ h.2]
      by_cases hs : s = "" ∨ s = "."
      · rw [goAlong_stay hs, List.filter_cons_of_neg (by simpa [← not_or] using hs)]
      · rw [goAlong_name hs (Ne.symm h.1), List.filter_cons_of_pos (by simpa [not_or] using hs),
          List.reverse_cons, List.append_assoc, List.singleton_append]
  rw [cleaned, hrun _ _ h, List.append_nil, List.reverse_reverse]

/-- A relative path is followed from the directory of the file of a module. -/
theorem cleaned_join_parent {module : String} (hmodule : Source.IsDotted module)
    (hext : IsExtension extension) (hpath : ¬ isAbsolute path) :
    cleaned (join (parent (ofModule module extension)) path) =
      ((Text.split '/' path).foldl goAlong (Text.split '.' module).dropLast.reverse).reverse := by
  have hdir : ∀ n ∈ (Text.split '.' module).dropLast, IsEntry n := fun n hn =>
    isEntry_of_mem_split hmodule n ((List.dropLast_sublist _).subset hn)
  rw [parent_ofModule hmodule hext, cleaned]
  by_cases hne : (Text.split '.' module).dropLast = []
  · rw [hne, String.intercalate_nil, join_empty, List.reverse_nil]
  · rw [split_join (intercalate_ne_empty hne hdir) (getLast?_intercalate hdir) hpath,
      split_intercalate hne hdir, List.foldl_append, foldl_goAlong_entries hdir, List.append_nil]

end Path

namespace TypeScript

open Adl.Path

variable {source target module path : String}

/-! ### Going back -/

/-- The segments that go back a number of directories. -/
def ascent (n : Nat) : List String := if n = 0 then ["."] else List.replicate n ".."

theorem upwards_succ (n : Nat) : upwards (n + 1) = ".." ++ "/" ++ upwards n := by
  rw [upwards, List.replicate_succ, String.join_cons]
  rfl

theorem split_ascent (n : Nat) (path : String) :
    Text.split '/' ((if n = 0 then "./" else upwards n) ++ path) =
      ascent n ++ Text.split '/' path := by
  have hup : ∀ k, Text.split '/' (upwards k ++ path) =
      List.replicate k ".." ++ Text.split '/' path := by
    intro k
    induction k with
    | zero => rw [upwards, List.replicate_zero, String.join_nil, String.empty_append]; rfl
    | succ k ih =>
      rw [upwards_succ, String.append_assoc, Text.split_append (by decide), ih,
        Text.split_of_notMem (by decide), List.replicate_succ]
      rfl
  unfold ascent
  split
  · rw [show "./" = "." ++ "/" from by decide, Text.split_append (by decide),
      Text.split_of_notMem (by decide)]
  · exact hup n

/-- What begins by going back, if only to the same directory, is a relative path. -/
theorem isRelative_ascent (n : Nat) (path : String) :
    IsRelative ((if n = 0 then "./" else upwards n) ++ path) := by
  cases n with
  | zero => exact ⟨path, .inl rfl⟩
  | succ n =>
    refine ⟨upwards n ++ path, .inr ?_⟩
    rw [if_neg n.succ_ne_zero, upwards_succ, String.append_assoc]
    rfl

theorem not_isAbsolute_of_isRelative (h : IsRelative path) : ¬ isAbsolute path := by
  obtain ⟨rest, rfl | rfl⟩ := h <;> simp [isAbsolute]

theorem foldl_goAlong_ascent {stack : List String} (h : ∀ n ∈ stack, IsEntry n) {n : Nat}
    (hn : n ≤ stack.length) : (ascent n).foldl goAlong stack = stack.drop n := by
  unfold ascent
  split
  · next hzero => rw [hzero]; rfl
  · exact foldl_goAlong_back h hn

theorem count_ascent (n : Nat) : (ascent n).count ".." = n := by
  unfold ascent
  split
  · next hzero => rw [hzero]; decide
  · exact List.count_replicate_self

/-! ### Imports -/

theorem commonLength_le (as bs : List String) : commonLength as bs ≤ as.length := by
  fun_induction commonLength as bs with
  | case1 a as bs ih => simpa using ih
  | case2 => exact Nat.zero_le _
  | case3 => exact Nat.zero_le _

/-- Two lists agree as far as they have items in common. -/
theorem take_eq_take_of_le {n : Nat} (as bs : List String) (hn : n ≤ commonLength as bs) :
    as.take n = bs.take n := by
  fun_induction commonLength as bs generalizing n with
  | case1 a as bs ih =>
    cases n with
    | zero => rfl
    | succ n => rw [List.take_succ_cons, List.take_succ_cons, ih (Nat.le_of_succ_le_succ hn)]
  | case2 => rw [Nat.le_zero.mp hn, List.take_zero, List.take_zero]
  | case3 => rw [Nat.le_zero.mp hn, List.take_zero, List.take_zero]

/-- The number of directories that the units of two modules have in common. -/
def sharedDepth (source target : String) : Nat :=
  min (commonLength (Text.split '.' source).dropLast (Text.split '.' target))
    ((Text.split '.' target).length - 1)

theorem relativeImport_eq (source target : String) :
    relativeImport source target =
      (if (Text.split '.' source).dropLast.length - sharedDepth source target = 0 then "./"
        else upwards ((Text.split '.' source).dropLast.length - sharedDepth source target)) ++
      "/".intercalate ((Text.split '.' target).drop (sharedDepth source target)) := rfl

theorem isRelative_relativeImport (source target : String) :
    IsRelative (relativeImport source target) := isRelative_ascent _ _

/-- An import goes back to the last directory that the two units share, and on from there. -/
theorem split_relativeImport (source : String) (htarget : Source.IsDotted target) :
    Text.split '/' (relativeImport source target) =
      ascent ((Text.split '.' source).dropLast.length - sharedDepth source target) ++
        (Text.split '.' target).drop (sharedDepth source target) := by
  have hne : (Text.split '.' target).drop (sharedDepth source target) ≠ [] := by
    have hlength := List.length_pos_of_ne_nil (Text.split_ne_nil '.' target)
    rw [Ne, List.drop_eq_nil_iff, sharedDepth]
    omega
  have hentries : ∀ n ∈ (Text.split '.' target).drop (sharedDepth source target), IsEntry n :=
    fun n hn => isEntry_of_mem_split htarget n (List.mem_of_mem_drop hn)
  rw [relativeImport_eq, split_ascent, split_intercalate hne hentries]

/-- An import leads to the parts of the name of the imported module. -/
theorem cleaned_relativeImport {extension : String} (hsource : Source.IsDotted source)
    (htarget : Source.IsDotted target) (hext : IsExtension extension) :
    cleaned (join (parent (ofModule source extension)) (relativeImport source target)) =
      Text.split '.' target := by
  have hdir : ∀ n ∈ (Text.split '.' source).dropLast, IsEntry n := fun n hn =>
    isEntry_of_mem_split hsource n ((List.dropLast_sublist _).subset hn)
  have hshared : sharedDepth source target ≤ (Text.split '.' source).dropLast.length :=
    (Nat.min_le_left _ _).trans (commonLength_le _ _)
  -- the directories that are left are those that the two modules share
  have hleft : (Text.split '.' source).dropLast.reverse.drop
      ((Text.split '.' source).dropLast.length - sharedDepth source target) =
      ((Text.split '.' target).take (sharedDepth source target)).reverse := by
    have htake : (Text.split '.' source).dropLast.take (sharedDepth source target) =
        (Text.split '.' target).take (sharedDepth source target) :=
      take_eq_take_of_le _ _ (Nat.min_le_left _ _)
    rw [List.drop_reverse, Nat.sub_sub_self hshared, htake]
  have hrest : ∀ n ∈ (Text.split '.' target).drop (sharedDepth source target), IsEntry n :=
    fun n hn => isEntry_of_mem_split htarget n (List.mem_of_mem_drop hn)
  have hrelative := not_isAbsolute_of_isRelative (isRelative_relativeImport source target)
  rw [cleaned_join_parent hsource hext hrelative, split_relativeImport source htarget,
    List.foldl_append,
    foldl_goAlong_ascent (fun n hn => hdir n (List.mem_reverse.mp hn))
      (by rw [List.length_reverse]; exact Nat.sub_le _ _),
    hleft, foldl_goAlong_entries hrest, List.reverse_append, List.reverse_reverse,
    List.reverse_reverse, List.take_append_drop]

/-- An import goes back from as many directories as the two units do not share. -/
theorem count_relativeImport (source : String) (htarget : Source.IsDotted target) :
    (Text.split '/' (relativeImport source target)).count ".." =
      (Text.split '.' source).length - 1 - sharedDepth source target := by
  have hzero : ((Text.split '.' target).drop (sharedDepth source target)).count ".." = 0 := by
    refine List.count_eq_zero.mpr fun hmem => ?_
    exact (isEntry_of_mem_split htarget _ (List.mem_of_mem_drop hmem)).ne_around rfl
  rw [split_relativeImport source htarget, List.count_append, count_ascent, hzero,
    List.length_dropLast, Nat.add_zero]

/-! ### Paths below the output directory -/

theorem isRelative_relativeToRoot (module path : String) :
    IsRelative (relativeToRoot module path) := isRelative_ascent _ _

/-- A path from the unit of a module to a file goes back to the output directory first. -/
theorem split_relativeToRoot (module path : String) :
    Text.split '/' (relativeToRoot module path) =
      ascent ((Text.split '.' module).length - 1) ++ Text.split '/' path := split_ascent _ _

/-- A path from the unit of a module to a file leads where it leads from the output directory. -/
theorem cleaned_relativeToRoot {extension : String} (hmodule : Source.IsDotted module)
    (hext : IsExtension extension) (path : String) :
    cleaned (join (parent (ofModule module extension)) (relativeToRoot module path)) =
      cleaned path := by
  have hdir : ∀ n ∈ (Text.split '.' module).dropLast.reverse, IsEntry n := fun n hn =>
    isEntry_of_mem_split hmodule n
      ((List.dropLast_sublist _).subset (List.mem_reverse.mp hn))
  have hlength : (Text.split '.' module).dropLast.reverse.length =
      (Text.split '.' module).length - 1 := by
    rw [List.length_reverse, List.length_dropLast]
  have hrelative := not_isAbsolute_of_isRelative (isRelative_relativeToRoot module path)
  rw [cleaned_join_parent hmodule hext hrelative, split_relativeToRoot, List.foldl_append,
    foldl_goAlong_ascent hdir hlength.ge, ← hlength,
    List.drop_length, cleaned]

theorem isExtension_extension (t : Target) : IsExtension t.extension := by
  cases t <;> exact ⟨by decide, by decide, by decide⟩

/-- From the directory of the unit of a module, an import leads to the file of the imported module,
and the path of a file below the output directory leads to this file; each says that it starts
where it stands, and goes back no further than to the output directory. -/
theorem relativePaths_laws (hsource : Source.IsDotted source) :
    (∀ target, Source.IsDotted target →
      "/".intercalate (cleaned (join (parent (ofModule source Target.typescript.extension))
          (relativeImport source target))) ++ "." ++ Target.typescript.extension =
        ofModule target Target.typescript.extension ∧
      (Text.split '/' (relativeImport source target)).count ".." ≤
        (Text.split '.' source).length - 1 ∧
      IsRelative (relativeImport source target)) ∧
    ∀ path, ".." ∉ Text.split '/' path →
      cleaned (join (parent (ofModule source Target.typescript.extension))
          (relativeToRoot source path)) =
        (Text.split '/' path).filter (fun s => s ≠ "" ∧ s ≠ ".") ∧
      (Text.split '/' (relativeToRoot source path)).count ".." =
        (Text.split '.' source).length - 1 ∧
      IsRelative (relativeToRoot source path) := by
  have hext := isExtension_extension .typescript
  refine ⟨fun target htarget => ⟨?_, ?_, isRelative_relativeImport source target⟩,
    fun path hpath => ⟨?_, ?_, isRelative_relativeToRoot source path⟩⟩
  · rw [cleaned_relativeImport hsource htarget hext, ofModule_eq_append htarget hext.ne_empty]
  · rw [count_relativeImport source htarget]
    exact Nat.sub_le _ _
  · rw [cleaned_relativeToRoot hsource hext, cleaned_of_notMem hpath]
  · rw [split_relativeToRoot, List.count_append, count_ascent, List.count_eq_zero.mpr hpath,
      Nat.add_zero]

/-- A module that is imported from below its own name: one step back, and its file. -/
theorem relativePaths_laws_enclosing :
    relativeImport "a.b.c" "a.b" = "../b" ∧
      "/".intercalate (cleaned (join (parent (ofModule "a.b.c" "ts")) "../b")) ++ "." ++ "ts" =
        ofModule "a.b" "ts" ∧
      cleaned (join (parent (ofModule "a.b.c" "ts")) (relativeToRoot "a.b.c" "runtime/adl")) =
        ["runtime", "adl"] := by
  have hinner : Source.IsDotted "a.b.c" := ⟨["a", "b", "c"], by decide, by decide, by decide⟩
  have houter : Source.IsDotted "a.b" := ⟨["a", "b"], by decide, by decide, by decide⟩
  have himport : relativeImport "a.b.c" "a.b" = "../b" := by decide
  obtain ⟨himports, hpaths⟩ := relativePaths_laws hinner
  refine ⟨himport, ?_, ?_⟩
  · have hleads := (himports "a.b" houter).1
    rwa [himport] at hleads
  · have hleads := (hpaths "runtime/adl" (by decide)).1
    exact hleads.trans (by decide)

end TypeScript

end Adl
