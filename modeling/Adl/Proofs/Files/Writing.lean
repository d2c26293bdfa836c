import Adl.Command.Run
import Adl.Proofs.Files.Places

/-!
# Writing — files that are written below a directory

Making a directory with those on the way to it, and writing a file into it, leave all other files as
they are, and directories stay (`Adds`).  So units that are written one after the other below a
directory are all there in the end, where none of them stands on the way to another one
(`turns_writeUnits`).  A unit with too long a name or path is not written
(`short_of_turns_writeUnits`).
-/

namespace Adl

/-! ### Paths below a directory -/

namespace Path

variable {base : String} {names names' stem : List String}

/-- The path of names below a directory. -/
def below (base : String) (names : List String) : String := join base ("/".intercalate names)

theorem split_below (hstem : IsStem base stem) (hne : names ≠ []) (h : ∀ n ∈ names, IsEntry n) :
    Text.split '/' (below base names) = stem ++ names := by
  rw [below, hstem.split_join _ (not_isAbsolute_intercalate h), split_intercalate hne h]

theorem below_eq_intercalate (hstem : IsStem base stem) (hne : names ≠ [])
    (h : ∀ n ∈ names, IsEntry n) : below base names = "/".intercalate (stem ++ names) := by
  rw [← split_below hstem hne h, Text.intercalate_split (by decide)]

/-- The directory of a path below a directory. -/
theorem parent_below {name : String} (hstem : IsStem base stem) (hne : names ≠ [])
    (h : ∀ n ∈ names ++ [name], IsEntry n) :
    parent (below base (names ++ [name])) = below base names := by
  rw [parent, split_below hstem (List.concat_ne_nil _ _) h, ← List.append_assoc,
    List.dropLast_concat, below_eq_intercalate hstem hne (List.forall_mem_append.mp h).1]

/-- What stands before the names in a path below a directory. -/
theorem exists_below_eq (base : String) : ∃ mark, (mark = "" ∨ mark = "/") ∧
    ∀ names, (∀ n ∈ names, IsEntry n) →
      below base names = base ++ mark ++ "/".intercalate names := by
  by_cases hend : base.isEmpty ∨ base.toList.getLast? = some '/'
  · refine ⟨"", .inl rfl, fun names h => ?_⟩
    rw [below, join, if_neg (not_isAbsolute_intercalate h), if_pos hend, String.append_empty]
  · refine ⟨"/", .inr rfl, fun names h => ?_⟩
    rw [below, join, if_neg (not_isAbsolute_intercalate h), if_neg hend]

theorem size_intercalate_le (names rest : List String) :
    ("/".intercalate names).utf8ByteSize ≤ ("/".intercalate (names ++ rest)).utf8ByteSize := by
  induction rest using List.reverseRecOn with
  | nil => rw [List.append_nil]
  | append_singleton rest name ih =>
    rw [← List.append_assoc]
    by_cases hne : names ++ rest = []
    · rw [(List.append_eq_nil_iff.mp hne).1]
      exact Nat.zero_le _
    · rw [intercalate_concat hne, String.utf8ByteSize_append, String.utf8ByteSize_append]
      omega

theorem size_below_le (hpre : names' <+: names) (h : ∀ n ∈ names, IsEntry n) :
    (below base names').utf8ByteSize ≤ (below base names).utf8ByteSize := by
  obtain ⟨rest, rfl⟩ := hpre
  obtain ⟨mark, -, hbelow⟩ := exists_below_eq base
  rw [hbelow _ h, hbelow _ (List.forall_mem_append.mp h).1]
  simp only [String.utf8ByteSize_append]
  exact Nat.add_le_add_left (size_intercalate_le names' rest) _

theorem below_ne_empty (hne : base ≠ "") (h : ∀ n ∈ names, IsEntry n) : below base names ≠ "" := by
  obtain ⟨mark, -, hbelow⟩ := exists_below_eq base
  rw [hbelow names h]
  simp [hne]

theorem nul_notMem_intercalate (h : ∀ n ∈ names, IsEntry n) :
    '\x00' ∉ ("/".intercalate names).toList := by
  induction names using List.reverseRecOn with
  | nil => simp
  | append_singleton names name ih =>
    obtain ⟨hnames, hname⟩ := List.forall_mem_append.mp h
    have hnul := (List.forall_mem_singleton.mp hname).nul_notMem
    by_cases hne : names = []
    · rwa [hne, List.nil_append, String.intercalate_singleton]
    · simp only [intercalate_concat hne, String.toList_append, List.mem_append, not_or]
      exact ⟨⟨ih hnames, by decide⟩, hnul⟩

end Path

namespace Tree

open Adl.Path

variable {t t' t'' : Tree} {base name : String} {names stem : List String} {place : Place}
  {p : Position}

theorem start_below (hne : base ≠ "") (h : ∀ n ∈ names, IsEntry n) :
    t.start (below base names) = t.start base := by
  obtain ⟨mark, -, hbelow⟩ := exists_below_eq base
  obtain ⟨c, cs, hcs⟩ := List.exists_cons_of_ne_nil
    (fun hnil => hne (String.toList_eq_nil_iff.mp hnil))
  have habsolute : isAbsolute (below base names) = isAbsolute base := by
    simp [isAbsolute, hbelow names h, hcs]
  rw [start, start, habsolute]

/-- A path below a directory is followed from there. -/
theorem locate_below (hstem : IsStem base stem) (hbase : t.locate base = .ok p) (hne : names ≠ [])
    (h : ∀ n ∈ names, IsEntry n) (hsize : (below base names).utf8ByteSize ≤ longestPath) :
    t.locate (below base names) = names.foldlM Position.follow p := by
  obtain ⟨hnul, hbase_ne, -, hfollow⟩ := locate_eq_ok_iff.mp hbase
  obtain ⟨mark, hmark, hbelow⟩ := exists_below_eq base
  have hnul' : '\x00' ∉ (below base names).toList := by
    simp only [hbelow names h, String.toList_append, List.mem_append, not_or]
    refine ⟨⟨hnul, ?_⟩, nul_notMem_intercalate h⟩
    rcases hmark with rfl | rfl <;> decide
  have hstart : stem.foldlM Position.follow (t.start base) = .ok p := by
    rcases hstem.split_eq with hsplit | hsplit
    · rw [← hsplit, hfollow]
    · -- the last segment is empty and leads nowhere else
      rw [hsplit, List.foldlM_append] at hfollow
      obtain ⟨q, hq, hlast⟩ := bind_eq_ok_iff.mp hfollow
      rw [List.foldlM_cons] at hlast
      obtain ⟨r, hr, hend⟩ := bind_eq_ok_iff.mp hlast
      rw [List.foldlM_nil, pure_eq_ok_iff] at hend
      subst hend
      suffices hsame : q = r from hsame ▸ hq
      unfold Position.follow at hr
      split at hr
      · cases hr
      · cases hr
      · rw [if_pos (.inl rfl)] at hr
        exact Except.ok.inj hr
  rw [locate_eq_of_size hnul' (below_ne_empty hbase_ne h) hsize, start_below hbase_ne h,
    split_below hstem hne h, List.foldlM_append, hstart]
  rfl

/-! ### What is added -/

/-- Files have been added, with the directories on the way to them: files and directories stay as
they are, and what is new below a place is on the way to one of the paths. -/
structure Adds (place : Place) (paths : List (List String)) (files : List (Place × ByteArray))
    (t t' : Tree) : Prop where
  hasDirectory : ∀ place, t.HasDirectory place → t'.HasDirectory place
  hasFile_iff : ∀ place contents,
    t'.HasFile place contents ↔ t.HasFile place contents ∨ (place, contents) ∈ files
  found : ∀ rest, (∀ n ∈ rest, IsEntry n) → t'.find? (place ++ rest) ≠ none →
    t.find? (place ++ rest) ≠ none ∨ ∃ path ∈ paths, rest <+: path

theorem Adds.refl (place : Place) (t : Tree) : Adds place [] [] t t where
  hasDirectory _ h := h
  hasFile_iff _ _ := by simp
  found _ _ h := .inl h

theorem Adds.trans {paths paths' : List (List String)} {files files' : List (Place × ByteArray)}
    (h : Adds place paths files t t') (h' : Adds place paths' files' t' t'') :
    Adds place (paths ++ paths') (files ++ files') t t'' where
  hasDirectory _ hdir := h'.hasDirectory _ (h.hasDirectory _ hdir)
  hasFile_iff _ _ := by rw [h'.hasFile_iff, h.hasFile_iff, List.mem_append, or_assoc]
  found rest hrest hfound := by
    rcases h'.found rest hrest hfound with hold | ⟨path, hpath, hpre⟩
    · refine (h.found rest hrest hold).imp_right ?_
      rintro ⟨path, hpath, hpre⟩
      exact ⟨path, List.mem_append_left _ hpath, hpre⟩
    · exact .inr ⟨path, List.mem_append_right _ hpath, hpre⟩

/-- Something is added in a directory that has been added. -/
theorem Adds.trans_concat {files : List (Place × ByteArray)} (h : Adds place [names] [] t t')
    (h' : Adds place [names ++ [name]] files t' t'') :
    Adds place [names ++ [name]] files t t'' where
  hasDirectory := (h.trans h').hasDirectory
  hasFile_iff := (h.trans h').hasFile_iff
  found rest hrest hfound := by
    refine ((h.trans h').found rest hrest hfound).imp_right ?_
    rintro ⟨path, hpath, hpre⟩
    refine ⟨names ++ [name], List.mem_singleton_self _, ?_⟩
    rcases List.mem_append.mp hpath with hpath | hpath
    · exact (List.mem_singleton.mp hpath ▸ hpre).trans (List.prefix_append _ _)
    · exact List.mem_singleton.mp hpath ▸ hpre

theorem find?_empty_eq_none (hne : names ≠ []) (h : ∀ n ∈ names, IsEntry n) :
    empty.find? names = none := by
  cases names with
  | nil => exact absurd rfl hne
  | cons n ns =>
    obtain ⟨hn, -⟩ := List.forall_mem_cons.mp h
    have hroot : n ≠ root := by
      rintro rfl
      exact hn.slash_notMem (by decide)
    simp [find?, child?, empty, hn.ne_around, hroot]

theorem Vacant.adds_directory (h : t.Vacant (place ++ names)) :
    Adds place [names] [] t (t.put (place ++ names) empty) where
  hasDirectory _ hdir := h.hasDirectory_put _ hdir
  hasFile_iff place' contents := by
    rw [h.hasFile_put_iff, or_iff_left List.not_mem_nil]
    exact or_iff_left fun ⟨rest, _, hfile⟩ => find?_empty_ne_file rest hfile
  found rest hrest hfound := by
    refine (h.ne_none_of_find?_put hfound).imp_right ?_
    rintro ⟨rest', heq, hfound'⟩
    rw [List.append_assoc, List.append_cancel_left_eq] at heq
    obtain rfl : rest' = [] := by
      by_contra hne
      refine hfound' (find?_empty_eq_none hne fun n hn => hrest n ?_)
      rw [heq]
      exact List.mem_append_right _ hn
    rw [List.append_nil] at heq
    exact ⟨names, List.mem_singleton_self _, heq ▸ List.prefix_rfl⟩

/-- Nothing is inside a file. -/
theorem eq_nil_of_find?_file {contents : ByteArray} {rest : Place}
    (h : (file contents).find? rest ≠ none) : rest = [] := by
  cases rest with
  | nil => rfl
  | cons name rest => exact absurd rfl h

theorem Vacant.adds_file (h : t.Vacant (place ++ names)) (contents : ByteArray) :
    Adds place [names] [(place ++ names, contents)] t (t.put (place ++ names) (file contents)) where
  hasDirectory _ hdir := h.hasDirectory_put _ hdir
  hasFile_iff place' contents' := by
    rw [h.hasFile_put_iff, List.mem_singleton, Prod.mk.injEq]
    refine or_congr_right ⟨?_, ?_⟩
    · rintro ⟨rest, rfl, hfile⟩
      obtain rfl := eq_nil_of_find?_file (hfile ▸ Option.some_ne_none _)
      cases hfile
      exact ⟨List.append_nil _, rfl⟩
    · rintro ⟨rfl, rfl⟩
      exact ⟨[], (List.append_nil _).symm, rfl⟩
  found rest hrest hfound := by
    refine (h.ne_none_of_find?_put hfound).imp_right ?_
    rintro ⟨rest', heq, hfound'⟩
    obtain rfl := eq_nil_of_find?_file hfound'
    rw [List.append_nil, List.append_cancel_left_eq] at heq
    exact ⟨names, List.mem_singleton_self _, heq ▸ List.prefix_rfl⟩

/-! ### Running actions -/

/-- The result of an action on a tree, and the tree that it leaves. -/
def runOn {ε : Type} (x : ExceptT ε (StateM Tree) Unit) (t : Tree) : Except ε Unit × Tree :=
  x.run.run t

/-- An action on a tree succeeds and leaves another tree. -/
def Turns {ε : Type} (x : ExceptT ε (StateM Tree) Unit) (t t' : Tree) : Prop :=
  runOn x t = (.ok (), t')

theorem run_change (f : Tree → Except FileFault Tree) (t : Tree) :
    runOn (change f) t =
      match f t with
      | .ok t' => (.ok (), t')
      | .error fault => (.error fault, t) := by
  have hrun : runOn (change f) t = runOn (match f t with
      | .ok t => set t
      | .error fault => throw fault) t := rfl
  rw [hrun]
  cases f t <;> rfl

section

variable {ε ε' : Type} {x y : ExceptT ε (StateM Tree) Unit}

theorem run_tryCatch (x : ExceptT ε (StateM Tree) Unit)
    (handle : ε → ExceptT ε (StateM Tree) Unit) (t : Tree) :
    runOn (tryCatch x handle) t =
      match runOn x t with
      | (.ok (), t') => (.ok (), t')
      | (.error e, t') => runOn (handle e) t' := by
  have hrun : runOn (tryCatch x handle) t = (ExceptT.tryCatch x handle).run.run t := rfl
  rw [hrun, ExceptT.tryCatch, ExceptT.run_mk, StateT.run_bind]
  unfold runOn
  change (StateT.run x.run t >>= _) = _
  rcases StateT.run x.run t with ⟨_ | _, t'⟩ <;> rfl

theorem run_bind_unit (x y : ExceptT ε (StateM Tree) Unit) (t : Tree) :
    runOn (x >>= fun _ => y) t =
      match runOn x t with
      | (.ok (), t') => runOn y t'
      | (.error e, t') => (.error e, t') := by
  have hrun : runOn (x >>= fun _ => y) t =
      (ExceptT.bindCont (fun _ => y) (runOn x t).1).run (runOn x t).2 := rfl
  rw [hrun]
  rcases runOn x t with ⟨_ | _, t'⟩ <;> rfl

theorem turns_bind_iff :
    Turns (x >>= fun _ => y) t t'' ↔ ∃ t', Turns x t t' ∧ Turns y t' t'' := by
  unfold Turns
  rw [run_bind_unit]
  rcases runOn x t with ⟨_ | _, t'⟩ <;> simp

theorem turns_adapt_iff {f : ε → ε'} : Turns (x.adapt f) t t' ↔ Turns x t t' := by
  have hrun : runOn (x.adapt f) t = ((runOn x t).1.mapError f, (runOn x t).2) := rfl
  unfold Turns
  rw [hrun]
  rcases runOn x t with ⟨_ | _, t'⟩ <;> simp [Except.mapError]

end

theorem turns_change_iff {f : Tree → Except FileFault Tree} :
    Turns (change f) t t' ↔ f t = .ok t' := by
  unfold Turns
  rw [run_change]
  cases f t <;> simp

theorem run_ensureDirectory (path : String) (t : Tree) :
    runOn (stateWriter.ensureDirectory path) t =
      match t.createDirectory path with
      | .ok t' => (.ok (), t')
      | .error fault => if t.isDirectory path then (.ok (), t) else (.error fault, t) := by
  have hcreate : runOn (stateWriter.createDirectory path) t =
      match t.createDirectory path with
      | .ok t' => (.ok (), t')
      | .error fault => (.error fault, t) := run_change _ t
  rw [Writer.ensureDirectory, run_tryCatch, hcreate]
  cases t.createDirectory path with
  | ok t' => rfl
  | error fault =>
    have hrun : runOn (do
        if ← ExceptT.lift (stateWriter.isDirectory path) then return else throw fault) t =
        runOn (if t.isDirectory path then return else throw fault :
          ExceptT FileFault (StateM Tree) Unit) t := rfl
    dsimp only
    rw [hrun]
    split <;> rfl

/-! ### Changes where a path leads -/

section

variable {path : String} {q : Position} {found : Tree} {fault : FileFault}

theorem lookup_of_locate (hq : t.locate path = .ok q) (hhere : q.here = some found) :
    t.lookup path = .ok found := by
  obtain ⟨qnames, around, here⟩ := q
  obtain rfl : here = some found := hhere
  rw [lookup, hq]
  rfl

theorem createDirectory_of_locate (hq : t.locate path = .ok q) :
    t.createDirectory path =
      match q.here with
      | some _ => .error .alreadyExists
      | none => .ok (t.put q.place empty) := by
  obtain ⟨qnames, around, here⟩ := q
  rw [createDirectory, hq]
  cases here <;> rfl

theorem write_of_locate (hq : t.locate path = .ok q) (hhere : q.here = none)
    (contents : ByteArray) : t.write path contents = .ok (t.put q.place (file contents)) := by
  obtain ⟨qnames, around, here⟩ := q
  obtain rfl : here = none := hhere
  rw [write, hq]
  rfl

/-- No directory is made where no path leads. -/
theorem run_ensureDirectory_of_locate (h : t.locate path = .error fault) :
    runOn (stateWriter.ensureDirectory path) t = (.error fault, t) := by
  have hcreate : t.createDirectory path = .error fault := by
    rw [createDirectory, h]
    rfl
  have hlookup : t.lookup path = .error fault := by
    rw [lookup, h]
    rfl
  rw [run_ensureDirectory, hcreate, isDirectory, hlookup]
  rfl

end

/-! ### Making directories -/

section

variable {segment : String} {outer : List String}

theorem turns_createReversed_cons (h : Turns (stateWriter.ensureDirectory
    ("/".intercalate (segment :: outer).reverse)) t t') :
    Turns (stateWriter.createReversed (segment :: outer)) t t' := by
  unfold Turns at h ⊢
  rw [Writer.createReversed, run_tryCatch, h]

/-- If the directory around is missing, it is made first. -/
theorem turns_createReversed_cons_of_missing (hmissing : runOn (stateWriter.ensureDirectory
      ("/".intercalate (segment :: outer).reverse)) t = (.error .notFound, t))
    (houter : Turns (stateWriter.createReversed outer) t t')
    (h : Turns (stateWriter.ensureDirectory ("/".intercalate (segment :: outer).reverse)) t' t'') :
    Turns (stateWriter.createReversed (segment :: outer)) t t'' := by
  unfold Turns
  rw [Writer.createReversed, run_tryCatch, hmissing]
  exact turns_bind_iff.mpr ⟨t', houter, h⟩

end

/-- There is a directory at the end of a path, which is written with these segments. -/
structure Opens (t : Tree) (base : String) (stem : List String) (place : Place) : Prop where
  isStem : IsStem base stem
  leadsTo : t.LeadsTo base place
  hasDirectory : t.HasDirectory place

theorem Opens.mono (h : t.Opens base stem place)
    (hdirs : ∀ place, t.HasDirectory place → t'.HasDirectory place) :
    t'.Opens base stem place :=
  ⟨h.isStem, h.leadsTo.mono hdirs, hdirs _ h.hasDirectory⟩

/-- Names that can be entered below a directory. -/
structure Fits (base : String) (names : List String) : Prop where
  enterable : ∀ n ∈ names, Enterable n
  size_le : (below base names).utf8ByteSize ≤ longestPath

theorem Fits.isEntry (h : Fits base names) : ∀ n ∈ names, IsEntry n :=
  fun n hn => (h.enterable n hn).isEntry

theorem Fits.of_isPrefix {front : List String} (h : Fits base names) (hpre : front <+: names) :
    Fits base front :=
  ⟨fun n hn => h.enterable n (hpre.subset hn), (size_below_le hpre h.isEntry).trans h.size_le⟩

namespace Opens

variable (hopens : t.Opens base stem place)

include hopens

/-- Names below a directory lead to a place, if there are directories on the way. -/
theorem locate_names (hfits : Fits base (names ++ [name]))
    (hdir : t.HasDirectory (place ++ names)) :
    ∃ q, t.locate (below base (names ++ [name])) = .ok q ∧ q.place = place ++ (names ++ [name]) ∧
      q.here = t.find? (place ++ (names ++ [name])) := by
  obtain ⟨p, hp, rfl⟩ := hopens.leadsTo
  obtain ⟨q, hq, hlocated, hplace⟩ := foldlM_follow_names (located_of_locate hp) hfits.enterable
    fun front hfront hne => by
      have hpre : front <+: names :=
        (List.prefix_concat_iff.mp hfront).resolve_left fun heq => hne (by simpa using heq)
      by_cases heq : front = names
      · exact heq ▸ hdir
      · obtain ⟨entries, hentries⟩ := hdir
        exact hasDirectory_of_isPrefix (hentries ▸ Option.some_ne_none _)
          ((List.prefix_append_right_inj _).mpr hpre) (by simpa using heq)
  refine ⟨q, ?_, hplace, by rw [hlocated.here_eq, hplace]⟩
  rw [locate_below hopens.isStem hp (List.concat_ne_nil _ _) hfits.isEntry hfits.size_le, hq]

theorem locate_missing (hfits : Fits base (names ++ [name]))
    (hfiles : ∀ front, front <+: names ++ [name] → ∀ contents,
      ¬ t.HasFile (place ++ front) contents)
    (hdir : ¬ t.HasDirectory (place ++ names)) :
    t.locate (below base (names ++ [name])) = .error .notFound := by
  obtain ⟨p, hp, rfl⟩ := hopens.leadsTo
  have hpre : names <+: names ++ [name] := List.prefix_append _ _
  have hnone : t.find? (p.place ++ names) = none := by
    cases hfind : t.find? (p.place ++ names) with
    | none => rfl
    | some found =>
      cases found with
      | file contents => exact absurd hfind (hfiles names hpre contents)
      | directory entries => exact absurd ⟨entries, hfind⟩ hdir
  rw [locate_below hopens.isStem hp (List.concat_ne_nil _ _) hfits.isEntry hfits.size_le]
  exact foldlM_follow_missing (located_of_locate hp) hfits.enterable hfiles hpre (by simp) hnone

/-- A directory is there afterwards, if the one around it was there before. -/
theorem turns_ensureDirectory (hfits : Fits base (names ++ [name]))
    (hfile : ∀ contents, ¬ t.HasFile (place ++ (names ++ [name])) contents)
    (hdir : t.HasDirectory (place ++ names)) :
    ∃ t', Turns (stateWriter.ensureDirectory (below base (names ++ [name]))) t t' ∧
      Adds place [names ++ [name]] [] t t' ∧ t'.HasDirectory (place ++ (names ++ [name])) := by
  obtain ⟨q, hq, hplace, hhere⟩ := hopens.locate_names hfits hdir
  have hcreate := createDirectory_of_locate hq
  unfold Turns
  rw [run_ensureDirectory]
  cases hfind : t.find? (place ++ (names ++ [name])) with
  | none =>
    rw [hhere, hfind, hplace] at hcreate
    have hvacant : t.Vacant (place ++ (names ++ [name])) := by
      rw [← List.append_assoc] at hfind ⊢
      exact vacant_concat hdir hfind
    exact ⟨_, by rw [hcreate], hvacant.adds_directory, _, find?_put _ _ _⟩
  | some found =>
    cases found with
    | file contents => exact absurd hfind (hfile contents)
    | directory entries =>
      rw [hhere, hfind] at hcreate
      have hlookup := lookup_of_locate hq (hhere.trans hfind)
      refine ⟨t, ?_, ?_, entries, hfind⟩
      · rw [hcreate, isDirectory, hlookup]
        rfl
      · exact ⟨fun _ h => h, fun _ _ => by simp, fun _ _ h => .inl h⟩

/-- A directory is there afterwards, and those on the way to it. -/
theorem turns_createReversed (hne : names ≠ []) (hfits : Fits base names)
    (hfiles : ∀ front, front <+: names → ∀ contents, ¬ t.HasFile (place ++ front) contents) :
    ∃ t', Turns (stateWriter.createReversed (stem ++ names).reverse) t t' ∧
      Adds place [names] [] t t' ∧ t'.HasDirectory (place ++ names) := by
  induction names using List.reverseRecOn with
  | nil => exact absurd rfl hne
  | append_singleton names name ih =>
    have hreverse : (stem ++ (names ++ [name])).reverse = name :: (stem ++ names).reverse := by
      rw [← List.append_assoc, List.reverse_concat]
    have hpath : "/".intercalate (name :: (stem ++ names).reverse).reverse =
        below base (names ++ [name]) := by
      rw [← hreverse, List.reverse_reverse,
        below_eq_intercalate hopens.isStem (List.concat_ne_nil _ _) hfits.isEntry]
    rw [hreverse]
    have hpre : names <+: names ++ [name] := List.prefix_append _ _
    by_cases hdir : t.HasDirectory (place ++ names)
    · obtain ⟨t', hturns, hadds, hmade⟩ :=
        hopens.turns_ensureDirectory hfits (hfiles _ List.prefix_rfl) hdir
      exact ⟨t', turns_createReversed_cons (hpath.symm ▸ hturns), hadds, hmade⟩
    · have hnames : names ≠ [] := by
        rintro rfl
        rw [List.append_nil] at hdir
        exact hdir hopens.hasDirectory
      have hmissing := run_ensureDirectory_of_locate (hopens.locate_missing hfits hfiles hdir)
      obtain ⟨t', hturns, hadds, hmade⟩ := ih hnames (hfits.of_isPrefix hpre)
        fun front hfront => hfiles front (hfront.trans hpre)
      have hopens' := hopens.mono hadds.hasDirectory
      obtain ⟨t'', hturns', hadds', hmade'⟩ := hopens'.turns_ensureDirectory hfits
        (fun contents hfile => hfiles _ List.prefix_rfl contents
          (by simpa using (hadds.hasFile_iff _ _).mp hfile)) hmade
      rw [← hpath] at hmissing hturns'
      exact ⟨t'', turns_createReversed_cons_of_missing hmissing hturns hturns',
        hadds.trans_concat hadds', hmade'⟩

/-- A file is there afterwards, and the directories on the way to it. -/
theorem turns_writeFile (hne : names ≠ []) (hfits : Fits base (names ++ [name]))
    (hfiles : ∀ front, front <+: names ++ [name] → ∀ contents,
      ¬ t.HasFile (place ++ front) contents)
    (hnone : t.find? (place ++ (names ++ [name])) = none) (text : String) :
    ∃ t', Turns (do
        stateWriter.createDirectories (parent (below base (names ++ [name])))
        stateWriter.write (below base (names ++ [name])) text) t t' ∧
      Adds place [names ++ [name]] [(place ++ (names ++ [name]), text.toUTF8)] t t' := by
  have hpre : names <+: names ++ [name] := List.prefix_append _ _
  have hfits' := hfits.of_isPrefix hpre
  obtain ⟨t', hturns, hadds, hmade⟩ := hopens.turns_createReversed hne hfits'
    fun front hfront => hfiles front (hfront.trans hpre)
  have hdirectories : Turns (stateWriter.createDirectories (below base names)) t t' := by
    have hsplit := split_below hopens.isStem hne hfits'.isEntry
    have hempty : below base names ≠ "" := by
      obtain ⟨p, hp, -⟩ := hopens.leadsTo
      exact below_ne_empty (locate_eq_ok_iff.mp hp).2.1 hfits'.isEntry
    rw [Writer.createDirectories, if_neg fun h => hempty (String.isEmpty_iff.mp h), hsplit]
    exact hturns
  have hopens' := hopens.mono hadds.hasDirectory
  obtain ⟨q, hq, hplace, hhere⟩ := hopens'.locate_names hfits hmade
  have hnone' : t'.find? (place ++ (names ++ [name])) = none := by
    by_contra hfound
    rcases hadds.found _ hfits.isEntry hfound with hold | ⟨path, hmem, hprefix⟩
    · exact hold hnone
    · have hlength := (List.mem_singleton.mp hmem ▸ hprefix).length_le
      rw [List.length_append, List.length_singleton] at hlength
      omega
  have hvacant : t'.Vacant (place ++ (names ++ [name])) := by
    rw [← List.append_assoc] at hnone' ⊢
    exact vacant_concat hmade hnone'
  have hwrite := write_of_locate hq (hhere.trans hnone') text.toUTF8
  rw [hplace] at hwrite
  refine ⟨t'.put (place ++ (names ++ [name])) (file text.toUTF8), ?_,
    hadds.trans_concat (hvacant.adds_file text.toUTF8)⟩
  rw [parent_below hopens.isStem hne hfits.isEntry]
  exact turns_bind_iff.mpr ⟨t', hdirectories, turns_change_iff.mpr hwrite⟩

end Opens

/-- The file at a place is read again. -/
theorem Opens.read_of_hasFile (hopens : t.Opens base stem place)
    (hfits : Fits base (names ++ [name])) {text : String}
    (hfile : t.HasFile (place ++ (names ++ [name])) text.toUTF8) :
    t.read (below base (names ++ [name])) = .ok text := by
  have hfound : t.find? (place ++ (names ++ [name])) ≠ none := hfile ▸ Option.some_ne_none _
  have hdir : t.HasDirectory (place ++ names) := by
    refine hasDirectory_of_isPrefix hfound ?_ (by simp)
    rw [← List.append_assoc]
    exact List.prefix_append _ _
  obtain ⟨q, hq, -, hhere⟩ := hopens.locate_names hfits hdir
  have htext : String.fromUTF8? text.toUTF8 = some text := by
    have hvalid : text.toUTF8.IsValidUTF8 := text.isValidUTF8
    rw [String.fromUTF8?, dif_pos hvalid]
    rfl
  rw [read, lookup_of_locate hq (hhere.trans hfile)]
  dsimp only [bind, Except.bind]
  rw [htext]
  rfl

/-! ### Places that are free -/

/-- Nothing is at the end of some names below a place, and no file is on the way there. -/
structure FreeAt (t : Tree) (place : Place) (names : List String) : Prop where
  find?_eq : t.find? (place ++ names) = none
  not_hasFile : ∀ front, front <+: names → ∀ contents, ¬ t.HasFile (place ++ front) contents

/-- In an empty directory, all places are free. -/
theorem freeAt_of_empty (h : t.find? place = some empty) (hne : names ≠ [])
    (hentries : ∀ n ∈ names, IsEntry n) : t.FreeAt place names where
  find?_eq := by rw [find?_append, h, Option.bind_some, find?_empty_eq_none hne hentries]
  not_hasFile front _ contents := by
    rw [HasFile, find?_append, h, Option.bind_some]
    exact find?_empty_ne_file front

/-- A place stays free if what is added is not on the way to it, nor it on the way there. -/
theorem FreeAt.of_adds {added : List String} {contents : ByteArray} (h : t.FreeAt place names)
    (hadds : Adds place [added] [(place ++ added, contents)] t t')
    (hentries : ∀ n ∈ names, IsEntry n) (hapart : ¬ added <+: names)
    (hapart' : ¬ names <+: added) : t'.FreeAt place names where
  find?_eq := by
    by_contra hfound
    rcases hadds.found names hentries hfound with hold | ⟨path, hpath, hpre⟩
    · exact hold h.find?_eq
    · exact hapart' (List.mem_singleton.mp hpath ▸ hpre)
  not_hasFile front hfront contents' hfile := by
    rcases (hadds.hasFile_iff _ _).mp hfile with hold | hnew
    · exact h.not_hasFile front hfront contents' hold
    · obtain ⟨heq, -⟩ := Prod.mk.inj (List.mem_singleton.mp hnew)
      exact hapart (List.append_cancel_left heq ▸ hfront)

end Tree

/-! ### Writing units -/

namespace Command

open Adl.Path Target Adl.Tree

/-- A path of at least two names of entries. -/
structure InDirectory (path : String) : Prop where
  isEntry : ∀ n ∈ Text.split '/' path, IsEntry n
  inner : 2 ≤ (Text.split '/' path).length

/-- The names of a path have at most 255 bytes each, and the path joined to that of a directory, the
directory included, has at most 4095. -/
structure Short (base path : String) : Prop where
  names : ∀ n ∈ Text.split '/' path, n.utf8ByteSize ≤ Position.longestName
  path : (join base path).utf8ByteSize ≤ longestPath

/-- Neither of two paths is the other one or leads through it. -/
def Apart (path path' : String) : Prop :=
  ¬ Text.split '/' path <+: Text.split '/' path' ∧ ¬ Text.split '/' path' <+: Text.split '/' path

variable {t t' : Tree} {base path : String} {stem : List String} {place : Place}
  {units : List SourceUnit}

theorem below_split (base path : String) : below base (Text.split '/' path) = join base path := by
  rw [below, Text.intercalate_split (by decide)]

theorem InDirectory.fits (h : InDirectory path) (hshort : Short base path) :
    Fits base (Text.split '/' path) :=
  ⟨fun n hn => ⟨h.isEntry n hn, hshort.names n hn⟩, below_split base path ▸ hshort.path⟩

theorem InDirectory.exists_split (h : InDirectory path) :
    ∃ names name, names ≠ [] ∧ Text.split '/' path = names ++ [name] := by
  have hinner := h.inner
  rcases List.eq_nil_or_concat (Text.split '/' path) with hnil | ⟨names, name, hsplit⟩
  · exact absurd hnil (Text.split_ne_nil _ _)
  · refine ⟨names, name, ?_, hsplit.trans List.concat_eq_append⟩
    rintro rfl
    rw [hsplit] at hinner
    simp at hinner

/-- The file of a unit, at its place. -/
def fileAt (place : Place) (u : SourceUnit) : Place × ByteArray :=
  (place ++ Text.split '/' u.path, u.contents.toUTF8)

/-- Units that are apart are written one after the other into free places. -/
theorem turns_writeUnits (hopens : t.Opens base stem place)
    (hpaths : ∀ u ∈ units, InDirectory u.path) (hshort : ∀ u ∈ units, Short base u.path)
    (hfree : ∀ u ∈ units, t.FreeAt place (Text.split '/' u.path))
    (happart : units.Pairwise fun u v => Apart u.path v.path) :
    ∃ t', Turns (writeUnits stateWriter base units) t t' ∧
      Adds place (units.map fun u => Text.split '/' u.path) (units.map (fileAt place)) t t' := by
  induction units generalizing t with
  | nil => exact ⟨t, rfl, .refl place t⟩
  | cons u units ih =>
    obtain ⟨hu, hpaths⟩ := List.forall_mem_cons.mp hpaths
    obtain ⟨hshort_u, hshort⟩ := List.forall_mem_cons.mp hshort
    obtain ⟨hfree_u, hfree⟩ := List.forall_mem_cons.mp hfree
    obtain ⟨happart_u, happart⟩ := List.pairwise_cons.mp happart
    have hfits := hu.fits hshort_u
    obtain ⟨t₁, hturns, hadds⟩ : ∃ t₁, Turns (do
        stateWriter.createDirectories (parent (join base u.path))
        stateWriter.write (join base u.path) u.contents) t t₁ ∧
        Adds place [Text.split '/' u.path] [fileAt place u] t t₁ := by
      rw [← below_split base u.path, fileAt]
      obtain ⟨names, name, hne, hsplit⟩ := hu.exists_split
      rw [hsplit] at hfits hfree_u ⊢
      exact hopens.turns_writeFile hne hfits hfree_u.not_hasFile hfree_u.find?_eq u.contents
    obtain ⟨t', hturns', hadds'⟩ := ih (hopens.mono hadds.hasDirectory) hpaths hshort
      (fun v hv => (hfree v hv).of_adds hadds (hpaths v hv).isEntry (happart_u v hv).1
        (happart_u v hv).2) happart
    refine ⟨t', ?_, hadds.trans hadds'⟩
    obtain ⟨t₀, hmade, hwritten⟩ := turns_bind_iff.mp hturns
    have hstep : Turns (do
        (stateWriter.createDirectories (parent (join base u.path))).adapt Error.file
        (stateWriter.write (join base u.path) u.contents).adapt Error.file) t t₁ :=
      turns_bind_iff.mpr ⟨t₀, turns_adapt_iff.mpr hmade, turns_adapt_iff.mpr hwritten⟩
    exact turns_bind_iff.mpr ⟨t₁, hstep, hturns'⟩

/-- Units that have been written are read again. -/
theorem read_of_hasFile (hopens : t.Opens base stem place) (hpath : InDirectory path)
    (hshort : Short base path) {text : String}
    (hfile : t.HasFile (place ++ Text.split '/' path) text.toUTF8) :
    t.read (join base path) = .ok text := by
  have hfits := hpath.fits hshort
  obtain ⟨names, name, -, hsplit⟩ := hpath.exists_split
  rw [← below_split base path]
  rw [hsplit] at hfits hfile ⊢
  exact hopens.read_of_hasFile hfits hfile

/-- The names of a path that leads somewhere are not too long. -/
theorem short_of_locate {p : Tree.Position} (hstem : IsStem base stem) (hpath : InDirectory path)
    (h : t.locate (join base path) = .ok p) : Short base path := by
  obtain ⟨-, -, hsize, hfollow⟩ := locate_eq_ok_iff.mp h
  refine ⟨fun n hn => ?_, hsize⟩
  rw [← below_split base path, split_below hstem (Text.split_ne_nil _ _) hpath.isEntry] at hfollow
  exact short_of_foldlM_follow hfollow (List.mem_append_right _ hn) (hpath.isEntry n hn)

/-- Units that have been written were not too long. -/
theorem short_of_turns_writeUnits (hstem : IsStem base stem)
    (hpaths : ∀ u ∈ units, InDirectory u.path)
    (h : Turns (writeUnits stateWriter base units) t t') : ∀ u ∈ units, Short base u.path := by
  induction units generalizing t with
  | nil => exact List.forall_mem_nil _
  | cons u units ih =>
    obtain ⟨hu, hpaths⟩ := List.forall_mem_cons.mp hpaths
    obtain ⟨t₁, hstep, hrest⟩ := turns_bind_iff.mp h
    obtain ⟨t₀, -, hwritten⟩ := turns_bind_iff.mp hstep
    have hwrite := turns_change_iff.mp (turns_adapt_iff.mp hwritten)
    obtain ⟨p, hp, -⟩ := bind_eq_ok_iff.mp hwrite
    exact List.forall_mem_cons.mpr ⟨short_of_locate hstem hu hp, ih hpaths hrest⟩

end Command

end Adl
