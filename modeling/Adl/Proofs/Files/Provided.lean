import Adl.Files.Loader
import Adl.Proofs.Files.Located
import Mathlib.Data.List.Perm.Subperm

/-!
# Provided — the modules that a tree of files provides

The text of a module is that of the first file of its name on the search path, or that of the
prelude if there is no such file (`Supplied`).  A module is provided under a name if this text
writes it and it declares the name (`Provides`).  The text determines the module, so there are at
most as many provided modules as files and texts of the prelude (`length_le_of_provided`).
-/

namespace Adl

/-! ### What is provided -/

section

variable (t : Tree) (searchPath : List String)

/-- The loader that reads the files of a tree. -/
abbrev Tree.loader : Loader Id := ⟨t.reader, searchPath⟩

/-- The text of the module of a name, under the label that errors give it. -/
inductive Supplied (name : String) : String → String → Prop
  | file {before after : List String} {directory text : String}
      (hpath : searchPath = before ++ directory :: after)
      (hbefore : ∀ d ∈ before, t.isFile (Path.join d (Path.schemaFile name)) = false)
      (hfile : t.isFile (Path.join directory (Path.schemaFile name)) = true)
      (hread : t.read (Path.join directory (Path.schemaFile name)) = .ok text) :
      Supplied name (Path.join directory (Path.schemaFile name)) text
  | prelude {text : String}
      (hfile : ∀ d ∈ searchPath, t.isFile (Path.join d (Path.schemaFile name)) = false)
      (htext : Prelude.text? name = some text) : Supplied name name text

/-- A module of a name can be found, its text writes it, and it declares the name. -/
def Provides (name : String) (m : Source.Module) : Prop :=
  m.name = name ∧
    ∃ label text, Supplied t searchPath name label text ∧ Source.ofText label text = .ok m

end

variable {t : Tree} {searchPath : List String} {name : String} {m : Source.Module}

/-! ### Finding -/

section

variable {file path : String} {directories : List String}

/-- A file that is found is that of the first directory that has it. -/
theorem exists_of_find_eq_some
    (h : (t.loader searchPath).find file directories = some path) :
    ∃ before directory after, directories = before ++ directory :: after ∧
      (∀ d ∈ before, t.isFile (Path.join d file) = false) ∧
      t.isFile (Path.join directory file) = true ∧ path = Path.join directory file := by
  induction directories with
  | nil => cases h
  | cons d ds ih =>
    replace h : (if t.isFile (Path.join d file) then some (Path.join d file)
      else (t.loader searchPath).find file ds) = some path := h
    by_cases hd : t.isFile (Path.join d file) = true
    · rw [if_pos hd, Option.some.injEq] at h
      exact ⟨[], d, ds, rfl, fun _ h => (List.not_mem_nil h).elim, hd, h.symm⟩
    · rw [if_neg hd] at h
      obtain ⟨before, directory, after, rfl, hbefore, hfile, hpath⟩ := ih h
      refine ⟨d :: before, directory, after, rfl, ?_, hfile, hpath⟩
      exact List.forall_mem_cons.mpr ⟨Bool.not_eq_true _ ▸ hd, hbefore⟩

theorem find_of_append {before after : List String} {directory : String}
    (hdirectories : directories = before ++ directory :: after)
    (hbefore : ∀ d ∈ before, t.isFile (Path.join d file) = false)
    (hfile : t.isFile (Path.join directory file) = true) :
    (t.loader searchPath).find file directories = some (Path.join directory file) := by
  subst hdirectories
  induction before with
  | nil => exact if_pos hfile
  | cons d ds ih =>
    obtain ⟨hd, hds⟩ := List.forall_mem_cons.mp hbefore
    exact (if_neg (Bool.not_eq_true _ ▸ hd)).trans (ih hds)

theorem find_eq_none_iff :
    (t.loader searchPath).find file directories = none ↔
      ∀ d ∈ directories, t.isFile (Path.join d file) = false := by
  induction directories with
  | nil => exact iff_of_true rfl fun _ h => (List.not_mem_nil h).elim
  | cons d ds ih =>
    show (if t.isFile (Path.join d file) then some (Path.join d file)
      else (t.loader searchPath).find file ds) = none ↔ _
    rw [List.forall_mem_cons]
    cases t.isFile (Path.join d file) with
    | true => simp
    | false => simpa using ih

end

/-! ### Reading -/

theorem ofText_label {label label' text : String} (h : Source.ofText label text = .ok m) :
    Source.ofText label' text = .ok m := by
  unfold Source.ofText at h ⊢
  split at h
  · cases h
  · split at h
    · cases h
    · exact h

/-- What is not found is read from the prelude. -/
theorem run_loadModule :
    ((t.loader searchPath).loadModule name).run =
      (match (t.loader searchPath).find (Path.schemaFile name) searchPath with
      | some path =>
        (t.read path).mapError Error.file >>= fun text => Source.ofText path text
      | none =>
        match Prelude.text? name with
        | some text => Source.ofText name text
        | none => .error (.moduleNotFound name) : Except Error Source.Module) := by
  show ExceptT.run (match (t.loader searchPath).find (Path.schemaFile name) searchPath with
    | some path => (t.loader searchPath).loadFile path
    | none => _) = _
  cases (t.loader searchPath).find (Path.schemaFile name) searchPath with
  | none =>
    dsimp only
    cases Prelude.text? name <;> rfl
  | some path => exact run_bind _ _

/-- A module is loaded if a text is supplied that writes it. -/
theorem yields_loadModule_iff :
    Yields ((t.loader searchPath).loadModule name) m ↔
      ∃ label text, Supplied t searchPath name label text ∧ Source.ofText label text = .ok m := by
  rw [Yields, run_loadModule]
  constructor
  · intro h
    split at h
    · next path hpath =>
      obtain ⟨text, hread, hm⟩ := bind_eq_ok_iff.mp h
      obtain ⟨before, directory, after, hsplit, hbefore, hfile, hjoin⟩ :=
        exists_of_find_eq_some hpath
      have hread := mapError_eq_ok_iff.mp hread
      rw [hjoin] at hread
      exact ⟨_, text, .file hsplit hbefore hfile hread, ofText_label hm⟩
    · next hnone =>
      split at h
      · next text htext => exact ⟨name, text, .prelude (find_eq_none_iff.mp hnone) htext, h⟩
      · cases h
  · rintro ⟨label, text, hsupplied, hm⟩
    cases hsupplied with
    | file hpath hbefore hfile hread =>
      rw [find_of_append hpath hbefore hfile]
      exact bind_eq_ok_iff.mpr ⟨text, mapError_eq_ok_iff.mpr hread, hm⟩
    | prelude hfile htext =>
      rw [find_eq_none_iff.mpr hfile]
      dsimp only
      rw [htext]
      exact hm

/-- There is one module of a name. -/
theorem Provides.unique {m' : Source.Module} (h : Provides t searchPath name m)
    (h' : Provides t searchPath name m') : m = m' :=
  (yields_loadModule_iff.mpr h.2).unique (yields_loadModule_iff.mpr h'.2)

theorem ofText_ne_duplicate {label text n : String} :
    Source.ofText label text ≠ .error (.duplicateModule n) := by
  unfold Source.ofText
  split
  · simp
  · split <;> simp

/-- Two modules of one name are no error of reading one of them. -/
theorem failsWith_loadModule (name : String) :
    FailsWith (fun e => ∀ n, e ≠ .duplicateModule n)
      ((t.loader searchPath).loadModule name).run := by
  rw [run_loadModule]
  have htext (label text : String) :
      FailsWith (fun e => ∀ n, e ≠ .duplicateModule n) (Source.ofText label text) := by
    rintro e he n rfl
    exact ofText_ne_duplicate he
  split
  · next path _ =>
    refine FailsWith.bind ?_ (htext path)
    cases t.read path with
    | ok text => exact .pure text
    | error fault => exact .error fun n h => by cases h
  · split
    · exact htext _ _
    · exact .error fun n h => by cases h

/-! ### How many modules there are -/

/-- The name of the module that a text writes. -/
def writtenName (text : String) : Option String := (Source.ofText "" text).toOption.map (·.name)

/-- The names of the modules that the files of a tree and the texts of the prelude write. -/
def writtenNames (t : Tree) : List String :=
  (t.files.filterMap fun file => (String.fromUTF8? file.2).bind writtenName) ++
    Prelude.names

theorem length_writtenNames_le (t : Tree) :
    (writtenNames t).length ≤ t.files.length + Prelude.names.length := by
  rw [writtenNames, List.length_append]
  exact Nat.add_le_add_right (List.length_filterMap_le _ _) _

theorem Provides.mem_writtenNames (h : Provides t searchPath name m) : name ∈ writtenNames t := by
  obtain ⟨hname, label, text, hsupplied, hm⟩ := h
  have hwritten : writtenName text = some name := by
    rw [writtenName, ofText_label hm]
    exact congrArg some hname
  rw [writtenNames, List.mem_append]
  cases hsupplied with
  | file hpath hbefore hfile hread =>
    obtain ⟨place, contents, hmem, htext⟩ := Tree.exists_mem_files_of_read hread
    refine .inl (List.mem_filterMap.mpr ⟨_, hmem, ?_⟩)
    rw [htext]
    exact hwritten
  | prelude hfile htext =>
    unfold Prelude.text? at htext
    split at htext
    · next h => exact .inr (List.mem_singleton.mpr h)
    · cases htext

/-- Names under which modules are provided are no more than the files, and the texts of the
prelude. -/
theorem length_le_of_provided {names : List String} (hnd : names.Nodup)
    (h : ∀ name ∈ names, ∃ m, Provides t searchPath name m) :
    names.length ≤ t.files.length + Prelude.names.length := by
  have hsubset : names ⊆ writtenNames t := fun name hname => by
    obtain ⟨m, hm⟩ := h name hname
    exact hm.mem_writtenNames
  exact Nat.le_trans (List.subperm_of_subset hnd hsubset).length_le (length_writtenNames_le t)

end Adl
