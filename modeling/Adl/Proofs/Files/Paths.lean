import Adl.Files.Path
import Adl.Proofs.Source.WellFormed
import Adl.Proofs.Text.Split

/-!
# Paths — the segments of the files of modules

A path of entry names is given by its segments: they are what it splits into, its directory has all
of them but the last, and joining two paths appends them.  The file of a module has the segments of
its name, the last one with the extension (`ofModule_eq`), so it determines the module and the
extension, and it does not lead through the file of another module (`eq_of_entriesOf_isPrefix`).
-/

namespace Adl.Path

variable {path base name segment extension : String} {names : List String} {c : Char}

/-! ### Names of entries -/

/-- A segment that is the name of an entry of a directory. -/
structure IsEntry (segment : String) : Prop where
  ne_empty : segment ≠ ""
  ne_here : segment ≠ "."
  ne_around : segment ≠ ".."
  slash_notMem : '/' ∉ segment.toList
  nul_notMem : '\x00' ∉ segment.toList

/-- A text is the name of an entry if it begins with neither a point nor a slash. -/
theorem isEntry_of_toList {cs : List Char} (h : segment.toList = c :: cs) (hpoint : c ≠ '.')
    (hslash : '/' ∉ segment.toList) (hnul : '\x00' ∉ segment.toList) : IsEntry segment where
  ne_empty := by
    rintro rfl
    cases h
  ne_here := by
    rintro rfl
    exact hpoint (List.cons.inj h).1.symm
  ne_around := by
    rintro rfl
    exact hpoint (List.cons.inj h).1.symm
  slash_notMem := hslash
  nul_notMem := hnul

theorem notMem_of_isName (h : Source.isName name) (hc : ¬ Text.isNameChar c) :
    c ∉ name.toList := by
  obtain ⟨d, ds, hname, hstart, hchars⟩ := Source.isName_iff.mp h
  rw [hname, List.mem_cons, not_or]
  refine ⟨?_, fun hmem => hc (hchars c hmem)⟩
  rintro rfl
  exact hc (by simp [Text.isNameChar, hstart])

/-- An identifier with a text of such characters behind it is the name of an entry. -/
theorem isEntry_append (h : Source.isName name) (other : String) (hslash : '/' ∉ other.toList)
    (hnul : '\x00' ∉ other.toList) : IsEntry (name ++ other) := by
  obtain ⟨d, ds, hname, hstart, -⟩ := Source.isName_iff.mp h
  have hchars : (name ++ other).toList = d :: (ds ++ other.toList) := by
    rw [String.toList_append, hname, List.cons_append]
  refine isEntry_of_toList hchars ?_ ?_ ?_
  · rintro rfl
    exact absurd hstart (by decide)
  · rw [String.toList_append, List.mem_append, not_or]
    exact ⟨notMem_of_isName h (by decide), hslash⟩
  · rw [String.toList_append, List.mem_append, not_or]
    exact ⟨notMem_of_isName h (by decide), hnul⟩

theorem isEntry_of_isName (h : Source.isName name) : IsEntry name := by
  have happend := isEntry_append h "" (by decide) (by decide)
  rwa [String.append_empty] at happend

/-! ### Segments -/

/-- Names of entries are the segments of the path on which they stand. -/
theorem split_intercalate (hne : names ≠ []) (h : ∀ n ∈ names, IsEntry n) :
    Text.split '/' ("/".intercalate names) = names :=
  Text.split_intercalate (by decide) hne fun n hn => (h n hn).slash_notMem

/-- The directory of a path has its segments but the last. -/
theorem parent_intercalate (h : ∀ n ∈ names, IsEntry n) :
    parent ("/".intercalate names) = "/".intercalate names.dropLast := by
  cases names with
  | nil => decide
  | cons n ns => rw [parent, split_intercalate (List.cons_ne_nil n ns) h]

theorem intercalate_concat (hne : names ≠ []) :
    "/".intercalate (names ++ [name]) = "/".intercalate names ++ "/" ++ name := by
  induction names with
  | nil => exact absurd rfl hne
  | cons n ns ih =>
    cases ns with
    | nil =>
      rw [List.singleton_append, String.intercalate_cons_cons, String.intercalate_singleton,
        String.intercalate_singleton]
    | cons n' ns =>
      rw [List.cons_append, List.cons_append, String.intercalate_cons_cons, ← List.cons_append,
        ih (List.cons_ne_nil _ _), String.intercalate_cons_cons]
      simp only [String.append_assoc]

/-- A path of entry names begins with no slash. -/
theorem not_isAbsolute_intercalate (h : ∀ n ∈ names, IsEntry n) :
    ¬ isAbsolute ("/".intercalate names) := by
  rw [isAbsolute, decide_eq_true_eq]
  cases names with
  | nil => simp
  | cons n ns =>
    obtain ⟨hn, -⟩ := List.forall_mem_cons.mp h
    obtain ⟨c, cs, hcs⟩ := List.exists_cons_of_ne_nil
      (fun hnil => hn.ne_empty (String.toList_eq_nil_iff.mp hnil))
    have hc : c ≠ '/' := by
      rintro rfl
      exact hn.slash_notMem (hcs ▸ List.mem_cons_self)
    cases ns with
    | nil => simpa [hcs] using hc
    | cons n' ns => simpa [String.intercalate_cons_cons, hcs] using hc

/-- A path of entry names ends in no slash. -/
theorem getLast?_intercalate (h : ∀ n ∈ names, IsEntry n) :
    ("/".intercalate names).toList.getLast? ≠ some '/' := by
  rcases List.eq_nil_or_concat names with rfl | ⟨front, last, rfl⟩
  · simp
  rw [List.concat_eq_append] at h ⊢
  have hlast : IsEntry last := h last (by simp)
  have hcs : last.toList ≠ [] := fun hnil => hlast.ne_empty (String.toList_eq_nil_iff.mp hnil)
  have hne : last.toList.getLast? ≠ some '/' := fun heq =>
    hlast.slash_notMem (List.mem_of_getLast? heq)
  by_cases hfront : front = []
  · rwa [hfront, List.nil_append, String.intercalate_singleton]
  · rwa [intercalate_concat hfront, String.toList_append, List.getLast?_append_of_ne_nil _ hcs]

theorem intercalate_ne_empty (hne : names ≠ []) (h : ∀ n ∈ names, IsEntry n) :
    "/".intercalate names ≠ "" := by
  intro hempty
  have hsplit := split_intercalate hne h
  rw [hempty] at hsplit
  exact (h "" (hsplit ▸ (by decide))).ne_empty rfl

/-! ### Joined paths -/

theorem join_empty (path : String) : join "" path = path := by
  unfold join
  split
  · rfl
  · simp

/-- The segments of a path below another one are those of the one and of the other. -/
theorem split_join (hbase : base ≠ "") (hlast : base.toList.getLast? ≠ some '/')
    (hpath : ¬ isAbsolute path) :
    Text.split '/' (join base path) = Text.split '/' base ++ Text.split '/' path := by
  have hcond : ¬ (base.isEmpty ∨ base.toList.getLast? = some '/') :=
    not_or.mpr ⟨fun h => hbase (String.isEmpty_iff.mp h), hlast⟩
  rw [join, if_neg hpath, if_neg hcond, Text.split_append (by decide)]

theorem join_intercalate (h : ∀ n ∈ names, IsEntry n) (hname : IsEntry name) :
    join ("/".intercalate names) name = "/".intercalate (names ++ [name]) := by
  have hrelative : ¬ isAbsolute name := by
    have hsingle := not_isAbsolute_intercalate (List.forall_mem_singleton.mpr hname)
    rwa [String.intercalate_singleton] at hsingle
  by_cases hne : names = []
  · rw [hne, String.intercalate_nil, join_empty, List.nil_append, String.intercalate_singleton]
  · have hcond : ¬ (("/".intercalate names).isEmpty ∨
        ("/".intercalate names).toList.getLast? = some '/') :=
      not_or.mpr ⟨fun hempty => intercalate_ne_empty hne h (String.isEmpty_iff.mp hempty),
        getLast?_intercalate h⟩
    rw [join, if_neg hrelative, if_neg hcond, intercalate_concat hne]

theorem foldl_join (done : List String) (h : ∀ n ∈ done ++ names, IsEntry n) :
    names.foldl join ("/".intercalate done) = "/".intercalate (done ++ names) := by
  induction names generalizing done with
  | nil => rw [List.foldl_nil, List.append_nil]
  | cons n ns ih =>
    obtain ⟨hdone, hns⟩ := List.forall_mem_append.mp h
    rw [List.foldl_cons, join_intercalate hdone (hns n List.mem_cons_self),
      ih (done ++ [n]) (by rwa [List.append_assoc]), List.append_assoc, List.singleton_append]

/-- Segments with which the paths below a directory begin. -/
structure IsStem (base : String) (segments : List String) : Prop where
  ne_nil : segments ≠ []
  split_eq : Text.split '/' base = segments ∨ Text.split '/' base = segments ++ [""]
  split_join : ∀ path, ¬ isAbsolute path →
    Text.split '/' (join base path) = segments ++ Text.split '/' path

/-- The paths below a directory begin with its segments, up to a slash at its end. -/
theorem exists_isStem (h : base ≠ "") : ∃ segments, IsStem base segments := by
  by_cases hlast : base.toList.getLast? = some '/'
  · obtain ⟨cs, hcs⟩ := List.getLast?_eq_some_iff.mp hlast
    obtain ⟨front, rfl⟩ : ∃ front : String, base = front ++ "/" := by
      refine ⟨String.ofList cs, String.toList_inj.mp ?_⟩
      rw [hcs, String.toList_append, String.toList_ofList]
      rfl
    refine ⟨Text.split '/' front, Text.split_ne_nil _ _, .inr ?_, fun path hpath => ?_⟩
    · have hsplit : Text.split '/' (front ++ "/" ++ "") = _ :=
        Text.split_append (by decide) front ""
      rwa [String.append_empty] at hsplit
    · rw [join, if_neg hpath, if_pos (.inr hlast), Text.split_append (by decide)]
  · exact ⟨Text.split '/' base, Text.split_ne_nil _ _, .inl rfl,
      fun path hpath => split_join h hlast hpath⟩

/-! ### Files of modules -/

/-- An extension that stands behind a name in an entry. -/
structure IsExtension (extension : String) : Prop where
  ne_empty : extension ≠ ""
  slash_notMem : '/' ∉ extension.toList
  nul_notMem : '\x00' ∉ extension.toList

/-- The segments of the file of a module: those of its name, the last one with the extension. -/
def entriesOf (module extension : String) : List String :=
  let parts := Text.split '.' module
  parts.dropLast ++ [parts.getLastD "" ++ "." ++ extension]

/-- The parts of a dotted name are identifiers. -/
theorem isName_of_mem_split (h : Source.IsDotted name) {part : String}
    (hpart : part ∈ Text.split '.' name) : Source.isName part := by
  obtain ⟨parts, hne, hparts, rfl⟩ := h
  rw [Text.split_intercalate (by decide) hne
    fun p hp => notMem_of_isName (hparts p hp) (by decide)] at hpart
  exact hparts part hpart

theorem split_eq_concat (name : String) :
    Text.split '.' name =
      (Text.split '.' name).dropLast ++ [(Text.split '.' name).getLastD ""] := by
  have hne := Text.split_ne_nil '.' name
  rw [List.getLastD_eq_getLast?, List.getLast?_eq_some_getLast hne, Option.getD_some,
    List.dropLast_append_getLast]

theorem isName_getLastD (h : Source.IsDotted name) :
    Source.isName ((Text.split '.' name).getLastD "") := by
  refine isName_of_mem_split h ?_
  rw [split_eq_concat name]
  simp

theorem isEntry_of_mem_split (h : Source.IsDotted name) :
    ∀ n ∈ Text.split '.' name, IsEntry n :=
  fun _ hn => isEntry_of_isName (isName_of_mem_split h hn)

theorem isEntry_of_mem_entriesOf (h : Source.IsDotted name) (hext : IsExtension extension) :
    ∀ n ∈ entriesOf name extension, IsEntry n := by
  intro n hn
  obtain hn | hn := List.mem_append.mp hn
  · exact isEntry_of_mem_split h n ((List.dropLast_sublist _).subset hn)
  · rw [List.mem_singleton.mp hn, String.append_assoc]
    refine isEntry_append (isName_getLastD h) _ ?_ ?_
    · simpa [String.toList_append] using hext.slash_notMem
    · simpa [String.toList_append] using hext.nul_notMem

/-- The file of a module is that of the parts of its name, with the extension. -/
theorem ofModule_eq_append (h : Source.IsDotted name) (hext : extension ≠ "") :
    ofModule name extension = "/".intercalate (Text.split '.' name) ++ "." ++ extension := by
  have hentries := isEntry_of_mem_split h
  have hne := Text.split_ne_nil '.' name
  have hjoin := foldl_join [] (by rwa [List.nil_append])
  rw [String.intercalate_nil, List.nil_append] at hjoin
  rw [ofModule, withExtension, hjoin, Text.trimEnd_of_getLast? (getLast?_intercalate hentries),
    if_neg fun hempty => intercalate_ne_empty hne hentries (String.isEmpty_iff.mp hempty),
    if_neg fun hempty => hext (String.isEmpty_iff.mp hempty)]

/-- The file of a module stands at the segments of its name, the last one with the extension. -/
theorem ofModule_eq (h : Source.IsDotted name) (hext : extension ≠ "") :
    ofModule name extension = "/".intercalate (entriesOf name extension) := by
  rw [ofModule_eq_append h hext, entriesOf]
  by_cases hfront : (Text.split '.' name).dropLast = []
  · rw [split_eq_concat name, hfront]
    simp
  · rw [intercalate_concat hfront]
    conv_lhs => rw [split_eq_concat name, intercalate_concat hfront]
    simp only [String.append_assoc]

/-- The segments of the directory of the file of a module are those of its name but the last. -/
theorem parent_ofModule (h : Source.IsDotted name) (hext : IsExtension extension) :
    parent (ofModule name extension) = "/".intercalate (Text.split '.' name).dropLast := by
  rw [ofModule_eq h hext.ne_empty, parent_intercalate (isEntry_of_mem_entriesOf h hext),
    entriesOf, List.dropLast_concat]

/-- The file of a module is not, and does not lead through, that of another module or with another
extension. -/
theorem eq_of_entriesOf_isPrefix {name' extension' : String} (h : Source.IsDotted name)
    (h' : Source.IsDotted name')
    (hpre : entriesOf name extension <+: entriesOf name' extension') :
    name = name' ∧ extension = extension' := by
  have hpoint {part : String} (hpart : Source.isName part) : '.' ∉ part.toList :=
    notMem_of_isName hpart (by decide)
  have hjoined (s : String) : ".".intercalate (Text.split '.' s) = s :=
    Text.intercalate_split (by decide) s
  rcases List.prefix_concat_iff.mp hpre with heq | hpre
  · obtain ⟨hfront, hback⟩ := List.append_inj' heq rfl
    have hsplit := congrArg (Text.split '.') (List.singleton_inj.mp hback)
    rw [Text.split_append (by decide), Text.split_append (by decide),
      Text.split_of_notMem (hpoint (isName_getLastD h)),
      Text.split_of_notMem (hpoint (isName_getLastD h'))] at hsplit
    obtain ⟨hlasts, hextensions⟩ := List.append_inj hsplit rfl
    have hparts : Text.split '.' name = Text.split '.' name' := by
      rw [split_eq_concat name, split_eq_concat name', hfront,
        List.singleton_inj.mp hlasts]
    exact ⟨by rw [← hjoined name, hparts, hjoined], by
      rw [← hjoined extension, hextensions, hjoined]⟩
  · -- a segment before the last one is an identifier, which has no point
    have hmem := hpre.subset (List.mem_append_right _ (List.mem_singleton_self _))
    have hname := isName_of_mem_split h' ((List.dropLast_sublist _).subset hmem)
    refine absurd ?_ (hpoint hname)
    simp [String.toList_append]

end Adl.Path
