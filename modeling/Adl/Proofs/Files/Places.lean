import Adl.Proofs.Files.Located
import Adl.Proofs.Files.Paths

/-!
# Places — what changes where a tree is put

Putting a tree at a place of a directory where nothing is leaves everything else as it is: what is
found afterwards was there before, or is found in the new tree (`find?_put_of_not_isPrefix`,
`hasFile_put_iff`).  A path leads to the same place as long as directories stay (`LeadsTo.mono`),
and names behind it are entered one after the other (`foldlM_follow_names`).
-/

namespace Adl.Tree

variable {t t' inner new : Tree} {name other : String} {place place' rest : Place}
  {contents : ByteArray}

/-! ### What is found -/

/-- There is a directory at a place. -/
def HasDirectory (t : Tree) (place : Place) : Prop :=
  ∃ entries, t.find? place = some (directory entries)

/-- There is a file with these contents at a place. -/
def HasFile (t : Tree) (place : Place) (contents : ByteArray) : Prop :=
  t.find? place = some (file contents)

theorem HasDirectory.not_hasFile (h : t.HasDirectory place) : ¬ t.HasFile place contents := by
  obtain ⟨entries, hentries⟩ := h
  rw [HasFile, hentries]
  exact nofun

theorem find?_cons (name : String) (place : Place) (t : Tree) :
    t.find? (name :: place) = (t.child? name).bind (·.find? place) := rfl

theorem child?_of_hasDirectory_cons (h : t.HasDirectory (name :: place)) :
    ∃ inner, t.child? name = some inner ∧ inner.HasDirectory place := by
  obtain ⟨entries, hentries⟩ := h
  obtain ⟨inner, hinner, hplace⟩ := Option.bind_eq_some_iff.mp hentries
  exact ⟨inner, hinner, entries, hplace⟩

theorem find?_append (place rest : Place) (t : Tree) :
    t.find? (place ++ rest) = (t.find? place).bind (·.find? rest) := by
  induction place generalizing t with
  | nil => rfl
  | cons name place ih =>
    rw [List.cons_append, find?_cons, find?_cons]
    cases t.child? name with
    | none => rfl
    | some inner => exact ih inner

/-- On the way to what is found there are directories. -/
theorem hasDirectory_of_isPrefix (h : t.find? place ≠ none) (hpre : place' <+: place)
    (hne : place' ≠ place) : t.HasDirectory place' := by
  obtain ⟨rest, rfl⟩ := hpre
  rw [find?_append] at h
  cases rest with
  | nil => exact absurd (List.append_nil place').symm hne
  | cons name rest =>
    cases hfind : t.find? place' with
    | none => simp [hfind] at h
    | some found =>
      cases found with
      | file contents => simp [hfind, find?, child?] at h
      | directory entries => exact ⟨entries, hfind⟩

/-! ### What is put -/

theorem child?_withEntry_of_ne {entries : List (String × Tree)} (h : other ≠ name) :
    ((directory entries).withEntry name inner).child? other = (directory entries).child? other := by
  have hlookup : (entries.filter (·.1 ≠ name)).lookup other = entries.lookup other := by
    induction entries with
    | nil => rfl
    | cons entry entries ih =>
      by_cases hentry : entry.1 = name
      · have hother : (other == entry.1) = false := beq_false_of_ne (hentry ▸ h)
        rw [List.filter_cons_of_neg (by simpa using hentry), ih, List.lookup_cons, hother]
      · rw [List.filter_cons_of_pos (by simpa using hentry), List.lookup_cons, List.lookup_cons, ih]
  rw [withEntry, child?, child?, List.lookup_cons, beq_false_of_ne h, hlookup]

theorem find?_put_append (place rest : Place) (t new : Tree) :
    (t.put place new).find? (place ++ rest) = new.find? rest := by
  rw [find?_append, find?_put, Option.bind_some]

/-- There are directories on the way to what is put. -/
theorem hasDirectory_put_of_isPrefix (hpre : place' <+: place) (hne : place' ≠ place) :
    (t.put place new).HasDirectory place' := by
  refine hasDirectory_of_isPrefix ?_ hpre hne
  rw [find?_put]
  exact Option.some_ne_none _

/-- Where nothing is put, nothing changes. -/
theorem find?_put_of_not_isPrefix (hdirs : ∀ front, front <+: place → front ≠ place →
    t.HasDirectory front) (hpre : ¬ place <+: place') (hpre' : ¬ place' <+: place) :
    (t.put place new).find? place' = t.find? place' := by
  induction place generalizing t place' with
  | nil => exact absurd place'.nil_prefix hpre
  | cons name place ih =>
    cases place' with
    | nil => exact absurd (List.nil_prefix) hpre'
    | cons name' place' =>
      obtain ⟨entries, hentries⟩ := hdirs [] List.nil_prefix (List.cons_ne_nil _ _).symm
      obtain rfl := Option.some.inj hentries
      rw [put, find?_cons, find?_cons]
      by_cases hname : name' = name
      · subst hname
        rw [List.cons_prefix_cons, not_and] at hpre hpre'
        have hplace : place ≠ [] := fun hnil => hpre rfl (hnil ▸ List.nil_prefix)
        obtain ⟨inner, hinner, -⟩ :=
          child?_of_hasDirectory_cons (hdirs [name'] (by simp) (by simpa using hplace.symm))
        rw [child?_withEntry, hinner, Option.getD_some, Option.bind_some, Option.bind_some]
        refine ih (fun front hfront hne => ?_) (hpre rfl) (hpre' rfl)
        obtain ⟨inner', hinner', hfound⟩ := child?_of_hasDirectory_cons
          (hdirs (name' :: front) (List.cons_prefix_cons.mpr ⟨rfl, hfront⟩) (by simpa using hne))
        obtain rfl := Option.some.inj (hinner.symm.trans hinner')
        exact hfound
      · rw [child?_withEntry_of_ne hname]

/-- Nothing is at a place, and there are directories on the way to it. -/
structure Vacant (t : Tree) (place : Place) : Prop where
  find?_eq : t.find? place = none
  hasDirectory : ∀ front, front <+: place → front ≠ place → t.HasDirectory front

theorem vacant_concat (h : t.HasDirectory place) (hnone : t.find? (place ++ [name]) = none) :
    t.Vacant (place ++ [name]) where
  find?_eq := hnone
  hasDirectory front hfront hne := by
    have hpre : front <+: place :=
      (List.prefix_concat_iff.mp hfront).resolve_left fun heq => hne (by simpa using heq)
    by_cases heq : front = place
    · exact heq ▸ h
    · obtain ⟨entries, hentries⟩ := h
      exact hasDirectory_of_isPrefix (hentries ▸ Option.some_ne_none _) hpre heq

namespace Vacant

variable (h : t.Vacant place)

include h

/-- What is found is in the new tree, or it is a directory on the way, or it was there before. -/
theorem find?_put_cases (new : Tree) (place' : Place) :
    (∃ rest, place' = place ++ rest ∧ (t.put place new).find? place' = new.find? rest ∧
      t.find? place' = none) ∨
    (t.HasDirectory place' ∧ (t.put place new).HasDirectory place') ∨
    (t.put place new).find? place' = t.find? place' := by
  by_cases hpre : place <+: place'
  · obtain ⟨rest, rfl⟩ := hpre
    refine .inl ⟨rest, rfl, find?_put_append place rest t new, ?_⟩
    rw [find?_append, h.find?_eq, Option.bind_none]
  · by_cases hpre' : place' <+: place
    · have hne : place' ≠ place := fun heq => hpre (heq ▸ List.prefix_rfl)
      exact .inr (.inl ⟨h.hasDirectory place' hpre' hne, hasDirectory_put_of_isPrefix hpre' hne⟩)
    · exact .inr (.inr (find?_put_of_not_isPrefix h.hasDirectory hpre hpre'))

/-- Directories stay. -/
theorem hasDirectory_put (new : Tree) (hdir : t.HasDirectory place') :
    (t.put place new).HasDirectory place' := by
  obtain ⟨entries, hentries⟩ := hdir
  rcases h.find?_put_cases new place' with ⟨_, -, -, hnone⟩ | ⟨-, hput⟩ | heq
  · cases hnone.symm.trans hentries
  · exact hput
  · exact ⟨entries, heq.trans hentries⟩

/-- Files stay, and those of the new tree are added. -/
theorem hasFile_put_iff (new : Tree) : (t.put place new).HasFile place' contents ↔
    t.HasFile place' contents ∨ ∃ rest, place' = place ++ rest ∧ new.HasFile rest contents := by
  constructor
  · intro hfile
    rcases h.find?_put_cases new place' with ⟨rest, hrest, heq, -⟩ | ⟨-, hput⟩ | heq
    · exact .inr ⟨rest, hrest, heq.symm.trans hfile⟩
    · exact absurd hfile hput.not_hasFile
    · exact .inl (heq.symm.trans hfile)
  · rintro (hfile | ⟨rest, rfl, hfile⟩)
    · rcases h.find?_put_cases new place' with ⟨_, -, -, hnone⟩ | ⟨hdir, -⟩ | heq
      · cases hnone.symm.trans hfile
      · exact absurd hfile hdir.not_hasFile
      · exact heq.trans hfile
    · exact (find?_put_append place rest t new).trans hfile

theorem ne_none_of_find?_put {new : Tree} (hfound : (t.put place new).find? place' ≠ none) :
    t.find? place' ≠ none ∨ ∃ rest, place' = place ++ rest ∧ new.find? rest ≠ none := by
  rcases h.find?_put_cases new place' with ⟨rest, hrest, heq, -⟩ | ⟨⟨entries, hentries⟩, -⟩ | heq
  · exact .inr ⟨rest, hrest, heq ▸ hfound⟩
  · exact .inl (hentries ▸ Option.some_ne_none _)
  · exact .inl (heq ▸ hfound)

end Vacant

/-! ### Where paths lead -/

/-- A path leads to a place. -/
def LeadsTo (t : Tree) (path : String) (place : Place) : Prop :=
  ∃ p, t.locate path = .ok p ∧ p.place = place

section

variable {p p' q : Position} {path segment : String}

theorem locate_eq_of_size (hnul : '\x00' ∉ path.toList) (hne : path ≠ "")
    (hsize : path.utf8ByteSize ≤ longestPath) :
    t.locate path = (Text.split '/' path).foldlM Position.follow (t.start path) := by
  rw [locate, if_neg hnul, if_neg (fun h => hne (String.isEmpty_iff.mp h)),
    if_neg (Nat.not_lt.mpr hsize)]

theorem locate_eq_ok_iff : t.locate path = .ok p ↔ '\x00' ∉ path.toList ∧ path ≠ "" ∧
    path.utf8ByteSize ≤ longestPath ∧
      (Text.split '/' path).foldlM Position.follow (t.start path) = .ok p := by
  constructor
  · intro h
    unfold locate at h
    split at h
    · cases h
    split at h
    · cases h
    split at h
    · cases h
    next hnul hne hsize =>
    exact ⟨hnul, fun heq => hne (String.isEmpty_iff.mpr heq), Nat.not_lt.mp hsize, h⟩
  · rintro ⟨hnul, hne, hsize, h⟩
    rw [locate_eq_of_size hnul hne hsize, h]

theorem names_leave (h : p'.names = p.names) : p'.leave.names = p.leave.names := by
  unfold Position.leave
  rw [h]
  split
  · exact congrArg (".." :: ·) h
  split
  · exact h
  · rfl

/-- Following a path in another tree with these directories leads to the same place. -/
theorem follow_mono (hdirs : ∀ place, t.HasDirectory place → t'.HasDirectory place)
    (hp : Located t p) (hp' : Located t' p') (hnames : p'.names = p.names)
    (hq : p.follow segment = .ok q) :
    ∃ q', p'.follow segment = .ok q' ∧ q'.names = q.names := by
  unfold Position.follow at hq
  split at hq
  · cases hq
  · cases hq
  · next entries hhere =>
    have hplace : p'.place = p.place := congrArg List.reverse hnames
    obtain ⟨entries', hentries'⟩ := hdirs p.place ⟨entries, hp.here_eq.symm.trans hhere⟩
    rw [← hplace, ← hp'.here_eq] at hentries'
    unfold Position.follow
    rw [hentries']
    dsimp only
    split at hq
    · next hstay =>
      cases hq
      exact ⟨p', if_pos hstay, hnames⟩
    · next hstay =>
      rw [if_neg hstay]
      split at hq
      · next hleave =>
        cases hq
        exact ⟨p'.leave, if_pos hleave, names_leave hnames⟩
      · next hleave =>
        rw [if_neg hleave]
        split at hq
        · cases hq
        · next hshort =>
          cases hq
          exact ⟨p'.enter segment, if_neg hshort, congrArg (segment :: ·) hnames⟩

theorem foldlM_follow_mono (hdirs : ∀ place, t.HasDirectory place → t'.HasDirectory place)
    (hp : Located t p) (hp' : Located t' p') (hnames : p'.names = p.names)
    {segments : List String} (hq : segments.foldlM Position.follow p = .ok q) :
    ∃ q', segments.foldlM Position.follow p' = .ok q' ∧ q'.names = q.names := by
  induction segments generalizing p p' with
  | nil =>
    rw [List.foldlM_nil, pure_eq_ok_iff] at hq
    exact ⟨p', rfl, hq ▸ hnames⟩
  | cons segment segments ih =>
    rw [List.foldlM_cons] at hq
    obtain ⟨r, hr, hq⟩ := bind_eq_ok_iff.mp hq
    obtain ⟨r', hr', hnames'⟩ := follow_mono hdirs hp hp' hnames hr
    obtain ⟨q', hq', hlast⟩ := ih (hp.follow hr) (hp'.follow hr') hnames' hq
    exact ⟨q', by rw [List.foldlM_cons, hr']; exact hq', hlast⟩

/-- A path leads to the same place as long as directories stay. -/
theorem LeadsTo.mono (h : t.LeadsTo path place)
    (hdirs : ∀ place, t.HasDirectory place → t'.HasDirectory place) : t'.LeadsTo path place := by
  obtain ⟨p, hp, rfl⟩ := h
  have hstart : (t'.start path).names = (t.start path).names := by
    unfold start
    dsimp only
    split <;> rfl
  rw [locate_eq_ok_iff] at hp
  obtain ⟨hnul, hne, hsize, hp⟩ := hp
  obtain ⟨p', hp', hnames⟩ := foldlM_follow_mono hdirs located_start located_start hstart hp
  exact ⟨p', locate_eq_ok_iff.mpr ⟨hnul, hne, hsize, hp'⟩, congrArg List.reverse hnames⟩

end

/-! ### Names behind a path -/

/-- A name that can be entered from any directory. -/
structure Enterable (name : String) : Prop where
  isEntry : Path.IsEntry name
  short : name.utf8ByteSize ≤ Position.longestName

section

variable {p : Position} {names : List String} {entries : List (String × Tree)}

theorem follow_of_enterable (h : Enterable name) (hhere : p.here = some (directory entries)) :
    p.follow name = .ok (p.enter name) := by
  have hstay : ¬ (name = "" ∨ name = ".") := not_or.mpr ⟨h.isEntry.ne_empty, h.isEntry.ne_here⟩
  rw [Position.follow, hhere]
  dsimp only
  rw [if_neg hstay, if_neg h.isEntry.ne_around, if_neg (Nat.not_lt.mpr h.short)]

theorem place_enter (p : Position) (name : String) : (p.enter name).place = p.place ++ [name] :=
  List.reverse_cons

/-- Where there are directories on the way, names are entered one after the other. -/
theorem foldlM_follow_names (hp : Located t p) (hnames : ∀ n ∈ names, Enterable n)
    (hdirs : ∀ front, front <+: names → front ≠ names → t.HasDirectory (p.place ++ front)) :
    ∃ q, names.foldlM Position.follow p = .ok q ∧ Located t q ∧ q.place = p.place ++ names := by
  induction names generalizing p with
  | nil => exact ⟨p, rfl, hp, (List.append_nil _).symm⟩
  | cons n ns ih =>
    obtain ⟨hn, hns⟩ := List.forall_mem_cons.mp hnames
    obtain ⟨entries, hentries⟩ := hdirs [] List.nil_prefix (List.cons_ne_nil _ _).symm
    rw [List.append_nil, ← hp.here_eq] at hentries
    obtain ⟨q, hq, hlocated, hplace⟩ := ih (.enter n hp hentries) hns fun front hfront hne => by
      rw [place_enter, List.append_assoc, List.singleton_append]
      exact hdirs (n :: front) (List.cons_prefix_cons.mpr ⟨rfl, hfront⟩) (by simpa using hne)
    rw [place_enter, List.append_assoc, List.singleton_append] at hplace
    refine ⟨q, ?_, hlocated, hplace⟩
    rw [List.foldlM_cons, follow_of_enterable hn hentries]
    exact hq

/-- Names that are followed are not too long. -/
theorem short_of_foldlM_follow {segments : List String} {q : Position}
    (h : segments.foldlM Position.follow p = .ok q) (hmem : name ∈ segments)
    (hentry : Path.IsEntry name) : name.utf8ByteSize ≤ Position.longestName := by
  induction segments generalizing p with
  | nil => cases hmem
  | cons segment segments ih =>
    rw [List.foldlM_cons] at h
    obtain ⟨r, hr, hrest⟩ := bind_eq_ok_iff.mp h
    rcases List.mem_cons.mp hmem with rfl | hmem
    · by_contra hlong
      have hstay : ¬ (name = "" ∨ name = ".") := not_or.mpr ⟨hentry.ne_empty, hentry.ne_here⟩
      unfold Position.follow at hr
      split at hr
      · cases hr
      · cases hr
      · rw [if_neg hstay, if_neg hentry.ne_around, if_pos (Nat.not_le.mp hlong)] at hr
        cases hr
    · exact ih hrest hmem

/-- Where a directory on the way is missing, and no file stands there, nothing is found. -/
theorem foldlM_follow_missing (hp : Located t p) (hnames : ∀ n ∈ names, Enterable n)
    (hfiles : ∀ front, front <+: names → ∀ contents, ¬ t.HasFile (p.place ++ front) contents)
    {missing : List String} (hmissing : missing <+: names) (hne : missing ≠ names)
    (hnone : t.find? (p.place ++ missing) = none) :
    names.foldlM Position.follow p = .error .notFound := by
  induction names generalizing p missing with
  | nil => exact absurd (List.prefix_nil.mp hmissing) hne
  | cons n ns ih =>
    obtain ⟨hn, hns⟩ := List.forall_mem_cons.mp hnames
    have hhere := hp.here_eq
    rw [List.foldlM_cons]
    cases hfind : t.find? p.place with
    | none =>
      rw [hfind] at hhere
      rw [Position.follow, hhere]
      rfl
    | some found =>
      rw [hfind] at hhere
      cases found with
      | file contents =>
        refine absurd ?_ (hfiles [] List.nil_prefix contents)
        rwa [HasFile, List.append_nil]
      | directory entries =>
        rw [follow_of_enterable hn hhere]
        cases missing with
        | nil =>
          rw [List.append_nil, hfind] at hnone
          cases hnone
        | cons n' missing =>
          obtain ⟨rfl, hrest⟩ := List.cons_prefix_cons.mp hmissing
          have hplace (front : List String) :
              (p.enter n').place ++ front = p.place ++ n' :: front := by
            rw [place_enter, List.append_assoc, List.singleton_append]
          refine ih (.enter n' hp hhere) hns (fun front hfront => ?_) hrest
            (by simpa using hne) ?_
          · rw [hplace]
            exact hfiles _ (List.cons_prefix_cons.mpr ⟨rfl, hfront⟩)
          · rwa [hplace]

end

end Adl.Tree
