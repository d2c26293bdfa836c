import Adl.Literal
import Adl.Proofs.Json.Parsing
import Adl.Proofs.Success
import Mathlib.Data.String.Basic
import Mathlib.Data.List.Nodup
import Mathlib.Algebra.Group.Int.Defs

/-!
# Reading — records and values are read from their trees

A reader may enter a bounded number of containers, so a value can be read if it is not nested any
deeper (`ReadableIn`).  The readers of arrays, records and tags find what was written, and leave one
level less to the readers of its parts.  A value that is data already is read as itself
(`toJson?_node`).
-/

namespace Adl.Json

/-! ### Nesting -/

mutual

/-- How many containers are nested in a value. -/
def depth : Json → Nat
  | null => 0
  | bool _ => 0
  | integer _ => 0
  | double _ => 0
  | string _ => 0
  | array items => itemsDepth items + 1
  | object members => membersDepth members + 1

/-- How many containers are nested in the items of an array. -/
def itemsDepth : List Json → Nat
  | [] => 0
  | item :: items => max (depth item) (itemsDepth items)

/-- How many containers are nested in the members of an object. -/
def membersDepth : List (String × Json) → Nat
  | [] => 0
  | (_, value) :: members => max (depth value) (membersDepth members)

end

theorem itemsDepth_le_iff {items : List Json} {n : Nat} :
    itemsDepth items ≤ n ↔ ∀ item ∈ items, item.depth ≤ n := by
  induction items with
  | nil => simp [itemsDepth]
  | cons item items ih => rw [itemsDepth, Nat.max_le, ih, List.forall_mem_cons]

theorem membersDepth_le_iff {members : List (String × Json)} {n : Nat} :
    membersDepth members ≤ n ↔ ∀ m ∈ members, m.2.depth ≤ n := by
  induction members with
  | nil => simp [membersDepth]
  | cons m members ih => rw [membersDepth, Nat.max_le, ih, List.forall_mem_cons]

/-- A value can be read where `n` more containers may be entered: the finite numbers in it read
back, and no more than that are nested. -/
structure ReadableIn (n : Nat) (j : Json) : Prop where
  readable : j.Readable
  depth_le : j.depth ≤ n

section

variable {n : Nat}

/-- The items of an array can be read one level deeper. -/
theorem ReadableIn.items {items : List Json} (h : (array items).ReadableIn n) :
    ∃ k, n = k + 1 ∧ ∀ item ∈ items, item.ReadableIn k := by
  obtain ⟨hread, hdepth⟩ := h
  rw [depth] at hdepth
  obtain ⟨k, rfl⟩ := Nat.exists_eq_add_of_le' (Nat.le_trans (Nat.le_add_left 1 _) hdepth)
  have hitems := itemsDepth_le_iff.mp (Nat.le_of_add_le_add_right hdepth)
  exact ⟨k, rfl, fun item hi => ⟨readable_array_iff.mp hread item hi, hitems item hi⟩⟩

/-- The members of an object can be read one level deeper. -/
theorem ReadableIn.members {members : List (String × Json)} (h : (object members).ReadableIn n) :
    ∃ k, n = k + 1 ∧ ∀ m ∈ members, m.2.ReadableIn k := by
  obtain ⟨hread, hdepth⟩ := h
  rw [depth] at hdepth
  obtain ⟨k, rfl⟩ := Nat.exists_eq_add_of_le' (Nat.le_trans (Nat.le_add_left 1 _) hdepth)
  have hmembers := membersDepth_le_iff.mp (Nat.le_of_add_le_add_right hdepth)
  exact ⟨k, rfl, fun m hm => ⟨readable_object_iff.mp hread m hm, hmembers m hm⟩⟩

end

/-! ### Trees of containers -/

theorem itemNodes_eq_map (items : List Json) : itemNodes items = items.map node := by
  induction items with
  | nil => rfl
  | cons item items ih => rw [itemNodes, ih, List.map_cons]

theorem memberNodes_eq_map (members : List (String × Json)) :
    memberNodes members = members.map fun m => (some m.1, m.2.node) := by
  induction members with
  | nil => rfl
  | cons m members ih => rw [memberNodes, ih, List.map_cons]

namespace Node

theorem filter_memberNodes {members : List (String × Json)} (hnd : (members.map Prod.fst).Nodup)
    {m : String × Json} (hm : m ∈ members) :
    (memberNodes members).filter (·.1 == some m.1) = [(some m.1, m.2.node)] := by
  induction members with
  | nil => cases hm
  | cons m' members ih =>
    rw [List.map_cons, List.nodup_cons] at hnd
    rw [memberNodes]
    rcases List.mem_cons.mp hm with rfl | hm
    · rw [List.filter_cons_of_pos (by simp), memberNodes_eq_map, List.filter_eq_nil_iff.mpr]
      intro p hp
      obtain ⟨m', hm', rfl⟩ := List.mem_map.mp hp
      have hne : m'.1 ≠ m.1 := fun heq => hnd.1 (List.mem_map.mpr ⟨m', hm', heq⟩)
      simpa using hne
    · have hne : m'.1 ≠ m.1 := fun heq => hnd.1 (List.mem_map.mpr ⟨m, hm, heq.symm⟩)
      rw [List.filter_cons_of_neg (by simpa using hne), ih hnd.2 hm]

/-- The fields of a record are its members in their order. -/
theorem selectMembers_memberNodes {members : List (String × Json)}
    (hnd : (members.map Prod.fst).Nodup) :
    selectMembers (members.map Prod.fst) (memberNodes members) =
      some (members.map fun m => some m.2.node) := by
  have hkeys : (memberNodes members).any (·.1.isNone) = false := by
    rw [memberNodes_eq_map]
    simp
  rw [selectMembers, hkeys, if_neg Bool.false_ne_true, List.mapM_map]
  refine mapM_eq_some fun m hm => ?_
  rw [Function.comp_apply, filter_memberNodes hnd hm]

end Node

section

open Node

variable {n : Nat}

/-- The items of an array are read one level deeper. -/
theorem asArray_node {items : List Json} (h : (array items).ReadableIn n) :
    ∃ k < n, (∀ item ∈ items, item.ReadableIn k) ∧
      (array items).node.asArray ⟨n, false⟩ = some (⟨k, false⟩, items.map node) := by
  obtain ⟨k, rfl, hk⟩ := h.items
  refine ⟨k, Nat.lt_succ_self k, hk, ?_⟩
  rw [node, itemNodes_eq_map]
  rfl

/-- The fields of a record are read one level deeper. -/
theorem asRecord_node {members : List (String × Json)} (hnd : (members.map Prod.fst).Nodup)
    (h : (object members).ReadableIn n) :
    ∃ k < n, (∀ m ∈ members, m.2.ReadableIn k) ∧
      (object members).node.asRecord (members.map Prod.fst) ⟨n, false⟩ =
        some (⟨k, false⟩, members.map fun m => m.2.node) := by
  obtain ⟨k, rfl, hk⟩ := h.members
  have hall : (members.map fun m => some m.2.node).mapM id =
      some (members.map fun m => m.2.node) := by
    rw [List.mapM_map]
    exact mapM_eq_some fun _ _ => rfl
  have hfields : (object members).node.asFields (members.map Prod.fst) ⟨k + 1, false⟩ =
      some (⟨k, false⟩, members.map fun m => some m.2.node) := by
    rw [node, asFields, selectMembers_memberNodes hnd]
    rfl
  refine ⟨k, Nat.lt_succ_self k, hk, ?_⟩
  simp only [asRecord, hfields, Option.bind_eq_bind, Option.bind_some, hall]
  rfl

/-- The value behind a tag is read one level deeper. -/
theorem asTagged_tag {kind : String} {j : Json} (tags : List String)
    (h : (Literal.tag kind j).ReadableIn n) :
    ∃ k < n, j.ReadableIn k ∧
      (Literal.tag kind j).node.asTagged tags ⟨n, false⟩ =
        some (⟨k, false⟩, kind, some j.node) := by
  obtain ⟨k, rfl, hk⟩ := h.members
  exact ⟨k, Nat.lt_succ_self k, hk ("value", j) (by simp), rfl⟩

/-- There is nothing behind a tag that stands alone. -/
theorem asTagged_bare {kind : String} (tags : List String)
    (h : (object [("kind", string kind)]).ReadableIn n) :
    ∃ k, (object [("kind", string kind)]).node.asTagged tags ⟨n, false⟩ =
      some (⟨k, false⟩, kind, none) := by
  obtain ⟨k, rfl, -⟩ := h.members
  exact ⟨k, rfl⟩

end

/-! ### Sorted members -/

section

variable {members : List (String × Json)} {key : String} {value : Json}

theorem mem_insertSorted {m : String × Json} (h : m ∈ insertSorted key value members) :
    m = (key, value) ∨ m ∈ members := by
  induction members with
  | nil => exact .inl (List.mem_singleton.mp h)
  | cons m' members ih =>
    rw [insertSorted] at h
    split at h
    · exact List.mem_cons.mp h
    split at h
    · exact (List.mem_cons.mp h).imp_right (List.mem_cons_of_mem m')
    · rcases List.mem_cons.mp h with rfl | h
      · exact .inr List.mem_cons_self
      · exact (ih h).imp_right (List.mem_cons_of_mem m')

theorem pairwise_insertSorted (h : (members.map Prod.fst).Pairwise (· < ·)) :
    ((insertSorted key value members).map Prod.fst).Pairwise (· < ·) := by
  induction members with
  | nil => exact List.pairwise_singleton _ _
  | cons m members ih =>
    obtain ⟨k, v⟩ := m
    rw [List.map_cons, List.pairwise_cons] at h
    obtain ⟨hk, hrest⟩ := h
    rw [insertSorted]
    split
    · next hlt =>
      refine List.pairwise_cons.mpr ⟨?_, List.pairwise_cons.mpr ⟨hk, hrest⟩⟩
      exact List.forall_mem_cons.mpr ⟨hlt, fun a ha => lt_trans hlt (hk a ha)⟩
    split
    · next heq => exact List.pairwise_cons.mpr ⟨heq ▸ hk, hrest⟩
    · next hlt hne =>
      refine List.pairwise_cons.mpr ⟨fun a ha => ?_, ih hrest⟩
      obtain ⟨m, hm, rfl⟩ := List.mem_map.mp ha
      rcases mem_insertSorted hm with rfl | hm
      · exact lt_of_le_of_ne (not_lt.mp hlt) (Ne.symm hne)
      · exact hk _ (List.mem_map_of_mem hm)

theorem mem_sortMembers {m : String × Json} (h : m ∈ sortMembers members) : m ∈ members := by
  revert h
  refine List.foldlRecOn members _ (motive := fun sorted => m ∈ sorted → m ∈ members)
    (fun h => nomatch h) fun sorted hsorted m' hm' h => ?_
  rcases mem_insertSorted h with rfl | h
  · exact hm'
  · exact hsorted h

theorem pairwise_sortMembers (members : List (String × Json)) :
    ((sortMembers members).map Prod.fst).Pairwise (· < ·) :=
  List.foldlRecOn members _
    (motive := fun sorted : List (String × Json) => (sorted.map Prod.fst).Pairwise (· < ·)) .nil
    fun _ hsorted _ _ => pairwise_insertSorted hsorted

theorem insertSorted_of_forall_lt (h : ∀ k ∈ members.map Prod.fst, k < key) :
    insertSorted key value members = members ++ [(key, value)] := by
  induction members with
  | nil => rfl
  | cons m members ih =>
    rw [List.map_cons, List.forall_mem_cons] at h
    rw [insertSorted, if_neg (not_lt_of_gt h.1), if_neg (ne_of_gt h.1), ih h.2, List.cons_append]

/-- Members that are sorted stay as they are. -/
theorem sortMembers_eq_self (h : (members.map Prod.fst).Pairwise (· < ·)) :
    sortMembers members = members := by
  have hfold : ∀ (sorted rest : List (String × Json)),
      ((sorted ++ rest).map Prod.fst).Pairwise (· < ·) →
        rest.foldl (fun sorted m => insertSorted m.1 m.2 sorted) sorted = sorted ++ rest := by
    intro sorted rest
    induction rest generalizing sorted with
    | nil => exact fun _ => (List.append_nil sorted).symm
    | cons m rest ih =>
      intro h
      have hlt : ∀ k ∈ sorted.map Prod.fst, k < m.1 := by
        rw [List.map_append, List.pairwise_append] at h
        exact fun k hk => h.2.2 k hk m.1 (List.mem_map_of_mem List.mem_cons_self)
      rw [List.append_cons] at h ⊢
      have hstep : insertSorted m.1 m.2 sorted = sorted ++ [m] := insertSorted_of_forall_lt hlt
      exact (congrArg (List.foldl _ · rest) hstep).trans (ih _ h)
  exact hfold [] members h

end

/-! ### Values -/

/-- The values that the texts of data denote: integers of 64 bits, finite numbers, and objects whose
keys are sorted. -/
inductive Canonical : Json → Prop
  | null : Canonical .null
  | bool (b : Bool) : Canonical (.bool b)
  | integer {i : Int} (hle : -(2 ^ 63) ≤ i) (hlt : i < 2 ^ 64) : Canonical (.integer i)
  | double {d : Double} (h : d.isFinite) : Canonical (.double d)
  | string (s : String) : Canonical (.string s)
  | array {items : List Json} (h : ∀ item ∈ items, Canonical item) : Canonical (.array items)
  | object {members : List (String × Json)} (hkeys : (members.map Prod.fst).Pairwise (· < ·))
      (h : ∀ m ∈ members, Canonical m.2) : Canonical (.object members)

theorem toNumber?_ofInt {i : Int} (hle : -(2 ^ 63) ≤ i) (hlt : i < 2 ^ 64) :
    Node.toNumber? (Numeral.ofInt i) = some (.integer i) := by
  have hinteger : (Numeral.ofInt i).isInteger = true := rfl
  have hnegative : (Numeral.ofInt i).negative = decide (i < 0) := rfl
  rw [Node.toNumber?, if_pos hinteger, Numeral.toInt_ofInt, hnegative]
  by_cases hneg : i < 0
  · simpa [hneg] using hle
  · have hword : i ≤ (Numeral.maxWord : Int) := by
      rw [Numeral.maxWord]
      omega
    simp [hneg, hword]

theorem toItems?_itemNodes {items : List Json} {n : Nat}
    (h : ∀ item ∈ items, item.node.toJson? n = some item) :
    Node.toItems? n (itemNodes items) = some items := by
  induction items with
  | nil => rfl
  | cons item items ih =>
    rw [itemNodes, Node.toItems?, h item List.mem_cons_self,
      ih fun i hi => h i (List.mem_cons_of_mem _ hi)]
    rfl

theorem toMembers?_memberNodes {members : List (String × Json)} {n : Nat}
    (h : ∀ m ∈ members, m.2.node.toJson? n = some m.2) :
    Node.toMembers? n (memberNodes members) = some members := by
  induction members with
  | nil => rfl
  | cons m members ih =>
    rw [memberNodes, Node.toMembers?, h m List.mem_cons_self,
      ih fun m' hm' => h m' (List.mem_cons_of_mem _ hm')]
    rfl

/-- What is written of a value is read as this value. -/
theorem toJson?_node {j : Json} (hj : j.Canonical) {n : Nat} (h : j.ReadableIn n) :
    j.node.toJson? n = some j := by
  induction hj generalizing n with
  | null => rfl
  | bool b => rfl
  | integer hle hlt =>
    rw [node, Node.toJson?]
    exact toNumber?_ofInt hle hlt
  | @double d hd =>
    obtain ⟨m, -, hm, hnode⟩ :=
      Node.number_of_readsBack (h.readable d (List.mem_singleton_self d) hd)
    rw [hnode, Node.toJson?, hm]
  | string s => rfl
  | array _ ih =>
    obtain ⟨k, rfl, hk⟩ := h.items
    rw [node, Node.toJson?, toItems?_itemNodes fun item hi => ih item hi (hk item hi)]
    rfl
  | object hkeys _ ih =>
    obtain ⟨k, rfl, hk⟩ := h.members
    rw [node, Node.toJson?, toMembers?_memberNodes fun m hm => ih m hm (hk m hm), Option.map_some,
      sorted, sortMembers_eq_self hkeys]

end Adl.Json
