import Adl.Proofs.Value.Denotes
import Mathlib.Data.List.Nodup
import Mathlib.Algebra.Group.Int.Defs
import Mathlib.Algebra.Group.Nat.Defs

/-!
# Parts — what the checks without recursion accept

Each part of the reading of a literal that needs no recursion accepts what the corresponding
premise of `Denotes` says: scalars, the keys of a struct, the name of an alternative or a label,
and what must not be repeated.  A name has one place in a declaration if serialized names are
distinct in it (`DistinctNames`).
-/

namespace Adl

/-- No two members of a declaration have the same serialized name. -/
def ModuleSet.DistinctNames (set : ModuleSet) : Prop :=
  ∀ id, ((set.decl id).members.map Member.serializedName).Nodup

namespace Value

variable {set : ModuleSet}

theorem toLiterals_eq_map (vs : List Value) : toLiterals set vs = vs.map (toLiteral set) := by
  induction vs with
  | nil => rfl
  | cons v vs ih => rw [toLiterals, ih, List.map_cons]

theorem toEntries_eq_map (entries : List (String × Value)) :
    toEntries set entries = entries.map fun e => (e.1, e.2.toLiteral set) := by
  induction entries with
  | nil => rfl
  | cons e entries ih =>
    obtain ⟨key, v⟩ := e
    rw [toEntries, ih, List.map_cons]

end Value

namespace Normalize

variable {set : ModuleSet} {d : Decl} {l : Literal} {v : Value} {p : Primitive}

/-! ### Scalars -/

theorem range?_of_signedBits? {bits : Nat} (h : p.signedBits? = some bits) :
    p.range? = some (-(2 ^ (bits - 1)), 2 ^ (bits - 1) - 1) := by
  cases p <;> cases h <;> rfl

theorem range?_of_wordBits? {bits : Nat} (h : p.wordBits? = some bits) :
    p.range? = some (0, 2 ^ bits - 1) := by
  cases p <;> cases h <;> rfl

theorem scalar_of_range? {range : Int × Int} (h : p.range? = some range) :
    scalar p l = integer p range l := by
  unfold scalar
  rw [h]

theorem integer_eq_ok_iff {range : Int × Int} :
    integer p range l = .ok v ↔ ∃ i, l = .integer i ∧ (range.1 ≤ i ∧ i ≤ range.2) ∧
      (if range.1 < 0 then Value.int i else .word i.toNat) = v := by
  unfold integer
  cases l with
  | integer i =>
    constructor
    · intro h
      by_cases hi : range.1 ≤ i ∧ i ≤ range.2
      · refine ⟨i, rfl, hi, ?_⟩
        dsimp only at h
        rw [if_pos hi] at h
        split_ifs at h ⊢ <;> exact Except.ok.inj h
      · dsimp only at h
        rw [if_neg hi] at h
        cases h
    · rintro ⟨_, h, hi, rfl⟩
      cases h
      dsimp only
      rw [if_pos hi]
      split_ifs <;> rfl
  | _ =>
    constructor
    · exact fun h => by cases h
    · rintro ⟨_, h, _⟩
      cases h

theorem scalar_signed_iff {bits : Nat} (h : p.signedBits? = some bits) :
    scalar p l = .ok v ↔
      ∃ i, l = .integer i ∧ (-(2 ^ (bits - 1) : Int) ≤ i ∧ i < 2 ^ (bits - 1)) ∧ v = .int i := by
  have hneg : (-(2 ^ (bits - 1)) : Int) < 0 := Int.neg_neg_of_pos (Int.pow_pos (by omega))
  rw [scalar_of_range? (range?_of_signedBits? h), integer_eq_ok_iff]
  simp only [hneg, if_true, Int.le_sub_one_iff, eq_comm]

theorem scalar_word_iff {bits : Nat} (h : p.wordBits? = some bits) :
    scalar p l = .ok v ↔ ∃ n : Nat, l = .integer n ∧ n < 2 ^ bits ∧ v = .word n := by
  rw [scalar_of_range? (range?_of_wordBits? h), integer_eq_ok_iff]
  constructor
  · rintro ⟨i, rfl, ⟨h0, hi⟩, rfl⟩
    obtain ⟨n, rfl⟩ := Int.eq_ofNat_of_zero_le h0
    refine ⟨n, rfl, ?_, rfl⟩
    have hlt : (n : Int) < (2 ^ bits : Nat) := by
      push_cast
      exact Int.lt_of_le_sub_one hi
    exact Int.ofNat_lt.mp hlt
  · rintro ⟨n, rfl, hn, rfl⟩
    refine ⟨n, rfl, ⟨Int.natCast_nonneg n, ?_⟩, rfl⟩
    have hlt : (n : Int) < (2 ^ bits : Nat) := Int.ofNat_lt.mpr hn
    push_cast at hlt
    exact Int.le_sub_one_of_lt hlt

/-- A type with scalars contains no other type. -/
theorem ne_of_denotesScalar (h : DenotesScalar p l v) :
    p ≠ .vector ∧ p ≠ .stringMap ∧ p ≠ .nullable := by
  refine ⟨?_, ?_, ?_⟩
  all_goals
    rintro rfl
    cases h with
    | int hb _ _ => cases hb
    | word hb _ => cases hb

/-- The scalars are what is accepted at a primitive type that contains no other type. -/
theorem scalar_eq_ok_iff (hp : p ≠ .vector ∧ p ≠ .stringMap ∧ p ≠ .nullable) :
    scalar p l = .ok v ↔ DenotesScalar p l v := by
  constructor
  · intro h
    have signed : ∀ bits, p.signedBits? = some bits → DenotesScalar p l v := by
      intro bits hb
      obtain ⟨i, rfl, ⟨hle, hlt⟩, rfl⟩ := (scalar_signed_iff hb).mp h
      exact .int hb hle hlt
    have word : ∀ bits, p.wordBits? = some bits → DenotesScalar p l v := by
      intro bits hb
      obtain ⟨n, rfl, hlt, rfl⟩ := (scalar_word_iff hb).mp h
      exact .word hb hlt
    cases p with
    | int8 | int16 | int32 | int64 => exact signed _ rfl
    | word8 | word16 | word32 | word64 => exact word _ rfl
    | vector | stringMap | nullable => simp at hp
    | json => cases h; exact .json l
    | void => cases l <;> cases h; exact .void
    | typeToken => cases l <;> cases h; exact .typeToken
    | bool => cases l <;> cases h; exact .bool _
    | string => cases l <;> cases h; exact .string _
    | double =>
      cases l <;> cases h
      · exact .doubleOfInt _
      · exact .double _
    | float =>
      cases l with
      | double d =>
        cases hd : d.overflowsSingle with
        | false =>
          simp only [scalar, Primitive.range?, hd] at h
          cases h
          exact .float hd
        | true =>
          simp only [scalar, Primitive.range?, hd] at h
          cases h
      | integer i => cases h; exact .floatOfInt i
      | _ => cases h
    | byteVector =>
      cases l with
      | string s =>
        cases hs : Base64.decode s with
        | ok bytes =>
          simp only [scalar, Primitive.range?, hs] at h
          cases h
          exact .byteVector hs
        | error e =>
          simp only [scalar, Primitive.range?, hs] at h
          cases h
      | _ => cases h
  · intro h
    cases h with
    | void | typeToken | bool | double | doubleOfInt | floatOfInt | string => rfl
    | json l => rfl
    | int hb hle hlt => exact (scalar_signed_iff hb).mpr ⟨_, rfl, ⟨hle, hlt⟩, rfl⟩
    | word hb hlt => exact (scalar_word_iff hb).mpr ⟨_, rfl, hlt, rfl⟩
    | float hd => simp [scalar, Primitive.range?, hd]
    | byteVector hs => simp [scalar, Primitive.range?, hs]

/-! ### Members by name -/

theorem memberIndex?_eq_some {ms : List Member} {name : String} {index : Nat}
    (h : memberIndex? ms name = some index) :
    ∃ m, ms[index]? = some m ∧ m.serializedName = name := by
  obtain ⟨hlt, hname, -⟩ := List.findIdx?_eq_some_iff_getElem.mp h
  exact ⟨ms[index], List.getElem?_eq_getElem hlt, of_decide_eq_true hname⟩

/-- If serialized names are distinct, the member of a name is the only one. -/
theorem memberIndex?_of_getElem? {ms : List Member} {index : Nat} {m : Member}
    (hnd : (ms.map Member.serializedName).Nodup) (hm : ms[index]? = some m) :
    memberIndex? ms m.serializedName = some index := by
  obtain ⟨hlt, rfl⟩ := List.getElem?_eq_some_iff.mp hm
  refine List.findIdx?_eq_some_iff_getElem.mpr ⟨hlt, decide_eq_true rfl, ?_⟩
  intro j hj hname
  have heq : (ms.map Member.serializedName)[index]? = (ms.map Member.serializedName)[j]? := by
    rw [List.getElem?_map, List.getElem?_map, List.getElem?_eq_getElem hlt,
      List.getElem?_eq_getElem (Nat.lt_trans hj hlt), Option.map_some, Option.map_some]
    exact congrArg some (of_decide_eq_true hname).symm
  have := (List.getElem?_inj (by rwa [List.length_map]) hnd).mp heq
  omega

theorem memberIndex?_isNone_iff {ms : List Member} {name : String} :
    (memberIndex? ms name).isNone ↔ name ∉ ms.map Member.serializedName := by
  rw [memberIndex?, Option.isNone_iff_eq_none, List.findIdx?_eq_none_iff, List.mem_map]
  simp

theorem label_eq_ok_iff {index : Nat} :
    label d l = .ok index ↔ ∃ name, memberIndex? d.members name = some index ∧
      (l = .string name ∨ l = .object [(name, .null)]) := by
  unfold label
  constructor
  · intro h
    dsimp only at h
    split at h
    · next name =>
      split at h
      · next hindex => exact ⟨name, hindex.trans (congrArg some (Except.ok.inj h)), .inl rfl⟩
      · cases h
    · next name =>
      split at h
      · next hindex => exact ⟨name, hindex.trans (congrArg some (Except.ok.inj h)), .inr rfl⟩
      · cases h
    · cases h
  · rintro ⟨name, h, rfl | rfl⟩
    · dsimp only
      rw [h]
    · dsimp only
      rw [h]

theorem checkFields_eq_ok_iff {seen : List String} {entries : List (String × Literal)} :
    checkFields d seen entries = .ok () ↔
      (entries.map Prod.fst).Nodup ∧ (∀ key ∈ entries.map Prod.fst, key ∉ seen) ∧
        ∀ key ∈ entries.map Prod.fst, key ∈ d.members.map Member.serializedName := by
  induction entries generalizing seen with
  | nil => simp [checkFields]
  | cons e entries ih =>
    obtain ⟨key, l⟩ := e
    rw [checkFields]
    simp only [List.map_cons, List.nodup_cons, List.forall_mem_cons]
    by_cases hk : (memberIndex? d.members key).isNone
    · rw [if_pos hk]
      constructor
      · exact fun h => by cases h
      · rintro ⟨-, -, hmem, -⟩
        exact absurd hmem (memberIndex?_isNone_iff.mp hk)
    · have hmem : key ∈ d.members.map Member.serializedName := by
        by_contra hmem
        exact hk (memberIndex?_isNone_iff.mpr hmem)
      rw [if_neg hk]
      clear hk
      by_cases hs : key ∈ seen
      · rw [if_pos hs]
        constructor
        · exact fun h => by cases h
        · rintro ⟨-, ⟨hns, -⟩, -⟩
          exact absurd hs hns
      · rw [if_neg hs, ih]
        constructor
        · rintro ⟨hnd, hseen, hknown⟩
          refine ⟨⟨fun hin => hseen key hin List.mem_cons_self, hnd⟩, ⟨hs, ?_⟩, hmem, hknown⟩
          exact fun k hk hks => hseen k hk (List.mem_cons_of_mem _ hks)
        · rintro ⟨⟨hnot, hnd⟩, ⟨-, hseen⟩, -, hknown⟩
          refine ⟨hnd, fun k hk hks => ?_, hknown⟩
          rcases List.mem_cons.mp hks with rfl | hks
          · exact hnot hk
          · exact hseen k hk hks

/-! ### What must be distinct -/

theorem firstSame_eq_none_iff {seen ls : List Literal} :
    firstSame seen ls = none ↔
      (∀ l ∈ ls, ∀ k ∈ seen, ¬ k.same l) ∧ ls.Pairwise fun k l => ¬ k.same l := by
  induction ls generalizing seen with
  | nil => simp [firstSame]
  | cons l ls ih =>
    rw [firstSame, List.pairwise_cons]
    by_cases h : seen.any (·.same l)
    · obtain ⟨k, hk, hs⟩ := List.any_eq_true.mp h
      rw [if_pos h]
      constructor
      · exact fun h => by cases h
      · rintro ⟨hseen, -⟩
        exact absurd hs (hseen l List.mem_cons_self k hk)
    · have hnot : ∀ k ∈ seen, ¬ k.same l := fun k hk hs => h (List.any_eq_true.mpr ⟨k, hk, hs⟩)
      rw [if_neg h, ih]
      constructor
      · rintro ⟨hseen, hpair⟩
        refine ⟨?_, fun k hk => hseen k hk l (by simp), hpair⟩
        intro k hk j hj
        rcases List.mem_cons.mp hk with rfl | hk
        · exact hnot j hj
        · exact hseen k hk j (List.mem_append_left _ hj)
      · rintro ⟨hseen, hl, hpair⟩
        refine ⟨?_, hpair⟩
        intro k hk j hj
        rcases List.mem_append.mp hj with hj | hj
        · exact hseen k (List.mem_cons_of_mem _ hk) j hj
        · rw [List.mem_singleton.mp hj]
          exact hl k hk

theorem uniqueKey_elements (item : Value) :
    uniqueKey set .elements item = item.toLiteral set := rfl

theorem uniqueKey_keys (item : Value) :
    uniqueKey set .keys item = item.key.toLiteral set := by
  unfold uniqueKey Value.key
  split <;> simp_all

theorem firstSame_map_eq_none_iff {f : Value → Literal} {items : List Value} :
    firstSame [] (items.map f) = none ↔ items.Pairwise fun v w => ¬ (f v).same (f w) := by
  rw [firstSame_eq_none_iff, List.pairwise_map]
  simp

theorem checkUnique_vector_eq_ok_iff {rule : Prelude.Uniqueness} {items : List Value}
    (h : Prelude.uniqueness? d.scopedName = some rule) :
    checkUnique set d (.vector items) = .ok () ↔
      items.Pairwise fun v w => ¬ (uniqueKey set rule v).same (uniqueKey set rule w) := by
  rw [← firstSame_map_eq_none_iff]
  unfold checkUnique
  rw [h]
  cases hs : firstSame [] (items.map (uniqueKey set rule)) with
  | none => simp [hs]
  | some key => simp [hs]

/-- The check accepts values in which nothing is repeated that must be distinct. -/
theorem checkUnique_eq_ok_iff {inner : Value} :
    checkUnique set d inner = .ok () ↔ NothingRepeated set d.scopedName inner := by
  unfold NothingRepeated
  by_cases hv : ∃ items, inner = .vector items
  · obtain ⟨items, rfl⟩ := hv
    simp only [Value.vector.injEq, forall_eq']
    by_cases hmap : d.scopedName = ⟨"sys.types", "Map"⟩
    · have hu : Prelude.uniqueness? d.scopedName = some .keys := by rw [hmap]; rfl
      rw [checkUnique_vector_eq_ok_iff hu, hmap]
      simp [uniqueKey_keys]
    · by_cases hset : d.scopedName = ⟨"sys.types", "Set"⟩
      · have hu : Prelude.uniqueness? d.scopedName = some .elements := by rw [hset]; rfl
        rw [checkUnique_vector_eq_ok_iff hu, hset]
        simp [uniqueKey_elements]
      · have hu : Prelude.uniqueness? d.scopedName = none := by
          rw [Prelude.uniqueness?, Prelude.typesName, if_neg hmap, if_neg hset]
        simp [checkUnique, hu, hmap, hset]
  · have hok : checkUnique set d inner = .ok () := by
      unfold checkUnique
      split
      · next items _ => exact absurd ⟨items, rfl⟩ hv
      · rfl
    exact ⟨fun _ items hi => absurd ⟨items, hi⟩ hv, fun _ => hok⟩

end Normalize

end Adl
