import Adl.Proofs.Types.Acyclic
import Mathlib.Logic.Relation

/-!
# AliasPaths — what the check of a declaration accepts

The check of a declaration goes through the aliases that are applied in its body, at any depth of
arguments, and through the bodies of these.  So it follows the paths of aliases that each use the
next one (`AliasPath`).  A declaration passes exactly if all types on the way have the right number
of arguments and no path meets an alias twice or goes on for too long (`WellFormedBody`), and what
it is rejected for is an alias or a number of arguments (`Rejects`).  The bodies of structs, unions
and newtypes are not entered, so it does not matter what they lead to (`SameAliases`).
-/

namespace Adl

namespace ModuleSet

/-! ### Well-formed bodies and their faults -/

section

variable (set : ModuleSet)

/-- The check of a declaration begins with this alias: it is applied in the body of the declaration,
or is the declaration. -/
def Starts (id a : DeclId) : Prop :=
  if set.isAlias id then a = id else set.isAlias a ∧ ∃ t ∈ (set.decl id).types, t.Applies a

/-- The check of a declaration leads through these aliases, each of which uses the next one. -/
structure AliasPath (id : DeclId) (path : List DeclId) : Prop where
  starts : ∀ a ∈ path.head?, set.Starts id a
  chain : path.IsChain set.AliasUse

/-- The body of a declaration and the aliases that it leads to are as they should be. -/
structure WellFormedBody (id : DeclId) : Prop where
  saturated : ∀ t ∈ (set.decl id).types, set.Saturated t
  aliases_saturated : ∀ path, set.AliasPath id path → ∀ a ∈ path, ∀ t,
    (set.decl a).body = .alias t → set.Saturated t
  nodup : ∀ path, set.AliasPath id path → path.Nodup
  length_le : ∀ path, set.AliasPath id path → path.length ≤ maxAliasDepth

/-- What a declaration may be rejected for. -/
inductive Rejects (id : DeclId) : TypeError → Prop
  /-- A part of its body, or of that of an alias it leads to, has the wrong number of arguments. -/
  | arity {location : Location} {t u : TypeExpr}
      (ht : t ∈ (set.decl id).types ∨
        ∃ path, set.AliasPath id path ∧ ∃ a ∈ path, (set.decl a).body = .alias t)
      (hu : u ∈ t.parts) (hne : set.arity u.head ≠ u.args.length) :
      Rejects id (.arity location (set.headName u.head) (set.arity u.head) u.args.length)
  /-- An alias is met for the second time, or behind as many as there may be. -/
  | infinite {location : Location} {path : List DeclId} {a : DeclId}
      (hpath : set.AliasPath id (path ++ [a])) (h : a ∈ path ∨ path.length = maxAliasDepth) :
      Rejects id (.infiniteAlias location (set.scopedName a).text)

/-- Two sets have the same aliases at the same places, and declarations with as many parameters. -/
structure SameAliases (set' : ModuleSet) : Prop where
  params : ∀ a, (set.decl a).typeParams.length = (set'.decl a).typeParams.length
  body : ∀ a t, (set.decl a).body = .alias t ↔ (set'.decl a).body = .alias t

/-- What the check of declarations says. -/
structure DeclCheck : Prop where
  accepts : ∀ id, set.checkDecl id = .ok () ↔ set.WellFormedBody id
  rejects : ∀ id e, set.checkDecl id = .error e → set.Rejects id e
  /-- Where all declarations pass, no alias leads back to itself. -/
  no_cycle : set.checkAll = .ok () → ∀ a, ¬ Relation.TransGen set.AliasUse a a
  /-- The bodies of other declarations do not matter, if these are no aliases. -/
  same_aliases : ∀ set' id, set.SameAliases set' → (set.decl id).types = (set'.decl id).types →
    (set.checkDecl id = .ok () ↔ set'.checkDecl id = .ok ())

end

variable {set set' : ModuleSet} {location : Location} {id a b : DeclId} {t : TypeExpr}
  {path : List DeclId}

/-! ### Paths -/

theorem AliasPath.singleton (h : set.Starts id a) : set.AliasPath id [a] where
  starts := by
    rintro b ⟨⟩
    exact h
  chain := .singleton a

/-- A path goes on through the aliases that the last one uses. -/
theorem AliasPath.snoc (h : set.AliasPath id (path ++ [a])) (hab : set.AliasUse a b) :
    set.AliasPath id (path ++ [a] ++ [b]) where
  starts := by
    rw [List.head?_append_of_ne_nil _ (List.append_ne_nil_of_right_ne_nil path (by simp))]
    exact h.starts
  chain := by
    rw [List.append_assoc]
    exact List.isChain_split.mpr ⟨h.chain, List.isChain_pair.mpr hab⟩

/-! ### What is accepted -/

/-- The check of an alias asks this of every path that begins with it, where `fuel` more aliases may
be entered and those in `outer` have been. -/
structure PathOk (set : ModuleSet) (fuel : Nat) (outer path : List DeclId) : Prop where
  nodup : path.Nodup
  disjoint : outer.Disjoint path
  length_le : path.length ≤ fuel
  saturated : ∀ a ∈ path, ∀ t, (set.decl a).body = .alias t → set.Saturated t

theorem PathOk.cons {fuel : Nat} {outer : List DeclId} (ha : a ∉ outer)
    (ht : ∀ t, (set.decl a).body = .alias t → set.Saturated t)
    (h : set.PathOk fuel (a :: outer) path) :
    set.PathOk (fuel + 1) outer (a :: path) where
  nodup := List.nodup_cons.mpr ⟨(List.disjoint_cons_left.mp h.disjoint).1, h.nodup⟩
  disjoint := List.disjoint_cons_right.mpr ⟨ha, (List.disjoint_cons_left.mp h.disjoint).2⟩
  length_le := Nat.succ_le_succ h.length_le
  saturated := List.forall_mem_cons.mpr ⟨ht, h.saturated⟩

theorem PathOk.tail {fuel : Nat} {outer : List DeclId}
    (h : set.PathOk (fuel + 1) outer (a :: path)) : set.PathOk fuel (a :: outer) path where
  nodup := (List.nodup_cons.mp h.nodup).2
  disjoint := List.disjoint_cons_left.mpr
    ⟨(List.nodup_cons.mp h.nodup).1, (List.disjoint_cons_right.mp h.disjoint).2⟩
  length_le := Nat.le_of_succ_le_succ h.length_le
  saturated := (List.forall_mem_cons.mp h.saturated).2

theorem PathOk.nil (fuel : Nat) (outer : List DeclId) : set.PathOk fuel outer [] where
  nodup := .nil
  disjoint := List.disjoint_nil_right outer
  length_le := Nat.zero_le fuel
  saturated _ h := nomatch h

/-- One round of the check of an alias. -/
theorem checkAlias_succ_eq_ok_iff {fuel : Nat} {outer : List DeclId}
    (hbody : (set.decl a).body = .alias t) :
    set.checkAlias location (fuel + 1) outer a = .ok () ↔ a ∉ outer ∧ set.Saturated t ∧
      ∀ b, t.Applies b → set.isAlias b →
        set.checkAlias location fuel (a :: outer) b = .ok () := by
  rw [checkAlias, hbody]
  by_cases ha : a ∈ outer
  · rw [if_pos ha]
    exact iff_of_false (fun h => by cases h) fun h => h.1 ha
  · rw [if_neg ha, checkType_eq_ok_iff_applies]
    exact (and_iff_right ha).symm

/-- The check of an alias succeeds if all paths from it are as they should be.  The induction is on
how many aliases may be entered. -/
theorem checkAlias_eq_ok_iff {fuel : Nat} {outer : List DeclId} (ha : set.isAlias a) :
    set.checkAlias location fuel outer a = .ok () ↔
      ∀ rest, (a :: rest).IsChain set.AliasUse → set.PathOk fuel outer (a :: rest) := by
  induction fuel generalizing outer a with
  | zero =>
    refine iff_of_false (fun h => by cases h) fun h => ?_
    exact absurd (h [] (.singleton a)).length_le (by simp)
  | succ fuel ih =>
    obtain ⟨body, hbody⟩ := isAlias_iff.mp ha
    have hbody_eq {t : TypeExpr} (ht : (set.decl a).body = .alias t) : body = t :=
      Body.alias.inj (hbody.symm.trans ht)
    rw [checkAlias_succ_eq_ok_iff hbody]
    constructor
    · rintro ⟨houter, hsat, hnext⟩ rest hchain
      refine .cons houter (fun t ht => hbody_eq ht ▸ hsat) ?_
      cases rest with
      | nil => exact .nil fuel _
      | cons b rest =>
        obtain ⟨⟨hb, t, ht, happlies⟩, hchain⟩ := List.isChain_cons_cons.mp hchain
        obtain rfl := hbody_eq ht
        exact (ih hb).mp (hnext b happlies hb) rest hchain
    · intro h
      have hself := h [] (.singleton a)
      refine ⟨(List.disjoint_cons_right.mp hself.disjoint).1, ?_, fun b happlies hb => ?_⟩
      · exact hself.saturated a (List.mem_singleton_self a) body hbody
      · refine (ih hb).mpr fun rest hchain => (h (b :: rest) ?_).tail
        exact hchain.cons_cons ⟨hb, body, hbody, happlies⟩

theorem checkWritten_eq_ok_iff :
    set.checkWritten location t = .ok () ↔ set.Saturated t ∧
      ∀ a, t.Applies a → set.isAlias a →
        ∀ rest, (a :: rest).IsChain set.AliasUse → set.PathOk maxAliasDepth [] (a :: rest) := by
  rw [checkWritten, checkType_eq_ok_iff_applies]
  refine and_congr_right fun _ => forall₃_congr fun a _ ha => ?_
  exact checkAlias_eq_ok_iff ha

/-- A declaration applied to its own parameters applies nothing else. -/
theorem applies_self_iff {ps : List String} :
    (TypeExpr.mk (.decl id) (ps.map .param)).Applies a ↔ a = id := by
  constructor
  · intro h
    cases h with
    | head => rfl
    | arg ht h =>
      obtain ⟨p, -, rfl⟩ := List.mem_map.mp ht
      cases h with
      | arg ht _ => cases ht
  · rintro rfl
    exact .head _

theorem saturated_self :
    set.Saturated (.mk (.decl id) ((set.decl id).typeParams.map .param)) := by
  refine .mk (List.length_map _).symm fun t ht => ?_
  obtain ⟨p, -, rfl⟩ := List.mem_map.mp ht
  exact .mk rfl fun _ h => nomatch h

/-- What holds of all paths is said of those that begin with some alias. -/
theorem forall_aliasPath_iff {P : List DeclId → Prop} (hnil : P []) :
    (∀ path, set.AliasPath id path → P path) ↔
      ∀ a, set.Starts id a → ∀ rest, (a :: rest).IsChain set.AliasUse → P (a :: rest) := by
  constructor
  · intro h a ha rest hchain
    refine h _ ⟨?_, hchain⟩
    rintro b ⟨⟩
    exact ha
  · rintro h path ⟨hstarts, hchain⟩
    cases path with
    | nil => exact hnil
    | cons a rest => exact h a (hstarts a rfl) rest hchain

/-- A declaration that is no alias passes if the types in its body do. -/
theorem checkDecl_eq_ok_iff_types (hid : ¬ set.isAlias id) :
    set.checkDecl id = .ok () ↔
      ∀ t ∈ (set.decl id).types, set.checkWritten (set.decl id).location t = .ok () := by
  have hmembers (ms : List Member) : set.checkMembers (set.decl id).location ms = .ok () ↔
      ∀ t ∈ ms.map Member.type, set.checkWritten (set.decl id).location t = .ok () := by
    rw [checkMembers, forM_eq_ok_iff, List.forall_mem_map]
    refine forall₂_congr fun m _ => ?_
    rw [checkWritten_eq_ok_iff, checkWritten_eq_ok_iff]
  rw [checkDecl, Decl.types, Decl.members]
  cases hb : (set.decl id).body with
  | struct ms => exact hmembers ms
  | union ms => exact hmembers ms
  | enum ms => exact hmembers ms
  | «alias» t => exact absurd (isAlias_iff.mpr ⟨t, hb⟩) hid
  | newtype t default =>
    dsimp only
    rw [List.forall_mem_singleton]

/-- A declaration passes if its types are saturated and all paths of aliases from it are as they
should be. -/
theorem checkDecl_eq_ok_iff :
    set.checkDecl id = .ok () ↔ (∀ t ∈ (set.decl id).types, set.Saturated t) ∧
      ∀ path, set.AliasPath id path → set.PathOk maxAliasDepth [] path := by
  rw [forall_aliasPath_iff (.nil _ _)]
  by_cases hid : set.isAlias id
  · obtain ⟨body, hbody⟩ := isAlias_iff.mp hid
    have hstarts (a : DeclId) : set.Starts id a ↔ a = id := by rw [Starts, if_pos hid]
    simp only [checkDecl, hbody, checkWritten_eq_ok_iff, saturated_self, applies_self_iff, hstarts,
      true_and, forall_eq, hid, true_implies]
    refine iff_and_self.mpr fun h => ?_
    rw [Decl.types, hbody, List.forall_mem_singleton]
    exact (h [] (.singleton id)).saturated id (List.mem_singleton_self id) body hbody
  · have hstarts (a : DeclId) : set.Starts id a ↔
        set.isAlias a ∧ ∃ t ∈ (set.decl id).types, t.Applies a := by rw [Starts, if_neg hid]
    simp only [checkDecl_eq_ok_iff_types hid, checkWritten_eq_ok_iff, hstarts, forall₂_and]
    refine and_congr_right fun _ => ?_
    constructor
    · rintro h a ⟨ha, t, ht, happlies⟩
      exact h t ht a happlies ha
    · exact fun h t ht a happlies ha => h a ⟨ha, t, ht, happlies⟩

theorem checkDecl_eq_ok_iff_wellFormedBody :
    set.checkDecl id = .ok () ↔ set.WellFormedBody id := by
  rw [checkDecl_eq_ok_iff]
  constructor
  · rintro ⟨hsat, hpaths⟩
    exact ⟨hsat, fun path h => (hpaths path h).saturated, fun path h => (hpaths path h).nodup,
      fun path h => (hpaths path h).length_le⟩
  · intro h
    refine ⟨h.saturated, fun path hpath => ?_⟩
    exact ⟨h.nodup path hpath, List.disjoint_nil_left _, h.length_le path hpath,
      h.aliases_saturated path hpath⟩

/-! ### What is rejected -/

section

variable {P : TypeError → Prop} {enter : DeclId → Except TypeError Unit}

/-- If each of several types fails for a reason of some kind, so do all of them. -/
theorem failsWith_checkTypes {ts : List TypeExpr}
    (h : ∀ t ∈ ts, FailsWith P (set.checkType location enter t)) :
    FailsWith P (set.checkTypes location enter ts) := by
  induction ts with
  | nil => exact .pure ()
  | cons t ts ih =>
    obtain ⟨ht, hts⟩ := List.forall_mem_cons.mp h
    exact ht.bind fun _ => ih hts

/-- A type fails for the number of arguments of one of its parts, or for an alias. -/
theorem failsWith_checkType
    (hparts : ∀ u ∈ t.parts, set.arity u.head ≠ u.args.length →
      P (.arity location (set.headName u.head) (set.arity u.head) u.args.length))
    (henter : ∀ a, t.Applies a → set.isAlias a → FailsWith P (enter a)) :
    FailsWith P (set.checkType location enter t) := by
  induction t with
  | mk head args ih =>
    rw [checkType.eq_def]
    refine FailsWith.bind ?_ fun _ => (failsWith_checkTypes fun t ht => ?_).bind fun _ => ?_
    · intro e he
      obtain ⟨hne, rfl⟩ := checkArity_eq_error_iff.mp he
      exact hparts _ (TypeExpr.mem_parts_mk.mpr (.inl rfl)) hne
    · refine ih t ht (fun u hu => hparts u (TypeExpr.mem_parts_mk.mpr (.inr ⟨t, ht, hu⟩))) ?_
      exact fun a h => henter a (.arg ht h)
    · split
      · next id =>
        split_ifs with ha
        · exact henter id (.head args) ha
        · exact .pure ()
      · exact .pure ()

end

/-- The check of an alias fails for what it finds on a path that goes through the aliases that have
been entered. -/
theorem failsWith_checkAlias {fuel : Nat} {outer : List DeclId}
    (hpath : set.AliasPath id (outer.reverse ++ [a]))
    (hfuel : outer.length + fuel = maxAliasDepth) :
    FailsWith (set.Rejects id) (set.checkAlias location fuel outer a) := by
  induction fuel generalizing outer a with
  | zero =>
    refine .error (.infinite hpath (.inr ?_))
    rw [List.length_reverse, ← hfuel, Nat.add_zero]
  | succ fuel ih =>
    rw [checkAlias]
    split_ifs with ha
    · exact .error (.infinite hpath (.inl (List.mem_reverse.mpr ha)))
    · split
      · next body hbody =>
        have hmem : a ∈ outer.reverse ++ [a] := List.mem_append_right _ (List.mem_singleton_self a)
        refine failsWith_checkType (fun u hu => .arity (.inr ⟨_, hpath, a, hmem, hbody⟩) hu) ?_
        intro b happlies hb
        refine ih ?_ (by rw [List.length_cons]; omega)
        rw [List.reverse_cons]
        exact hpath.snoc ⟨hb, body, hbody, happlies⟩
      · exact .pure ()

theorem failsWith_checkWritten
    (hparts : ∀ u ∈ t.parts, set.arity u.head ≠ u.args.length → set.Rejects id
      (.arity location (set.headName u.head) (set.arity u.head) u.args.length))
    (hstarts : ∀ a, t.Applies a → set.isAlias a → set.Starts id a) :
    FailsWith (set.Rejects id) (set.checkWritten location t) :=
  failsWith_checkType hparts fun a happlies ha =>
    failsWith_checkAlias (.singleton (hstarts a happlies ha)) (Nat.zero_add maxAliasDepth)

theorem failsWith_checkDecl : FailsWith (set.Rejects id) (set.checkDecl id) := by
  by_cases hid : set.isAlias id
  · obtain ⟨body, hbody⟩ := isAlias_iff.mp hid
    rw [checkDecl, hbody]
    refine failsWith_checkWritten (fun u hu hne => ?_) fun a happlies _ => ?_
    · exact absurd (saturated_iff_parts.mp saturated_self u hu) hne
    · rw [Starts, if_pos hid]
      exact applies_self_iff.mp happlies
  · have hwritten (location : Location) (t : TypeExpr) (ht : t ∈ (set.decl id).types) :
        FailsWith (set.Rejects id) (set.checkWritten location t) := by
      refine failsWith_checkWritten (fun u hu => .arity (.inl ht) hu) fun a happlies ha => ?_
      rw [Starts, if_neg hid]
      exact ⟨ha, t, ht, happlies⟩
    have hmembers (ms : List Member) (hms : (set.decl id).types = ms.map Member.type) :
        FailsWith (set.Rejects id) (set.checkMembers (set.decl id).location ms) :=
      .forM fun m hm => hwritten _ _ (hms ▸ List.mem_map_of_mem hm)
    rw [checkDecl]
    cases hb : (set.decl id).body with
    | struct ms => exact hmembers ms (by rw [Decl.types, Decl.members, hb])
    | union ms => exact hmembers ms (by rw [Decl.types, Decl.members, hb])
    | enum ms => exact hmembers ms (by rw [Decl.types, Decl.members, hb])
    | «alias» t => exact absurd (isAlias_iff.mpr ⟨t, hb⟩) hid
    | newtype t default => exact hwritten _ t (by simp [Decl.types, hb])

/-! ### What does not matter -/

namespace SameAliases

variable (h : set.SameAliases set')

include h

theorem saturated_iff : set.Saturated t ↔ set'.Saturated t := by
  have harity : set.arity = set'.arity := by
    funext head
    cases head with
    | decl a => exact h.params a
    | _ => rfl
  rw [saturated_iff_parts, saturated_iff_parts, harity]

theorem isAlias_eq : set.isAlias = set'.isAlias := by
  funext a
  rw [Bool.eq_iff_iff, isAlias_iff, isAlias_iff]
  exact exists_congr (h.body a)

theorem aliasUse_eq : set.AliasUse = set'.AliasUse := by
  funext a b
  simp only [AliasUse, h.isAlias_eq, h.body]

theorem aliasPath_iff (ht : (set.decl id).types = (set'.decl id).types) :
    set.AliasPath id path ↔ set'.AliasPath id path := by
  have hstarts (a : DeclId) : set.Starts id a ↔ set'.Starts id a := by
    rw [Starts, Starts, h.isAlias_eq, ht]
  constructor
  · rintro ⟨hs, hc⟩
    exact ⟨fun a ha => (hstarts a).mp (hs a ha), h.aliasUse_eq ▸ hc⟩
  · rintro ⟨hs, hc⟩
    exact ⟨fun a ha => (hstarts a).mpr (hs a ha), h.aliasUse_eq ▸ hc⟩

theorem symm : set'.SameAliases set where
  params a := (h.params a).symm
  body a t := (h.body a t).symm

theorem wellFormedBody (ht : (set.decl id).types = (set'.decl id).types)
    (hid : set.WellFormedBody id) : set'.WellFormedBody id where
  saturated := ht ▸ fun t htypes => h.saturated_iff.mp (hid.saturated t htypes)
  aliases_saturated path hpath a ha t hbody := h.saturated_iff.mp
    (hid.aliases_saturated path ((h.aliasPath_iff ht).mpr hpath) a ha t ((h.body a t).mpr hbody))
  nodup path hpath := hid.nodup path ((h.aliasPath_iff ht).mpr hpath)
  length_le path hpath := hid.length_le path ((h.aliasPath_iff ht).mpr hpath)

end SameAliases

end ModuleSet

/-! ### Main statement -/

variable {modules : List Source.Module} {set : ModuleSet}

/-- The check of declarations accepts the well-formed ones, and no others; only aliases and numbers
of arguments can be the reason, and structs, unions and newtypes may lead back to themselves. -/
theorem checkDecl_declCheck (hset : ModuleSet.resolve modules = .ok set) : set.DeclCheck where
  accepts _ := ModuleSet.checkDecl_eq_ok_iff_wellFormedBody
  rejects _ := ModuleSet.failsWith_checkDecl
  no_cycle hcheck a ha := by
    have hid : ∀ (i : DeclId) (d : Decl), set.decls[i]? = some d → d.id = i :=
      fun _ _ => (resolve_eq_ok_iff.mp hset).id_eq
    have hwf := (ModuleSet.wellFounded_aliasUse hcheck hid).transGen
    exact hwf.irrefl.irrefl a (Relation.transGen_swap.mpr ha)
  same_aliases set' id h ht := by
    rw [ModuleSet.checkDecl_eq_ok_iff_wellFormedBody, ModuleSet.checkDecl_eq_ok_iff_wellFormedBody]
    exact ⟨h.wellFormedBody ht, h.symm.wellFormedBody ht.symm⟩

/-- The module of `type Row<T> = Vector<T>; struct Node { Row<Node> children; }` and
`newtype Rose = Row<Rose>;`, as it is parsed. -/
def groveModule : Source.Module :=
  let row (name : String) : Source.TypeExpr := .mk "Row" [.mk name [] .start] .start
  ⟨"grove", [], [⟨"Row", ["T"], [], .alias (.mk "Vector" [.mk "T" [] .start] .start), .start⟩,
    ⟨"Node", [], [], .struct [⟨"children", "children", row "Node", none, [], .start⟩], .start⟩,
    ⟨"Rose", [], [], .newtype (row "Rose") none, .start⟩], []⟩

/-- What `groveModule` resolves to. -/
def groveSet : ModuleSet :=
  let row (id : DeclId) : TypeExpr := .mk (.decl 0) [.mk (.decl id) []]
  ⟨[⟨"grove", [], [0, 1, 2], []⟩],
    [⟨0, "grove", "Row", ["T"], [], .alias (.mk (.primitive .vector) [.param "T"])⟩,
      ⟨1, "grove", "Node", [], [], .struct [⟨"children", "children", row 1, none, []⟩]⟩,
      ⟨2, "grove", "Rose", [], [], .newtype (row 2) none⟩],
    [(⟨"grove", "Row"⟩, 0), (⟨"grove", "Node"⟩, 1), (⟨"grove", "Rose"⟩, 2)]⟩

/-- A struct and a newtype that lead back to themselves through an alias pass the check, and no
alias does so. -/
theorem grove_declCheck :
    ModuleSet.resolve [groveModule] = .ok groveSet ∧ groveSet.WellFormedBody 1 ∧
      groveSet.WellFormedBody 2 ∧ ∀ a, ¬ Relation.TransGen groveSet.AliasUse a a := by
  have hset : ModuleSet.resolve [groveModule] = .ok groveSet := rfl
  have hcheck := checkDecl_declCheck hset
  exact ⟨hset, (hcheck.accepts 1).mp rfl, (hcheck.accepts 2).mp rfl, hcheck.no_cycle rfl⟩

end Adl
