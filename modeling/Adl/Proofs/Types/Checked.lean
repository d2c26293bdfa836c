import Adl.Proofs.Model.Indexed
import Adl.Proofs.Types.HeadForm
import Adl.Types.Check

/-!
# Checked — no faults of arity behind the check

`checkAll` looks at the bodies of declarations as they are written, while all later work is done on
bodies with arguments.  The check suffices: in a checked set every stored type is saturated
(`saturated_of_checkAll`), saturated types stay saturated when they are put into each other
(`Saturated.subst`), and so a body is had for every list of arguments of the right length, and the
expansion of aliases has no other fault than that it may not end (`error_of_expand`).
-/

namespace Adl

/-! ### Arity safety -/

/-- The instance of a body has a type for each member, or a target. -/
inductive Members.Shaped : Body → Members → Prop
  | struct {ms : List Member} {types : List TypeExpr} (h : types.length = ms.length) :
      Shaped (.struct ms) (.fields types)
  | union {ms : List Member} {types : List TypeExpr} (h : types.length = ms.length) :
      Shaped (.union ms) (.fields types)
  | enum {ms : List Member} {types : List TypeExpr} (h : types.length = ms.length) :
      Shaped (.enum ms) (.fields types)
  | alias (t u : TypeExpr) : Shaped (.alias t) (.target u)
  | newtype (t u : TypeExpr) (default : Option Literal) : Shaped (.newtype t default) (.target u)

/-- Types with the right number of arguments everywhere are all that there is in a set, and all that
is made from such types. -/
structure ModuleSet.AritySafe (set : ModuleSet) : Prop where
  /-- The types that stand in declarations. -/
  stored : ∀ d ∈ set.decls, ∀ t ∈ d.types, set.Saturated t
  /-- A declaration with as many arguments as it has parameters has a body. -/
  members : ∀ id args location, id < set.decls.length →
    args.length = (set.decl id).typeParams.length →
    ∃ b, set.members id args location = .ok b ∧ b.Shaped (set.decl id).body
  members_saturated : ∀ id args location b, (∀ t ∈ args, set.Saturated t) →
    set.members id args location = .ok b → ∀ t ∈ b.toFields ++ b.target?.toList, set.Saturated t
  instantiate_saturated : ∀ σ location t u, set.Saturated t → (∀ b ∈ σ, set.Saturated b.2) →
    set.instantiate σ location t = .ok u → set.Saturated u
  expand_saturated : ∀ t location u, set.Saturated t →
    ((Graph.plain set).expand t location).run = .ok u → set.Saturated u
  /-- The only fault of an expansion is an alias that may not end. -/
  expand_error : ∀ t location e, set.Saturated t →
    ((Graph.plain set).expand t location).run = .error e →
    ∃ id, set.isAlias id ∧ e = .infiniteAlias location (set.scopedName id).text

theorem Body.shaped_subst (b : Body) (σ : Bindings) : (b.subst σ).Shaped b := by
  cases b with
  | struct ms => exact .struct (List.length_map _)
  | union ms => exact .union (List.length_map _)
  | enum ms => exact .enum (List.length_map _)
  | «alias» t => exact .alias t _
  | newtype t default => exact .newtype t _ default

namespace ModuleSet

variable {set : ModuleSet} {location : Location} {id : DeclId} {t u : TypeExpr}

/-! ### What the check says -/

section

variable {enter : DeclId → Except TypeError Unit}

theorem checkType_eq_ok_iff {head : TypeRef} {args : List TypeExpr} :
    set.checkType location enter (.mk head args) = .ok () ↔
      set.arity head = args.length ∧ set.checkTypes location enter args = .ok () ∧
        ∀ id, head = .decl id → set.isAlias id → enter id = .ok () := by
  rw [checkType.eq_def]
  dsimp only
  rw [check_bind_eq_ok_iff, check_bind_eq_ok_iff, checkArity_eq_ok_iff]
  refine and_congr_right fun _ => and_congr_right fun _ => ?_
  cases head with
  | primitive p => simp [pure_eq_ok_iff]
  | typeParam name => simp [pure_eq_ok_iff]
  | decl id =>
    dsimp only
    by_cases ha : set.isAlias id
    · simp [ha]
    · simp [ha, pure_eq_ok_iff]

theorem checkTypes_eq_ok_iff {ts : List TypeExpr} :
    set.checkTypes location enter ts = .ok () ↔
      ∀ t ∈ ts, set.checkType location enter t = .ok () := by
  induction ts with
  | nil => simp [checkTypes, pure_eq_ok_iff]
  | cons t ts ih =>
    rw [checkTypes, check_bind_eq_ok_iff, List.forall_mem_cons, ih]

/-- A type that passes the check has the right number of arguments everywhere, whatever is asked of
aliases. -/
theorem saturated_of_checkType (h : set.checkType location enter t = .ok ()) :
    set.Saturated t := by
  induction t with
  | mk head args ih =>
    obtain ⟨hlen, hargs, -⟩ := checkType_eq_ok_iff.mp h
    exact .mk hlen fun t ht => ih t ht (checkTypes_eq_ok_iff.mp hargs t ht)

end

theorem saturated_of_checkMembers {ms : List Member}
    (h : set.checkMembers location ms = .ok ()) : ∀ t ∈ ms.map Member.type, set.Saturated t := by
  rw [checkMembers, forM_eq_ok_iff] at h
  exact List.forall_mem_map.mpr fun m hm => saturated_of_checkType (h m hm)

/-- The body of an alias is checked when the alias is, applied to its own parameters. -/
theorem saturated_of_checkAlias {args : List TypeExpr} (hbody : (set.decl id).body = .alias t)
    (h : set.checkWritten location (.mk (.decl id) args) = .ok ()) : set.Saturated t := by
  have ha : set.isAlias id := isAlias_iff.mpr ⟨t, hbody⟩
  have henter := (checkType_eq_ok_iff.mp h).2.2 id rfl ha
  rw [maxAliasDepth, checkAlias, if_neg List.not_mem_nil, hbody] at henter
  exact saturated_of_checkType henter

theorem saturated_of_checkDecl (h : set.checkDecl id = .ok ()) :
    ∀ t ∈ (set.decl id).types, set.Saturated t := by
  rw [checkDecl] at h
  rw [Decl.types, Decl.members]
  cases hb : (set.decl id).body with
  | struct ms =>
    rw [hb] at h
    exact saturated_of_checkMembers h
  | union ms =>
    rw [hb] at h
    exact saturated_of_checkMembers h
  | enum ms =>
    rw [hb] at h
    exact saturated_of_checkMembers h
  | «alias» t =>
    rw [hb] at h
    exact List.forall_mem_singleton.mpr (saturated_of_checkAlias hb h)
  | newtype t default =>
    rw [hb] at h
    exact List.forall_mem_singleton.mpr (saturated_of_checkType h)

theorem checkDecl_of_checkAll (h : set.checkAll = .ok ()) {d : Decl} (hd : d ∈ set.decls) :
    set.checkDecl d.id = .ok () := by
  rw [checkAll] at h
  split at h
  · next hnil =>
    have hnone := List.filterMap_eq_nil_iff.mp (firstPerModule_eq_nil_iff.mp hnil) d hd
    split at hnone
    · next hok => exact hok
    · cases hnone
  · cases h

theorem saturated_of_checkAll (h : set.checkAll = .ok ())
    (hid : ∀ (i : DeclId) (d : Decl), set.decls[i]? = some d → d.id = i) {d : Decl}
    (hd : d ∈ set.decls) : ∀ t ∈ d.types, set.Saturated t := by
  obtain ⟨i, hi⟩ := List.mem_iff_getElem?.mp hd
  have hdecl := checkDecl_of_checkAll h hd
  rw [hid i d hi] at hdecl
  rw [← decl_of_getElem? hi]
  exact saturated_of_checkDecl hdecl

/-- In a checked set all bodies can be instantiated.  Where there is no declaration, there are no
types either. -/
theorem proper_of_checkAll {modules : List Source.Module} (hset : Resolved modules set)
    (h : set.checkAll = .ok ()) (id : DeclId) : set.Proper (set.decl id) := by
  cases hx : set.decls[id]? with
  | none =>
    rw [decl, hx]
    exact fun _ ht => absurd ht List.not_mem_nil
  | some d =>
    rw [decl_of_getElem? hx]
    have hd := List.mem_of_getElem? hx
    exact fun t ht => ⟨saturated_of_checkAll h (fun _ _ => hset.id_eq) hd t ht,
      (hset.wellScoped hx).params t ht⟩

/-! ### What keeps types saturated -/

theorem AliasSteps.saturated {n : Nat} (h : set.AliasSteps n t u) (ht : set.Saturated t) :
    set.Saturated u := by
  induction h with
  | refl t => exact ht
  | step first _ ih =>
    obtain ⟨-, hb⟩ := first
    exact ih (hb.saturated (saturated_mk_iff.mp ht).2 _ (List.mem_singleton_self _))

/-! ### Bodies and expansions that are always had -/

theorem members_eq_ok {args : List TypeExpr} (hproper : set.Proper (set.decl id))
    (hlen : args.length = (set.decl id).typeParams.length) :
    set.members id args location =
      .ok ((set.decl id).body.subst ((set.decl id).typeParams.zip args)) :=
  members_eq_ok_iff.mpr ⟨hlen.symm, hproper, rfl⟩

/-- The expansion of a saturated type fails only at an alias, for having gone on for too long. -/
theorem error_of_expand (hproper : ∀ id, set.Proper (set.decl id)) {e : TypeError}
    (ht : set.Saturated t) (h : ((Graph.plain set).expand t location).run = .error e) :
    ∃ id, set.isAlias id ∧ e = .infiniteAlias location (set.scopedName id).text := by
  rcases Graph.stops_or_fails h with ⟨_, id, hstop, rfl⟩ | ⟨_, -, u, hsteps, hfails⟩
  · exact ⟨id, hstop.is_alias, rfl⟩
  · obtain ⟨id, hid, ha⟩ := hfails.aliasHead
    obtain ⟨head, args⟩ := u
    obtain rfl : head = .decl id := hid
    have hlen := (saturated_mk_iff.mp (hsteps.saturated ht)).1
    have herror := (stepFails_iff ha).mp hfails
    rw [members_eq_ok (hproper id) hlen.symm] at herror
    cases herror

end ModuleSet

/-! ### Main statement -/

variable {modules : List Source.Module} {set : ModuleSet}

/-- In a set that passes the check, types and bodies cannot fail later for the number of arguments
or for a parameter that is not bound. -/
theorem checkAll_aritySafe (hset : ModuleSet.resolve modules = .ok set)
    (hcheck : set.checkAll = .ok ()) : set.AritySafe := by
  have hr := resolve_eq_ok_iff.mp hset
  have hproper := ModuleSet.proper_of_checkAll hr hcheck
  refine ⟨?_, ?_, ?_, ?_, ?_, ?_⟩
  · exact fun d hd => ModuleSet.saturated_of_checkAll hcheck (fun _ _ => hr.id_eq) hd
  · exact fun id args location _ hlen =>
      ⟨_, ModuleSet.members_eq_ok (hproper id) hlen, Body.shaped_subst _ _⟩
  · intro id args location b hargs hb
    exact (ModuleSet.members_eq_ok_iff.mp hb).saturated hargs
  · intro σ location t u ht hσ hu
    obtain ⟨-, rfl⟩ := ModuleSet.instantiate_eq_ok_iff.mp hu
    exact ht.subst fun p v hv => hσ (p, v) (mem_of_lookup hv)
  · intro t location u ht hu
    obtain ⟨⟨n, -, hsteps⟩, -⟩ := Graph.yields_expand_iff.mp hu
    exact hsteps.saturated ht
  · exact fun t location e ht he => ModuleSet.error_of_expand hproper ht he

/-- The module of `type Row<T> = Vector<T>; type Grid<T> = Row<Row<T>>;` and
`newtype Board<T> = Grid<Nullable<T>>;`, as it is parsed. -/
def boardModule : Source.Module :=
  let param : Source.TypeExpr := .mk "T" [] .start
  let row (t : Source.TypeExpr) : Source.TypeExpr := .mk "Row" [t] .start
  ⟨"boards", [],
    [⟨"Row", ["T"], [], .alias (.mk "Vector" [param] .start), .start⟩,
      ⟨"Grid", ["T"], [], .alias (row (row param)), .start⟩,
      ⟨"Board", ["T"], [], .newtype (.mk "Grid" [.mk "Nullable" [param] .start] .start) none,
        .start⟩], []⟩

/-- What `boardModule` resolves to. -/
def boardSet : ModuleSet :=
  let row (t : TypeExpr) : TypeExpr := .mk (.decl 0) [t]
  ⟨[⟨"boards", [], [0, 1, 2], []⟩],
    [⟨0, "boards", "Row", ["T"], [], .alias (.mk (.primitive .vector) [.param "T"])⟩,
      ⟨1, "boards", "Grid", ["T"], [], .alias (row (row (.param "T")))⟩,
      ⟨2, "boards", "Board", ["T"], [],
        .newtype (.mk (.decl 1) [.mk (.primitive .nullable) [.param "T"]]) none⟩],
    [(⟨"boards", "Row"⟩, 0), (⟨"boards", "Grid"⟩, 1), (⟨"boards", "Board"⟩, 2)]⟩

/-- Aliases that are applied to each other pass the check. -/
theorem board_aritySafe :
    ModuleSet.resolve [boardModule] = .ok boardSet ∧ boardSet.checkAll = .ok () ∧
      boardSet.AritySafe := by
  have hset : ModuleSet.resolve [boardModule] = .ok boardSet := rfl
  have hcheck : boardSet.checkAll = .ok () := rfl
  exact ⟨hset, hcheck, checkAll_aritySafe hset hcheck⟩

end Adl
