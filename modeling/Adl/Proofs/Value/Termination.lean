import Adl.Proofs.Value.Guarded
import Adl.Proofs.Value.Normalization

/-!
# Termination — reading a literal ends

A literal is read at a type by reading its parts at other types (`Reads`), declared defaults in
place of parts that are left out (`pulls` fewer of these may be nested then), or the literal itself
at the type to which an alias, a newtype or `Nullable` hands it on.  In a guarded set this ends
(`ModuleSet.Guarded.wellFounded_reads`): the number of defaults that may be nested, the literal, and
the links from the type get smaller, in this order, however large the types become.

So the reading never runs out of links: its answer is a value or the fault of a default, and never
that a type stands for itself (`normalize_terminates`).
-/

namespace Adl

/-! ### Calls -/

/-- What is read: a literal at a type, where so many declared defaults may be nested. -/
structure Call where
  pulls : Nat
  literal : Literal
  type : TypeExpr

/-- To read the first is to read the second. -/
inductive Call.Reads (set : ModuleSet) : Call → Call → Prop
  | item {n : Nat} {l : Literal} {items : List Literal} {t elem : TypeExpr} {rest : List TypeExpr}
      (ht : set.Expands t (.mk (.primitive .vector) (elem :: rest))) (hl : l ∈ items) :
      Reads set ⟨n, .array items, t⟩ ⟨n, l, elem⟩
  | entry {n : Nat} {e : String × Literal} {entries : List (String × Literal)} {t elem : TypeExpr}
      {rest : List TypeExpr} (ht : set.Expands t (.mk (.primitive .stringMap) (elem :: rest)))
      (he : e ∈ entries) : Reads set ⟨n, .object entries, t⟩ ⟨n, e.2, elem⟩
  | present {n : Nat} {l : Literal} {t elem : TypeExpr} {rest : List TypeExpr}
      (ht : set.Expands t (.mk (.primitive .nullable) (elem :: rest))) (hl : l ≠ .null) :
      Reads set ⟨n, l, t⟩ ⟨n, l, elem⟩
  | field {n : Nat} {entries : List (String × Literal)} {s : Nat × Literal} {t type : TypeExpr}
      {id : DeclId} {args types : List TypeExpr} {ms : List Member} {m : Member}
      (ht : set.Expands t (.mk (.decl id) args)) (hbody : (set.decl id).body = .struct ms)
      (htypes : set.BodyAt id args (.fields types)) (hm : (m, type) ∈ ms.zip types)
      (hs : FieldSource entries n m s) : Reads set ⟨n, .object entries, t⟩ ⟨s.1, s.2, type⟩
  | payload {n : Nat} {l payload : Literal} {t type : TypeExpr} {id : DeclId}
      {args types : List TypeExpr} {ms : List Member} {m : Member}
      (ht : set.Expands t (.mk (.decl id) args)) (hbody : (set.decl id).body = .union ms)
      (htypes : set.BodyAt id args (.fields types)) (hm : (m, type) ∈ ms.zip types)
      (hl : l = .object [(m.serializedName, payload)] ∨
        l = .string m.serializedName ∧ payload = .null) : Reads set ⟨n, l, t⟩ ⟨n, payload, type⟩
  | newtype {n : Nat} {l : Literal} {t target type : TypeExpr} {id : DeclId}
      {args : List TypeExpr} {default : Option Literal}
      (ht : set.Expands t (.mk (.decl id) args))
      (hbody : (set.decl id).body = .newtype target default)
      (htarget : set.BodyAt id args (.target type)) : Reads set ⟨n, l, t⟩ ⟨n, l, type⟩

variable {set : ModuleSet}

/-- Expanding a type, and one more link. -/
theorem ModuleSet.Expands.transGen_link {null : Bool} {c : Nat} {t u v : TypeExpr}
    (h : set.Expands t u) (hl : set.Link null u c v) :
    Relation.TransGen (fun v t => ∃ c, set.Link null t c v) v t := by
  obtain ⟨⟨n, -, hn⟩, -⟩ := h
  induction hn with
  | refl t => exact .single ⟨c, hl⟩
  | step first _ ih => exact (ih hl).tail ⟨0, .alias first⟩

/-- What is read may nest fewer defaults, or is a smaller literal, or is the same literal at a type
to which links lead. -/
theorem Call.Reads.cases {x y : Call} (h : x.Reads set y) :
    y.pulls < x.pulls ∨
    y.pulls = x.pulls ∧ (y.literal.weight < x.literal.weight ∨ y.literal = x.literal ∧
      Relation.TransGen (fun v t => ∃ c, set.Link x.literal.isNull t c v) y.type x.type) := by
  cases h with
  | item ht hl => exact .inr ⟨rfl, .inl (Literal.weight_lt_of_mem_items hl)⟩
  | entry ht he => exact .inr ⟨rfl, .inl (Literal.weight_lt_of_mem_entries he)⟩
  | present ht hl =>
    exact .inr ⟨rfl, .inr ⟨rfl, ht.transGen_link (.nullable (Literal.isNull_eq_false_iff.mpr hl))⟩⟩
  | field ht hbody htypes hm hs =>
    cases hs with
    | given h => exact .inr ⟨rfl, .inl (Literal.weight_lt_of_mem_entries h)⟩
    | declared _ _ => exact .inl (Nat.lt_succ_self _)
  | payload ht hbody htypes hm hl =>
    rcases hl with rfl | ⟨rfl, rfl⟩
    · exact .inr ⟨rfl, .inl (Literal.weight_lt_of_mem_entries (List.mem_singleton_self (_, _)))⟩
    · exact .inr ⟨rfl, .inl Nat.zero_lt_one⟩
  | newtype ht hbody htarget =>
    exact .inr ⟨rfl, .inr ⟨rfl, ht.transGen_link (.newtype hbody htarget)⟩⟩

/-- In a guarded set no literal is read for ever. -/
theorem ModuleSet.Guarded.wellFounded_reads (h : set.Guarded) :
    WellFounded fun y x : Call => x.Reads set y := by
  refine ⟨fun ⟨n, l, t⟩ => ?_⟩
  induction n using Nat.strongRecOn generalizing l t with
  | ind n ih_pulls =>
    generalize hw : l.weight = w
    induction w using Nat.strongRecOn generalizing l t with
    | ind w ih_part =>
      subst hw
      have hacc := Acc.transGen (show set.LinksEnd l.isNull t from h.acc_link t)
      induction hacc with
      | intro t _ ih_link =>
        refine .intro _ fun ⟨n', l', t'⟩ hr => ?_
        rcases hr.cases with hlt | ⟨heq, hlt | ⟨hl, hlink⟩⟩
        · exact ih_pulls n' hlt l' t'
        · cases heq
          exact ih_part _ hlt l' t' rfl
        · cases heq
          cases hl
          exact ih_link t' hlink

/-! ### Links that are left -/

namespace ModuleSet

variable {null : Bool} {n k s c : Nat} {t u v : TypeExpr}

/-- The links from a type end, and count at most `n`. -/
def LinksWithin (set : ModuleSet) (null : Bool) (n : Nat) (t : TypeExpr) : Prop :=
  ∃ s k u, set.Chain null s k t u ∧ set.Last null u ∧ k ≤ n

/-- Links that end are a chain. -/
theorem LinksEnd.exists_chain (h : set.LinksEnd null t) :
    ∃ s k u, set.Chain null s k t u ∧ set.Last null u := by
  induction h with
  | intro t _ ih =>
    by_cases hlast : set.Last null t
    · exact ⟨0, 0, t, .refl t, hlast⟩
    · simp only [Last, not_forall, not_not] at hlast
      obtain ⟨c, u, hl⟩ := hlast
      obtain ⟨s, k, v, hc, hv⟩ := ih u ⟨c, hl⟩
      exact ⟨s + 1, c + k, v, .link hl hc, hv⟩

/-- In a guarded set the bound of a type is enough for its links. -/
theorem Guarded.linksWithin (h : set.Guarded) (t : TypeExpr) :
    set.LinksWithin null (set.chainBound t) t := by
  obtain ⟨s, k, u, hc, hu⟩ := (h.acc_link t).exists_chain
  exact ⟨s, k, u, hc, hu, hc.le_bound hu⟩

/-- Behind a link there is as much left as it does not count. -/
theorem LinksWithin.link (h : set.LinksWithin null n t) (hl : set.Link null t c u) :
    ∃ k, n = k + c ∧ set.LinksWithin null k u := by
  obtain ⟨s, k, v, hc, hv, hle⟩ := h
  cases hc with
  | refl => exact absurd hl (hv c u)
  | @link s c' k _ w _ first rest =>
    obtain ⟨rfl, rfl⟩ := first.deterministic hl
    exact ⟨n - c', by omega, s, k, v, rest, hv, by omega⟩

theorem LinksWithin.expands (h : set.LinksWithin null n t) (he : set.Expands t u) :
    set.LinksWithin null n u := by
  obtain ⟨⟨m, -, hm⟩, -⟩ := he
  induction hm with
  | refl t => exact h
  | step first _ ih =>
    obtain ⟨k, rfl, hw⟩ := h.link (.alias first)
    exact ih hw

end ModuleSet

/-! ### Actions that do not run out of links -/

namespace Graph

variable {α β : Type} {x : ExceptT Failure Id α} {location : Location}

/-- An action does not fail because a type stands for itself. -/
def Ending (x : ExceptT Failure Id α) : Prop := FailsWith (fun f => f.fault ≠ .unending) x.run

theorem Ending.pure (a : α) : Ending (pure a : ExceptT Failure Id α) := FailsWith.pure a

theorem Ending.fault {f : DefaultFault} (h : f ≠ .unending) :
    Ending (fault f : ExceptT Failure Id α) := FailsWith.error h

theorem Ending.bind {f : α → ExceptT Failure Id β} (hx : Ending x)
    (hf : ∀ a, Yields x a → Ending (f a)) : Ending (x >>= f) := by
  intro e he
  rw [run_bind] at he
  cases hr : x.run with
  | ok a =>
    rw [hr] at he
    exact hf a hr e he
  | error e' =>
    rw [hr] at he
    cases he
    exact hx _ hr

/-- A change of failures that leaves this fault alone, and does not make it. -/
theorem Ending.adapt {g : Failure → Failure} (hx : Ending x)
    (hg : ∀ f, f.fault ≠ .unending → (g f).fault ≠ .unending) : Ending (x.adapt g) := by
  intro e he
  have he : (x.run : Except Failure α).mapError g = .error e := he
  cases hr : x.run with
  | ok a =>
    rw [hr] at he
    cases he
  | error f =>
    rw [hr] at he
    cases he
    exact hg f (hx f hr)

theorem Ending.within (hx : Ending x) (segment : String) : Ending (within segment x) :=
  hx.adapt fun _ hf => hf

theorem Ending.missingPayload (hx : Ending x) (name : String) :
    Ending (x.adapt (.missingPayload name)) := by
  refine hx.adapt fun f hf => ?_
  unfold Failure.missingPayload
  split
  · exact hf
  · simp [Failure.here]

theorem ending_typed (x : ExceptT TypeError Id α) : Ending (typed x) := by
  intro e he
  have he :
      (x.run : Except TypeError α).mapError (fun e => Failure.here (.illTyped e)) = .error e :=
    he
  cases hr : x.run with
  | ok a =>
    rw [hr] at he
    cases he
  | error f =>
    rw [hr] at he
    cases he
    simp [Failure.here]

theorem ending_checked {x : Except DefaultFault α} (h : FailsWith (· ≠ .unending) x) :
    Ending (checked x) := by
  cases x with
  | ok a => exact .pure a
  | error f => exact .fault (h f rfl)

end Graph

namespace Normalize

variable {l : Literal} {d : Decl}

@[simp] theorem mismatch_ne_unending (expected : String) (found : Literal) :
    mismatch expected found ≠ .unending := by
  simp [mismatch]

theorem failsWith_scalar (p : Primitive) : FailsWith (· ≠ .unending) (scalar p l) := by
  intro e he
  unfold scalar integer at he
  repeat' split at he
  all_goals cases he <;> simp

theorem failsWith_checkFields {seen : List String} {entries : List (String × Literal)} :
    FailsWith (· ≠ .unending) (checkFields d seen entries) := by
  induction entries generalizing seen with
  | nil => exact .pure ()
  | cons e entries ih =>
    rw [checkFields]
    split
    · exact .error (by simp)
    · split
      · exact .error (by simp)
      · exact ih

theorem failsWith_label : FailsWith (· ≠ .unending) (label d l) := by
  intro e he
  unfold label at he
  dsimp only at he
  repeat' split at he
  all_goals cases he <;> simp

theorem failsWith_checkUnique {set : ModuleSet} {v : Value} :
    FailsWith (· ≠ .unending) (checkUnique set d v) := by
  intro e he
  unfold checkUnique at he
  repeat' split at he
  all_goals cases he <;> simp

end Normalize

namespace Graph

variable {set : ModuleSet} {location : Location} {k chain : Nat} {l : Literal} {t elem : TypeExpr}

/-! ### The parts of a literal -/

theorem ending_elements {items : List Literal} {index : Nat}
    (hv : ∀ l ∈ items, Ending ((plain set).value location k l (set.chainBound elem) elem)) :
    Ending ((plain set).elements location k items index elem) := by
  induction items generalizing index with
  | nil =>
    rw [elements]
    exact .pure []
  | cons item items ih =>
    obtain ⟨hitem, hitems⟩ := List.forall_mem_cons.mp hv
    rw [elements]
    exact (hitem.within _).bind fun v _ => (ih hitems).bind fun vs _ => .pure _

theorem ending_mapEntries {entries : List (String × Literal)} {seen : List String}
    (hv : ∀ e ∈ entries, Ending ((plain set).value location k e.2 (set.chainBound elem) elem)) :
    Ending ((plain set).mapEntries location k entries seen elem) := by
  induction entries generalizing seen with
  | nil =>
    rw [mapEntries]
    exact .pure []
  | cons e entries ih =>
    obtain ⟨he, hes⟩ := List.forall_mem_cons.mp hv
    rw [mapEntries]
    split
    · exact .fault (by simp)
    · exact (he.within _).bind fun v _ => (ih hes).bind fun vs _ => .pure _

theorem ending_fieldValue {entries : List (String × Literal)} {field : Member}
    (ih_default : ∀ l t, Ending ((plain set).value location k l (set.chainBound t) t))
    (hv : ∀ e ∈ entries, Ending ((plain set).value location (k + 1) e.2 (set.chainBound t) t)) :
    Ending ((plain set).fieldValue location (k + 1) entries field t) := by
  rw [fieldValue]
  split
  · next l hl => exact (hv _ (mem_of_lookup hl)).within _
  · exact (ih_default _ t).within _
  · exact .fault (by simp)

theorem ending_fieldValues {entries : List (String × Literal)}
    {fields : List (Member × TypeExpr)}
    (hf : ∀ f ∈ fields, Ending ((plain set).fieldValue location k entries f.1 f.2)) :
    Ending ((plain set).fieldValues location k entries fields) := by
  induction fields with
  | nil =>
    rw [fieldValues]
    exact .pure []
  | cons f fields ih =>
    obtain ⟨hfirst, hrest⟩ := List.forall_mem_cons.mp hf
    rw [fieldValues]
    exact hfirst.bind fun v _ => (ih hrest).bind fun vs _ => .pure _

theorem ending_alternative {id : DeclId} {args : List TypeExpr} {ms : List Member}
    {name : String} : Ending ((plain set).alternative location id args ms name) := by
  unfold alternative
  split
  · exact .fault (by simp)
  · exact (ending_typed _).bind fun b _ => .pure _

/-- One step: reading a literal does not run out of links, if reading its parts does not and enough
links are left for the type. -/
theorem ending_step (ht : set.LinksWithin l.isNull chain t)
    (ih_default : ∀ l t, Ending ((plain set).value location k l (set.chainBound t) t))
    (ih_part : ∀ l', l'.weight < l.weight → ∀ t,
      Ending ((plain set).value location (k + 1) l' (set.chainBound t) t))
    (ih_chain : ∀ c < chain, ∀ t, set.LinksWithin l.isNull c t →
      Ending ((plain set).value location (k + 1) l c t)) :
    Ending ((plain set).value location (k + 1) l chain t) := by
  rw [value]
  refine (ending_typed _).bind fun u hu => ?_
  replace ht := ht.expands (yields_expand_iff.mp (yields_typed.mp hu))
  obtain ⟨head, args⟩ := u
  dsimp only [TypeExpr.head, TypeExpr.args]
  cases head with
  | typeParam name => exact .fault (by simp)
  | primitive p =>
    cases p with
    | vector =>
      cases l with
      | array items =>
        cases args with
        | nil => exact .fault (by simp)
        | cons elem rest =>
          refine Ending.bind (ending_elements fun l hl => ?_) fun vs _ => .pure _
          exact ih_part l (Literal.weight_lt_of_mem_items hl) elem
      | _ => exact .fault (by simp)
    | stringMap =>
      cases l with
      | object entries =>
        cases args with
        | nil => exact .fault (by simp)
        | cons elem rest =>
          refine Ending.bind (ending_mapEntries fun e he => ?_) fun vs _ => .pure _
          exact ih_part e.2 (Literal.weight_lt_of_mem_entries he) elem
      | _ => exact .fault (by simp)
    | nullable =>
      by_cases hl : l = .null
      · subst hl
        exact .pure _
      · have hnull := Literal.isNull_eq_false_iff.mpr hl
        cases args with
        | nil => cases l <;> first | exact absurd rfl hl | exact .fault (by simp)
        | cons elem rest =>
          obtain ⟨c, rfl, hc⟩ := ht.link (.nullable hnull)
          have hinner := (ih_chain c (Nat.lt_succ_self c) elem hc).bind
            fun v _ => Ending.pure (Value.present v)
          cases l <;> first | exact absurd rfl hl | exact hinner
    | _ => exact ending_checked (Normalize.failsWith_scalar _)
  | decl id =>
    dsimp only [plain_set]
    cases hb : (set.decl id).body with
    | struct ms =>
      cases l with
      | object entries =>
        refine (ending_typed _).bind fun b _ => ?_
        refine (ending_checked Normalize.failsWith_checkFields).bind fun _ _ => ?_
        refine Ending.bind (ending_fieldValues fun f _ => ?_) fun vs _ => .pure _
        refine ending_fieldValue ih_default fun e he => ?_
        exact ih_part e.2 (Literal.weight_lt_of_mem_entries he) f.2
      | _ => exact .fault (by simp)
    | union ms =>
      cases l with
      | string name =>
        refine ending_alternative.bind fun found _ => ?_
        refine Ending.bind ?_ fun v _ => .pure _
        exact ((ih_part .null Nat.zero_lt_one _).missingPayload name).within name
      | object entries =>
        rcases entries with _ | ⟨⟨name, payload⟩, _ | ⟨e, entries⟩⟩
        · exact .fault (by simp)
        · refine ending_alternative.bind fun found _ => ?_
          refine Ending.bind (Ending.within ?_ name) fun v _ => .pure _
          exact ih_part payload (Literal.weight_lt_of_mem_entries
            (List.mem_singleton_self (name, payload))) _
        · exact .fault (by simp)
      | _ => exact .fault (by simp)
    | enum ms => exact (ending_checked Normalize.failsWith_label).bind fun index _ => .pure _
    | newtype target default =>
      refine (ending_typed _).bind fun b hbody => ?_
      have hbody := yields_members.mp (yields_typed.mp hbody)
      cases b with
      | fields types => exact .fault (by simp)
      | target type =>
        obtain ⟨c, rfl, hc⟩ := ht.link (.newtype hb hbody)
        refine (ih_chain c (Nat.lt_succ_self c) type hc).bind fun v _ => ?_
        exact (ending_checked Normalize.failsWith_checkUnique).bind fun _ _ => .pure _
    | «alias» target => exact .fault (by simp)

/-- In a guarded set the reading of a literal does not run out of links. -/
theorem ending_value (h : set.Guarded) (ht : set.LinksWithin l.isNull chain t) :
    Ending ((plain set).value location k l chain t) := by
  induction k generalizing l chain t with
  | zero =>
    rw [value]
    exact .fault (by simp)
  | succ k ih_default =>
    generalize hw : l.weight = w
    induction w using Nat.strongRecOn generalizing l chain t with
    | ind w ih_part =>
      subst hw
      induction chain using Nat.strongRecOn generalizing t with
      | ind chain ih_chain =>
        refine ending_step ht (fun l t => ih_default (h.linksWithin t)) (fun l' hl' t => ?_)
          fun c hc t ht => ih_chain c hc ht
        exact ih_part l'.weight hl' (h.linksWithin t) rfl

end Graph

/-! ### Main statement -/

/-- In a guarded set the reading of literals is well-founded, so that normalizing a literal at any
type, whether or not the set and the type pass the check, gives a value or says what is wrong with
the literal as a default.  It never runs out of links because a type stands for itself, however the
types and the declared defaults refer to each other. -/
theorem normalize_terminates {set : ModuleSet} (h : set.Guarded) :
    (WellFounded fun y x : Call => x.Reads set y) ∧
    ∀ l t location,
      (∃ v, ((Graph.plain set).normalize l t location).run = .ok v) ∨
      ∃ path fault, ((Graph.plain set).normalize l t location).run =
        .error (.default location path fault) ∧ fault ≠ .unending := by
  refine ⟨h.wellFounded_reads, fun l t location => ?_⟩
  have hlinks : set.LinksWithin l.isNull (set.chainBound t) t := h.linksWithin t
  have hending : Graph.Ending
      ((Graph.plain set).value location (maxDefaultDepth + 1) l (set.chainBound t) t) :=
    Graph.ending_value h hlinks
  have hrun : ((Graph.plain set).normalize l t location).run =
      (((Graph.plain set).value location (maxDefaultDepth + 1) l (set.chainBound t) t).run :
        Except Failure Value).mapError fun f => Error.default location f.path f.fault := rfl
  rw [hrun]
  cases hr :
      ((Graph.plain set).value location (maxDefaultDepth + 1) l (set.chainBound t) t).run with
  | ok v => exact .inl ⟨v, rfl⟩
  | error f => exact .inr ⟨f.path, f.fault, rfl, hending f hr⟩

/-- The module of `struct Loop { Loop next = {}; };`, `newtype Maybe<T> = Nullable<T>;` and
`type Deep<T> = Maybe<Maybe<T>>;`, as it is parsed. -/
def loopModule : Source.Module :=
  let param : Source.TypeExpr := .mk "T" [] .start
  ⟨"loops", [],
    [⟨"Loop", [], [], .struct
        [⟨"next", "next", .mk "Loop" [] .start, some (.object []), [], .start⟩],
      .start⟩,
    ⟨"Maybe", ["T"], [], .newtype (.mk "Nullable" [param] .start) none, .start⟩,
    ⟨"Deep", ["T"], [], .alias (.mk "Maybe" [.mk "Maybe" [param] .start] .start), .start⟩], []⟩

/-- What `loopModule` resolves to. -/
def loopSet : ModuleSet :=
  ⟨[⟨"loops", [], [0, 1, 2], []⟩],
    [⟨0, "loops", "Loop", [], [],
        .struct [⟨"next", "next", .mk (.decl 0) [], some (.object []), []⟩]⟩,
      ⟨1, "loops", "Maybe", ["T"], [], .newtype (.mk (.primitive .nullable) [.param "T"]) none⟩,
      ⟨2, "loops", "Deep", ["T"], [], .alias (.mk (.decl 1) [.mk (.decl 1) [.param "T"]])⟩],
    [(⟨"loops", "Loop"⟩, 0), (⟨"loops", "Maybe"⟩, 1), (⟨"loops", "Deep"⟩, 2)]⟩

theorem guarded_loopSet : loopSet.Guarded := by
  refine ModuleSet.guarded_of_lt fun a b ⟨_, t, ht, hb⟩ => ?_
  have hparam : ¬ loopSet.Exposes b (.param "T") := fun h => by cases h
  match a with
  | 0 => cases ht
  | 1 =>
    cases ht
    cases hb with
    | nullable hmem hb => exact absurd (List.mem_singleton.mp hmem ▸ hb) hparam
  | 2 =>
    cases ht
    cases hb with
    | head => exact Nat.lt_succ_self 1
    | applied _ hmem hb =>
      rw [List.mem_singleton.mp hmem] at hb
      cases hb with
      | head => exact Nat.lt_succ_self 1
      | applied _ hmem hb => exact absurd (List.mem_singleton.mp hmem ▸ hb) hparam
  | a + 3 => cases ht

set_option maxRecDepth 20000 in
/-- A struct that is its own default passes the check.  Reading it below generic newtypes ends where
no more defaults may be nested. -/
theorem loop_terminates :
    ModuleSet.resolve [loopModule] = .ok loopSet ∧ loopSet.checkAll = .ok () ∧ loopSet.Guarded ∧
      ∃ path fault, ((Graph.plain loopSet).normalize (.object [])
          (.mk (.decl 2) [.mk (.decl 0) []]) (.ofModule "loops")).run =
        .error (.default (.ofModule "loops") path fault) ∧ fault ≠ .unending ∧
          path.length = maxDefaultDepth + 1 := by
  have hrun : ((Graph.plain loopSet).normalize (.object []) (.mk (.decl 2) [.mk (.decl 0) []])
      (.ofModule "loops")).run = .error
        (.default (.ofModule "loops") (List.replicate (maxDefaultDepth + 1) "next") .endless) := by
    cbv
  refine ⟨rfl, rfl, guarded_loopSet, ?_⟩
  rcases (normalize_terminates guarded_loopSet).2 (.object []) (.mk (.decl 2) [.mk (.decl 0) []])
    (.ofModule "loops") with ⟨v, hv⟩ | ⟨path, fault, herror, hne⟩
  · cases hrun.symm.trans hv
  · refine ⟨path, fault, herror, hne, ?_⟩
    cases hrun.symm.trans herror
    exact List.length_replicate

/-- The set of `newtype Knot = Knot;`, which is not guarded. -/
def knotSet : ModuleSet :=
  ⟨[⟨"knots", [], [0], []⟩], [⟨0, "knots", "Knot", [], [], .newtype (.mk (.decl 0) []) none⟩],
    [(⟨"knots", "Knot"⟩, 0)]⟩

/-- A newtype that stands for itself runs out of links. -/
example : ∃ path,
    ((Graph.plain knotSet).normalize .null (.mk (.decl 0) []) (.ofModule "knots")).run =
      .error (.default (.ofModule "knots") path .unending) := ⟨[], by cbv⟩

end Adl
