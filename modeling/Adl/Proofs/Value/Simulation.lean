import Adl.Proofs.Value.Normalization
import Adl.Value.Defaults

/-!
# Simulation — the same actions on two graphs

Whatever is done with a graph is built of its set, of requests for bodies and of what the monad
provides.  So if some relation between the actions of two monads is kept by sequencing, and holds
of the requests for bodies in two graphs of one set, then it holds of everything that is done with
the two graphs: of the expansion of types (`similar_expand`), of the reading of literals
(`similar_value`) and of the check of declared defaults (`similar_defaults`).
-/

namespace Adl.Graph

/-- Two graphs of one set, and a relation of their actions that requests for bodies and sequencing
respect. -/
structure Simulation {m n : Type → Type} [Monad m] [Monad n] (g : Graph m) (h : Graph n) where
  Rel : ∀ {α : Type}, m α → n α → Prop
  rel_pure : ∀ {α : Type} (a : α), Rel (pure a) (pure a)
  rel_bind : ∀ {α β : Type} {x : m α} {y : n α} {f : α → m β} {f' : α → n β}, Rel x y →
    (∀ a, Rel (f a) (f' a)) → Rel (x >>= f) (y >>= f')
  set_eq : g.set = h.set
  rel_members : ∀ id args location,
    Rel (g.members id args location).run (h.members id args location).run

namespace Simulation

variable {m n : Type → Type} [Monad m] [Monad n] {g : Graph m} {h : Graph n}
  (s : Simulation g h) {ε ε' α β : Type} {x : ExceptT ε m α} {y : ExceptT ε n α}
  {location : Location}

/-- Two actions that may fail are related. -/
def Similar (x : ExceptT ε m α) (y : ExceptT ε n α) : Prop := s.Rel x.run y.run

/-! ### How actions are built -/

theorem similar_pure (a : α) :
    s.Similar (pure a : ExceptT ε m α) (pure a : ExceptT ε n α) :=
  s.rel_pure (Except.ok a : Except ε α)

theorem similar_throw (e : ε) :
    s.Similar (throw e : ExceptT ε m α) (throw e : ExceptT ε n α) :=
  s.rel_pure (Except.error e : Except ε α)

theorem similar_members (id : DeclId) (args : List TypeExpr) (location : Location) :
    s.Similar (g.members id args location) (h.members id args location) :=
  s.rel_members id args location

variable {s}

theorem Similar.bind {f : α → ExceptT ε m β} {f' : α → ExceptT ε n β} (hx : s.Similar x y)
    (hf : ∀ a, s.Similar (f a) (f' a)) : s.Similar (x >>= f) (y >>= f') := by
  refine s.rel_bind hx fun r => ?_
  cases r with
  | ok a => exact hf a
  | error e => exact s.similar_throw e

theorem Similar.map (f : α → β) (hx : s.Similar x y) : s.Similar (f <$> x) (f <$> y) := by
  refine s.rel_bind hx fun r => ?_
  cases r with
  | ok a => exact s.similar_pure (f a)
  | error e => exact s.similar_throw e

/-- A choice that does not depend on the graphs. -/
theorem Similar.ite {p : Prop} [Decidable p] {x' : ExceptT ε m α} {y' : ExceptT ε n α}
    (hx : s.Similar x y) (hx' : s.Similar x' y') :
    s.Similar (if p then x else x') (if p then y else y') := by
  by_cases hp : p
  · rwa [if_pos hp, if_pos hp]
  · rwa [if_neg hp, if_neg hp]

theorem similar_checked (x : Except DefaultFault α) :
    s.Similar (checked x : ExceptT Failure m α) (checked x) := by
  cases x with
  | ok a => exact s.similar_pure a
  | error f => exact s.similar_throw _

/-! ### Expansion -/

theorem similar_expandFrom (fuel : Nat) (seen : List Instance) (t : TypeExpr) :
    s.Similar (g.expandFrom location fuel seen t) (h.expandFrom location fuel seen t) := by
  induction fuel generalizing seen t with
  | zero =>
    rw [expandFrom, expandFrom, s.set_eq]
    cases t.head with
    | decl id => exact .ite (s.similar_throw _) (s.similar_pure _)
    | _ => exact s.similar_pure _
  | succ fuel ih =>
    rw [expandFrom, expandFrom, s.set_eq]
    cases t.head with
    | decl id =>
      refine .ite (.ite (s.similar_throw _) ?_) (s.similar_pure _)
      refine (s.similar_members id t.args location).bind fun b => ?_
      cases b.target? with
      | none => exact s.similar_pure _
      | some body => exact ih _ _
    | _ => exact s.similar_pure _

theorem similar_expand (t : TypeExpr) : s.Similar (g.expand t location) (h.expand t location) :=
  similar_expandFrom _ _ _

/-! ### Literals -/

theorem similar_fieldValues {k : Nat} {entries : List (String × Literal)}
    {fields : List (Member × TypeExpr)}
    (hf : ∀ field t, s.Similar (g.fieldValue location k entries field t)
      (h.fieldValue location k entries field t)) :
    s.Similar (g.fieldValues location k entries fields)
      (h.fieldValues location k entries fields) := by
  induction fields with
  | nil =>
    rw [fieldValues, fieldValues]
    exact s.similar_pure _
  | cons f fields ih =>
    rw [fieldValues, fieldValues]
    exact (hf f.1 f.2).bind fun v => ih.bind fun vs => s.similar_pure _

variable [LawfulMonad m] [LawfulMonad n]

theorem rel_map (f : α → β) {x : m α} {y : n α} (hx : s.Rel x y) : s.Rel (f <$> x) (f <$> y) := by
  rw [← bind_pure_comp, ← bind_pure_comp]
  exact s.rel_bind hx fun a => s.rel_pure _

theorem Similar.adapt (f : ε → ε') (hx : s.Similar x y) : s.Similar (x.adapt f) (y.adapt f) :=
  rel_map (Except.mapError f) hx

theorem similar_alternative (id : DeclId) (args : List TypeExpr) (ms : List Member)
    (name : String) :
    s.Similar (g.alternative location id args ms name)
      (h.alternative location id args ms name) := by
  unfold alternative
  cases Normalize.memberIndex? ms name with
  | none =>
    rw [s.set_eq]
    exact s.similar_throw _
  | some index =>
    exact ((s.similar_members id args location).adapt _).bind fun b => s.similar_pure _

section

variable {k : Nat} {elem : TypeExpr}

theorem similar_elements {items : List Literal} {index : Nat}
    (hv : ∀ l ∈ items, ∀ chain t, s.Similar (g.value location k l chain t)
      (h.value location k l chain t)) :
    s.Similar (g.elements location k items index elem)
      (h.elements location k items index elem) := by
  induction items generalizing index with
  | nil =>
    rw [elements, elements]
    exact s.similar_pure _
  | cons item items ih =>
    rw [elements, elements, s.set_eq]
    exact ((hv item List.mem_cons_self _ _).adapt _).bind fun v =>
      (ih fun l hl => hv l (List.mem_cons_of_mem _ hl)).bind fun vs => s.similar_pure _

theorem similar_mapEntries {entries : List (String × Literal)} {seen : List String}
    (hv : ∀ e ∈ entries, ∀ chain t, s.Similar (g.value location k e.2 chain t)
      (h.value location k e.2 chain t)) :
    s.Similar (g.mapEntries location k entries seen elem)
      (h.mapEntries location k entries seen elem) := by
  induction entries generalizing seen with
  | nil =>
    rw [mapEntries, mapEntries]
    exact s.similar_pure _
  | cons e entries ih =>
    rw [mapEntries, mapEntries, s.set_eq]
    refine .ite (s.similar_throw _) ?_
    exact ((hv e List.mem_cons_self _ _).adapt _).bind fun v =>
      (ih fun l hl => hv l (List.mem_cons_of_mem _ hl)).bind fun vs => s.similar_pure _

variable {l : Literal} {chain : Nat} {t : TypeExpr}

/-- A field is read from its entry, or from its default with fewer nested defaults. -/
theorem similar_fieldValue {entries : List (String × Literal)} {field : Member}
    (ih_default : ∀ l chain t, s.Similar (g.value location k l chain t)
      (h.value location k l chain t))
    (hv : ∀ e ∈ entries, ∀ chain t, s.Similar (g.value location (k + 1) e.2 chain t)
      (h.value location (k + 1) e.2 chain t)) :
    s.Similar (g.fieldValue location (k + 1) entries field t)
      (h.fieldValue location (k + 1) entries field t) := by
  rw [fieldValue, fieldValue, s.set_eq]
  split
  · next l hl => exact (hv _ (mem_of_lookup hl) _ _).adapt _
  · exact (ih_default _ _ _).adapt _
  · exact s.similar_throw _

/-- One step: a literal is read in the same way, if this holds of its parts. -/
theorem similar_step
    (ih_default : ∀ l chain t, s.Similar (g.value location k l chain t)
      (h.value location k l chain t))
    (ih_part : ∀ l', l'.weight < l.weight → ∀ chain t,
      s.Similar (g.value location (k + 1) l' chain t) (h.value location (k + 1) l' chain t))
    (ih_chain : ∀ c < chain, ∀ t,
      s.Similar (g.value location (k + 1) l c t) (h.value location (k + 1) l c t)) :
    s.Similar (g.value location (k + 1) l chain t) (h.value location (k + 1) l chain t) := by
  rw [value, value]
  refine ((similar_expand t).adapt _).bind fun u => ?_
  obtain ⟨head, args⟩ := u
  dsimp only [TypeExpr.head, TypeExpr.args]
  cases head with
  | typeParam name => exact s.similar_throw _
  | primitive p =>
    cases p with
    | vector =>
      cases l with
      | array items =>
        cases args with
        | nil => exact s.similar_throw _
        | cons elem rest =>
          exact (similar_elements fun l hl => ih_part l (Literal.weight_lt_of_mem_items hl)).bind
            fun vs => s.similar_pure _
      | _ => exact s.similar_throw _
    | stringMap =>
      cases l with
      | object entries =>
        cases args with
        | nil => exact s.similar_throw _
        | cons elem rest =>
          exact (similar_mapEntries fun e he =>
            ih_part e.2 (Literal.weight_lt_of_mem_entries he)).bind fun vs => s.similar_pure _
      | _ => exact s.similar_throw _
    | nullable =>
      cases l with
      | null => exact s.similar_pure _
      | _ =>
        cases args with
        | nil => exact s.similar_throw _
        | cons elem rest =>
          cases chain with
          | zero => exact s.similar_throw _
          | succ c => exact (ih_chain c (Nat.lt_succ_self c) elem).bind fun v => s.similar_pure _
    | _ => exact similar_checked _
  | decl id =>
    dsimp only
    rw [s.set_eq]
    cases (h.set.decl id).body with
    | struct ms =>
      cases l with
      | object entries =>
        dsimp only
        refine ((s.similar_members id args location).adapt _).bind fun b => ?_
        refine (similar_checked _).bind fun _ => ?_
        exact (similar_fieldValues fun m t => similar_fieldValue ih_default fun e he =>
          ih_part e.2 (Literal.weight_lt_of_mem_entries he)).bind fun vs => s.similar_pure _
      | _ => exact s.similar_throw _
    | union ms =>
      cases l with
      | string name =>
        dsimp only
        refine (similar_alternative id args ms name).bind fun found => ?_
        exact (((ih_part .null Nat.zero_lt_one _ _).adapt _).adapt _).bind fun v =>
          s.similar_pure _
      | object entries =>
        rcases entries with _ | ⟨⟨name, payload⟩, _ | ⟨e, entries⟩⟩
        · exact s.similar_throw _
        · dsimp only
          refine (similar_alternative id args ms name).bind fun found => ?_
          exact ((ih_part payload (Literal.weight_lt_of_mem_entries
            (List.mem_singleton_self (name, payload))) _ _).adapt _).bind fun v => s.similar_pure _
        · exact s.similar_throw _
      | _ => exact s.similar_throw _
    | enum ms => exact (similar_checked _).bind fun index => s.similar_pure _
    | newtype target default =>
      dsimp only
      refine ((s.similar_members id args location).adapt _).bind fun b => ?_
      cases b.target? with
      | none => exact s.similar_throw _
      | some target =>
        cases chain with
        | zero => exact s.similar_throw _
        | succ c =>
          exact (ih_chain c (Nat.lt_succ_self c) target).bind fun v =>
            (similar_checked _).bind fun _ => s.similar_pure _
    | «alias» target => exact s.similar_throw _

/-- A literal is read in the same way with both graphs. -/
theorem similar_value (k : Nat) (l : Literal) (chain : Nat) (t : TypeExpr) :
    s.Similar (g.value location k l chain t) (h.value location k l chain t) := by
  induction k generalizing l chain t with
  | zero =>
    rw [value, value]
    exact s.similar_throw _
  | succ k ih_default =>
    generalize hw : l.weight = w
    induction w using Nat.strongRecOn generalizing l chain t with
    | ind w ih_part =>
      subst hw
      induction chain using Nat.strongRecOn generalizing t with
      | ind chain ih_chain =>
        exact similar_step ih_default (fun l' hl' chain t => ih_part l'.weight hl' l' chain t rfl)
          ih_chain

end

theorem similar_normalize (l : Literal) (t : TypeExpr) (location : Location) :
    s.Similar (g.normalize l t location) (h.normalize l t location) := by
  rw [normalize, normalize, s.set_eq]
  exact (similar_value _ _ _ _).adapt _

/-! ### Declared defaults -/

theorem similar_ownValue (d : Decl) (t : TypeExpr) (l : Literal) :
    s.Similar (g.ownValue d location t l) (h.ownValue d location t l) := by
  unfold ownValue
  rw [s.set_eq]
  dsimp only
  cases h.set.instantiate (d.typeParams.map fun p => (p, TypeExpr.param p)) location t with
  | ok t => exact similar_normalize l t location
  | error e => exact s.similar_throw _

theorem similar_fieldDefault (d : Decl) (field : Member) :
    s.Similar (g.fieldDefault d field) (h.fieldDefault d field) := by
  unfold fieldDefault
  cases field.default with
  | none => exact s.similar_pure _
  | some l => exact (similar_ownValue d field.type l).map _

theorem similar_mapM {f : α → ExceptT ε m β} {f' : α → ExceptT ε n β}
    (hf : ∀ a, s.Similar (f a) (f' a)) (as : List α) : s.Similar (as.mapM f) (as.mapM f') := by
  induction as with
  | nil => exact s.similar_pure []
  | cons a as ih =>
    rw [List.mapM_cons, List.mapM_cons]
    exact (hf a).bind fun b => ih.bind fun bs => s.similar_pure _

theorem similar_defaults (id : DeclId) : s.Similar (g.defaults id) (h.defaults id) := by
  unfold defaults
  rw [s.set_eq]
  dsimp only
  cases (h.set.decl id).body with
  | struct ms =>
    exact (similar_mapM (similar_fieldDefault _) ms).bind fun vs => s.similar_pure _
  | newtype t default =>
    cases default with
    | none => exact s.similar_pure _
    | some l => exact (similar_ownValue _ t l).bind fun v => s.similar_pure _
  | _ => exact s.similar_pure _

theorem similar_allDefaults : s.Similar g.allDefaults h.allDefaults := by
  unfold allDefaults
  rw [s.set_eq]
  refine (similar_mapM (fun d => ?_) _).bind fun results => ?_
  · exact rel_map Except.ok (rel_map _ (similar_defaults d.id))
  · dsimp only
    split
    · exact s.similar_pure _
    · exact s.similar_throw _

end Simulation

end Adl.Graph
