import Adl.Prelude
import Adl.Proofs.Pointwise

/-!
# Success — when an action returns a value

An `Except` action succeeds if all its steps do.  `Yields x a` says that an action that may fail and
has no other effect returns `a`; its lemmas take such an action apart, one for each way to build it.
-/

namespace Adl

variable {ε ε' α β : Type}

/-! ### Results -/

/-- Two steps in a row succeed if both do. -/
theorem bind_eq_ok_iff {x : Except ε α} {f : α → Except ε β} {b : β} :
    (x >>= f) = .ok b ↔ ∃ a, x = .ok a ∧ f a = .ok b := by
  cases x with
  | ok a =>
    constructor
    · exact fun h => ⟨a, rfl, h⟩
    · rintro ⟨_, h, hf⟩
      cases h
      exact hf
  | error e =>
    constructor
    · intro h
      cases h
    · rintro ⟨_, h, _⟩
      cases h

theorem pure_eq_ok_iff {a b : α} : (pure a : Except ε α) = .ok b ↔ a = b :=
  ⟨fun h => by cases h; rfl, fun h => h ▸ rfl⟩

/-- A step whose result is wrapped succeeds if the step does. -/
theorem bind_pure_eq_ok_iff {x : Except ε α} {f : α → β} {b : β} :
    (x >>= fun a => pure (f a)) = .ok b ↔ ∃ a, x = .ok a ∧ f a = b := by
  rw [bind_eq_ok_iff]
  simp only [pure_eq_ok_iff]

/-- A check before a step succeeds if both do. -/
theorem check_bind_eq_ok_iff {x : Except ε Unit} {f : Unit → Except ε β} {b : β} :
    (x >>= f) = .ok b ↔ x = .ok () ∧ f () = .ok b := by
  rw [bind_eq_ok_iff]
  constructor
  · rintro ⟨_, hx, hf⟩
    exact ⟨hx, hf⟩
  · rintro ⟨hx, hf⟩
    exact ⟨(), hx, hf⟩

theorem mapError_eq_ok_iff {x : Except ε α} {f : ε → ε'} {a : α} :
    x.mapError f = .ok a ↔ x = .ok a := by
  cases x <;> simp [Except.mapError]

theorem toOption_eq_some_iff {x : Except ε α} {a : α} : x.toOption = some a ↔ x = .ok a := by
  cases x <;> simp [Except.toOption]

/-- A list of steps succeeds if each of them does. -/
theorem mapM_eq_ok_iff {f : α → Except ε β} {as : List α} {bs : List β} :
    as.mapM f = .ok bs ↔ List.Forall₂ (fun a b => f a = .ok b) as bs := by
  induction as generalizing bs with
  | nil =>
    rw [List.mapM_nil, pure_eq_ok_iff, List.forall₂_nil_left_iff, eq_comm]
  | cons a as ih =>
    rw [List.mapM_cons, List.forall₂_cons_left_iff]
    simp only [bind_eq_ok_iff, pure_eq_ok_iff, ih]
    constructor
    · rintro ⟨b, hb, bs, hbs, rfl⟩
      exact ⟨b, bs, hb, hbs, rfl⟩
    · rintro ⟨b, bs, hb, hbs, rfl⟩
      exact ⟨b, hb, bs, hbs, rfl⟩

/-- A list of checks succeeds if each of them does. -/
theorem forM_eq_ok_iff {f : α → Except ε Unit} {as : List α} :
    as.forM f = .ok () ↔ ∀ a ∈ as, f a = .ok () := by
  induction as with
  | nil => exact iff_of_true rfl fun _ h => nomatch h
  | cons a as ih =>
    show (f a >>= fun _ => as.forM f) = .ok () ↔ _
    rw [check_bind_eq_ok_iff, ih, List.forall_mem_cons]

/-! ### Errors -/

/-- Two steps in a row fail if the first one does, or the second one after it. -/
theorem bind_eq_error_iff {x : Except ε α} {f : α → Except ε β} {e : ε} :
    (x >>= f) = .error e ↔ x = .error e ∨ ∃ a, x = .ok a ∧ f a = .error e := by
  cases x with
  | ok a =>
    constructor
    · exact fun h => .inr ⟨a, rfl, h⟩
    · rintro (h | ⟨_, h, hf⟩)
      · cases h
      · cases h
        exact hf
  | error e' =>
    constructor
    · intro h
      cases h
      exact .inl rfl
    · rintro (h | ⟨_, h, _⟩)
      · cases h
        rfl
      · cases h

/-- A step whose result is wrapped fails if the step does. -/
theorem bind_pure_eq_error_iff {x : Except ε α} {f : α → β} {e : ε} :
    (x >>= fun a => pure (f a)) = .error e ↔ x = .error e := by
  rw [bind_eq_error_iff]
  constructor
  · rintro (h | ⟨a, -, h⟩)
    · exact h
    · cases h
  · exact .inl

/-- A check before a step fails if the check does, or the step behind it. -/
theorem check_bind_eq_error_iff {x : Except ε Unit} {f : Unit → Except ε β} {e : ε} :
    (x >>= f) = .error e ↔ x = .error e ∨ x = .ok () ∧ f () = .error e := by
  rw [bind_eq_error_iff]
  refine or_congr_right ⟨?_, fun h => ⟨(), h⟩⟩
  rintro ⟨_, h⟩
  exact h

/-- Every error of a result is of some kind. -/
def FailsWith (P : ε → Prop) (x : Except ε α) : Prop := ∀ e, x = .error e → P e

section

variable {P : ε → Prop}

theorem FailsWith.pure (a : α) : FailsWith P (pure a : Except ε α) := fun _ h => by cases h

theorem FailsWith.error {e : ε} (h : P e) : FailsWith P (.error e : Except ε α) := by
  rintro _ ⟨⟩
  exact h

/-- Two steps in a row fail in the way of one of them. -/
theorem FailsWith.bind {x : Except ε α} {f : α → Except ε β} (hx : FailsWith P x)
    (hf : ∀ a, FailsWith P (f a)) : FailsWith P (x >>= f) := by
  intro e h
  cases x with
  | ok a => exact hf a e h
  | error e' =>
    cases h
    exact hx e rfl

theorem FailsWith.mapM {f : α → Except ε β} (hf : ∀ a, FailsWith P (f a)) (as : List α) :
    FailsWith P (as.mapM f) := by
  induction as with
  | nil =>
    rw [List.mapM_nil]
    exact .pure _
  | cons a as ih =>
    rw [List.mapM_cons]
    exact (hf a).bind fun _ => ih.bind fun _ => .pure _

theorem FailsWith.forM {f : α → Except ε Unit} {as : List α} (hf : ∀ a ∈ as, FailsWith P (f a)) :
    FailsWith P (as.forM f) := by
  induction as with
  | nil => exact .pure _
  | cons a as ih =>
    obtain ⟨ha, has⟩ := List.forall_mem_cons.mp hf
    show FailsWith P (f a >>= fun _ => as.forM f)
    exact ha.bind fun _ => ih has

end

/-! ### Optional values -/

/-- Steps that all have a value have the list of these values. -/
theorem mapM_eq_some {f : α → Option β} {g : α → β} {as : List α}
    (h : ∀ a ∈ as, f a = some (g a)) : as.mapM f = some (as.map g) := by
  induction as with
  | nil => rfl
  | cons a as ih =>
    rw [List.mapM_cons, h a List.mem_cons_self, ih fun b hb => h b (List.mem_cons_of_mem a hb)]
    rfl

/-- What was made of some elements is turned into these elements again. -/
theorem mapM_map_eq_some {f : β → Option α} {g : α → β} {as : List α}
    (h : ∀ a ∈ as, f (g a) = some a) : (as.map g).mapM f = some as := by
  rw [List.mapM_map]
  exact (mapM_eq_some h).trans (congrArg some (List.map_id as))

/-- What was made of some elements is turned into these elements again if all of them pass a
test. -/
theorem mapM_map_eq_ite {f : β → Option α} {g : α → β} {p : α → Bool} {as : List α}
    (h : ∀ a ∈ as, f (g a) = if p a then some a else none) :
    (as.map g).mapM f = if as.all p then some as else none := by
  induction as with
  | nil => rfl
  | cons a as ih =>
    rw [List.map_cons, List.mapM_cons, h a List.mem_cons_self,
      ih fun b hb => h b (List.mem_cons_of_mem a hb), List.all_cons]
    cases p a <;> cases as.all p <;> rfl

/-! ### Actions that may fail -/

/-- The action `x` returns `a`. -/
def Yields (x : ExceptT ε Id α) (a : α) : Prop := x.run = Except.ok a

variable {x : ExceptT ε Id α} {a b : α}

/-- An action returns one value at most. -/
theorem Yields.unique (ha : Yields x a) (hb : Yields x b) : a = b :=
  Except.ok.inj (ha.symm.trans hb)

theorem yields_pure : Yields (pure a : ExceptT ε Id α) b ↔ a = b := pure_eq_ok_iff

/-- Running two actions in a row is running them one after the other. -/
theorem run_bind (x : ExceptT ε Id α) (f : α → ExceptT ε Id β) :
    (x >>= f).run = (x.run >>= fun a => (f a).run : Except ε β) := by
  show ExceptT.bindCont f x.run = _
  cases x.run <;> rfl

/-- After an action that returns a value, the run goes on with it. -/
theorem Yields.run_bind (h : Yields x a) (f : α → ExceptT ε Id β) :
    (x >>= f).run = (f a).run := by
  rw [Adl.run_bind, h]
  rfl

theorem yields_bind {f : α → ExceptT ε Id β} {b : β} :
    Yields (x >>= f) b ↔ ∃ a, Yields x a ∧ Yields (f a) b := by
  rw [Yields, run_bind]
  exact bind_eq_ok_iff

theorem yields_map {f : α → β} {b : β} : Yields (f <$> x) b ↔ ∃ a, Yields x a ∧ b = f a := by
  rw [← bind_pure_comp, yields_bind]
  simp only [yields_pure, eq_comm]

theorem run_mapM (f : α → ExceptT ε Id β) (as : List α) :
    (as.mapM f).run = (as.mapM fun a => (f a).run : Except ε (List β)) := by
  induction as with
  | nil => rfl
  | cons a as ih =>
    simp only [List.mapM_cons, run_bind, ih]
    rfl

theorem yields_mapM {f : α → ExceptT ε Id β} {as : List α} {bs : List β} :
    Yields (as.mapM f) bs ↔ List.Forall₂ (fun a b => Yields (f a) b) as bs := by
  rw [Yields, run_mapM]
  exact mapM_eq_ok_iff

theorem run_forM (f : α → ExceptT ε Id Unit) (as : List α) :
    (as.forM f).run = (as.forM fun a => (f a).run : Except ε Unit) := by
  induction as with
  | nil => rfl
  | cons a as ih =>
    show (f a >>= fun _ => as.forM f).run = _
    rw [run_bind, ih]
    rfl

theorem yields_forM {f : α → ExceptT ε Id Unit} {as : List α} :
    Yields (as.forM f) () ↔ ∀ a ∈ as, Yields (f a) () := by
  rw [Yields, run_forM]
  exact forM_eq_ok_iff

theorem not_yields_throw {e : ε} : ¬ Yields (throw e : ExceptT ε Id α) a := fun h => by cases h

theorem FailsWith.adapt {P : ε' → Prop} {f : ε → ε'} (h : ∀ e, P (f e)) (x : ExceptT ε Id α) :
    FailsWith P (x.adapt f).run := by
  intro e he
  change x.run.mapError f = .error e at he
  cases hx : x.run with
  | ok a =>
    rw [hx] at he
    cases he
  | error e' =>
    rw [hx] at he
    cases he
    exact h e'

/-- Changing the failures of an action leaves its successes alone. -/
theorem yields_adapt {f : ε → ε'} : Yields (x.adapt f) a ↔ Yields x a :=
  mapError_eq_ok_iff (x := x.run)

end Adl
