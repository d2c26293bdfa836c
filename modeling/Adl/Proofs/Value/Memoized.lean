import Adl.Proofs.Value.Simulation
import Mathlib.Data.List.Dedup

/-!
# Memoized — what a graph that remembers bodies answers

The memoized graph is compared with two others that do not remember anything.  A traced graph
records for which declarations and arguments it was asked for a body that there is; the plain graph
does nothing but compute.  Whatever is called, the memo holds one body for each entry of the trace
(`Memo.Tracks`), and answers do not depend on either, so no call is answered differently because of
the calls before it (`memoized_transparent`).
-/

namespace Adl

variable {set : ModuleSet}

/-! ### Graphs that leave a trace -/

/-- The graph that computes bodies and records which there were. -/
def Graph.traced (set : ModuleSet) : Graph (StateM (List Instance)) :=
  ⟨set, fun id args location => do
    let body ← ExceptT.mk (pure (set.members id args location))
    modifyThe (List Instance) fun trace => (id, args) :: trace
    return body⟩

theorem Graph.run_traced_members (id : DeclId) (args : List TypeExpr) (location : Location)
    (trace : List Instance) :
    ((Graph.traced set).members id args location).run trace =
      match set.members id args location with
      | .ok b => (.ok b, (id, args) :: trace)
      | .error e => (.error e, trace) := by
  rw [traced]
  dsimp only
  cases set.members id args location <;> rfl

theorem Memo.run_members (id : DeclId) (args : List TypeExpr) (location : Location) (memo : Memo) :
    (Memo.members set id args location).run memo =
      match memo.bodies.lookup (id, args) with
      | some b => (.ok b, memo)
      | none =>
        match set.members id args location with
        | .ok b => (.ok b, ⟨((id, args), b) :: memo.bodies⟩)
        | .error e => (.error e, memo) := by
  show ((match memo.bodies.lookup (id, args) with
    | some b => return b
    | none => do
      let b ← ExceptT.mk (pure (set.members id args location))
      modifyThe Memo fun memo => ⟨((id, args), b) :: memo.bodies⟩
      return b : ExceptT TypeError (StateM Memo) Members)).run memo = _
  cases memo.bodies.lookup (id, args) with
  | some b => rfl
  | none => cases set.members id args location <;> rfl

/-- The memo holds the bodies in the trace, each once. -/
structure Memo.Tracks (set : ModuleSet) (memo : Memo) (trace : List Instance) : Prop where
  body_at : ∀ i b, (i, b) ∈ memo.bodies → set.BodyAt i.1 i.2 b
  nodup : (memo.bodies.map Prod.fst).Nodup
  mem_iff : ∀ i, i ∈ memo.bodies.map Prod.fst ↔ i ∈ trace

namespace Memo

theorem tracks_empty : Tracks set .empty [] where
  body_at := fun _ _ h => nomatch h
  nodup := List.nodup_nil
  mem_iff := fun _ => Iff.rfl

namespace Tracks

variable {memo : Memo} {trace : List Instance} {i : Instance} {b : Members}

/-- A body that is in the memo already is only added to the trace. -/
theorem again (h : Tracks set memo trace) (hi : i ∈ memo.bodies.map Prod.fst) :
    Tracks set memo (i :: trace) := by
  refine ⟨h.body_at, h.nodup, fun j => (h.mem_iff j).trans ?_⟩
  rw [List.mem_cons]
  constructor
  · exact .inr
  · rintro (rfl | hj)
    · exact (h.mem_iff j).mp hi
    · exact hj

/-- A body that is not in the memo is added to both. -/
theorem cons (h : Tracks set memo trace) (hi : i ∉ memo.bodies.map Prod.fst)
    (hb : set.BodyAt i.1 i.2 b) : Tracks set ⟨(i, b) :: memo.bodies⟩ (i :: trace) := by
  refine ⟨?_, List.nodup_cons.mpr ⟨hi, h.nodup⟩, fun j => ?_⟩
  · intro j c hmem
    rcases List.mem_cons.mp hmem with heq | hmem
    · cases heq
      exact hb
    · exact h.body_at j c hmem
  · rw [List.map_cons, List.mem_cons, List.mem_cons, h.mem_iff]

/-- The memo has as many bodies as there are different entries in the trace. -/
theorem size_eq (h : Tracks set memo trace) : memo.size = trace.dedup.length := by
  have hperm : (memo.bodies.map Prod.fst).Perm trace.dedup := by
    refine (List.perm_ext_iff_of_nodup h.nodup trace.nodup_dedup).mpr fun i => ?_
    rw [h.mem_iff, List.mem_dedup]
  rw [← hperm.length_eq, List.length_map, size]

/-- A request for a body has the same answer with the memo as with the trace, and keeps both
together. -/
theorem members (h : Tracks set memo trace) (id : DeclId) (args : List TypeExpr)
    (location : Location) :
    ((Memo.members set id args location).run memo).1 =
        (((Graph.traced set).members id args location).run trace).1 ∧
      Tracks set ((Memo.members set id args location).run memo).2
        (((Graph.traced set).members id args location).run trace).2 := by
  rw [run_members, Graph.run_traced_members]
  cases hl : memo.bodies.lookup (id, args) with
  | some b =>
    have hmem := mem_of_lookup hl
    rw [ModuleSet.members_eq_ok_iff.mpr (h.body_at _ b hmem)]
    exact ⟨rfl, h.again (List.mem_map_of_mem hmem)⟩
  | none =>
    cases hb : set.members id args location with
    | error e => exact ⟨rfl, h⟩
    | ok b =>
      exact ⟨rfl, h.cons (not_mem_of_lookup_eq_none hl) (ModuleSet.members_eq_ok_iff.mp hb)⟩

end Tracks

end Memo

namespace Graph

/-! ### Calls -/

/-- What is asked of a graph. -/
inductive Call where
  | members (id : DeclId) (args : List TypeExpr) (location : Location)
  | expand (t : TypeExpr) (location : Location)
  | instantiate (bindings : Bindings) (t : TypeExpr) (location : Location)
  | bind (id : DeclId) (args : List TypeExpr) (location : Location)
  | checkDecl (id : DeclId)
  | checkAll
  | normalize (l : Literal) (t : TypeExpr) (location : Location)
  | defaults (id : DeclId)
  | allDefaults

namespace Call

/-- What a call is answered with. -/
abbrev Answer : Call → Type
  | members _ _ _ => Except TypeError Members
  | expand _ _ => Except TypeError TypeExpr
  | instantiate _ _ _ => Except TypeError TypeExpr
  | bind _ _ _ => Except TypeError Bindings
  | checkDecl _ => Except TypeError Unit
  | checkAll => Except (List Error) Unit
  | normalize _ _ _ => Except Error Value
  | defaults _ => Except Error Defaults
  | allDefaults => Except (List Error) (List Defaults)

section

variable {m n : Type → Type} [Monad m] [Monad n]

/-- The answer of a graph to a call. -/
def run (g : Graph m) : (c : Call) → m c.Answer
  | members id args location => (g.members id args location).run
  | expand t location => (g.expand t location).run
  | instantiate bindings t location => pure (g.set.instantiate bindings location t)
  | bind id args location => pure (g.set.bind id args location)
  | checkDecl id => pure (g.set.checkDecl id)
  | checkAll => pure g.set.checkAll
  | normalize l t location => (g.normalize l t location).run
  | defaults id => (g.defaults id).run
  | allDefaults => g.allDefaults.run

/-- Calls one after the other, whose answers are dropped. -/
def runAll (g : Graph m) : List Call → m Unit
  | [] => pure ()
  | c :: calls => do
    let _ ← c.run g
    runAll g calls

variable [LawfulMonad m] [LawfulMonad n] {g : Graph m} {h : Graph n} (s : Simulation g h)

/-- Related graphs give related answers. -/
theorem rel_run (c : Call) : s.Rel (c.run g) (c.run h) := by
  cases c with
  | members id args location => exact s.rel_members id args location
  | expand t location => exact s.similar_expand t
  | instantiate bindings t location =>
    rw [run, run, s.set_eq]
    exact s.rel_pure _
  | bind id args location =>
    rw [run, run, s.set_eq]
    exact s.rel_pure _
  | checkDecl id =>
    rw [run, run, s.set_eq]
    exact s.rel_pure _
  | checkAll =>
    rw [run, run, s.set_eq]
    exact s.rel_pure _
  | normalize l t location => exact s.similar_normalize l t location
  | defaults id => exact s.similar_defaults id
  | allDefaults => exact s.similar_allDefaults

theorem rel_runAll (calls : List Call) : s.Rel (runAll g calls) (runAll h calls) := by
  induction calls with
  | nil => exact s.rel_pure ()
  | cons c calls ih => exact s.rel_bind (rel_run s c) fun _ => ih

end

end Call

/-! ### Remembering is not seen -/

/-- The memoized graph follows the traced one, as long as the memo tracks the trace. -/
def memoSimulation (set : ModuleSet) : Simulation (memoized set) (traced set) where
  Rel x y := ∀ memo trace, Memo.Tracks set memo trace →
    (x.run memo).1 = (y.run trace).1 ∧ Memo.Tracks set (x.run memo).2 (y.run trace).2
  rel_pure _ _ _ h := ⟨rfl, h⟩
  rel_bind {_ _ x y f f'} hx hf memo trace h := by
    obtain ⟨hanswer, htracks⟩ := hx memo trace h
    show ((f (x.run memo).1).run (x.run memo).2).1 = ((f' (y.run trace).1).run (y.run trace).2).1 ∧
      Memo.Tracks set ((f (x.run memo).1).run (x.run memo).2).2
        ((f' (y.run trace).1).run (y.run trace).2).2
    rw [hanswer]
    exact hf _ _ _ htracks
  set_eq := rfl
  rel_members id args location memo trace h := h.members id args location

/-- The traced graph computes what the plain one does, whatever the trace is. -/
def traceSimulation (set : ModuleSet) : Simulation (traced set) (plain set) where
  Rel x y := ∀ trace, (x.run trace).1 = y.run
  rel_pure _ _ := rfl
  rel_bind {_ _ x y f f'} hx hf trace := by
    show ((f (x.run trace).1).run (x.run trace).2).1 = (f' y.run).run
    rw [hx trace]
    exact hf _ _
  set_eq := rfl
  rel_members id args location trace := by
    show (((traced set).members id args location).run trace).1 = set.members id args location
    rw [run_traced_members]
    cases set.members id args location <;> rfl

/-- After any calls, every further call is answered as it is by a graph that remembers nothing, and
as it is at first.  The memo holds nothing but bodies with arguments for their parameters, and as
many of them as there are different declarations and arguments for which a body was had, be it by a
call or inside of one. -/
theorem memoized_transparent (set : ModuleSet) (calls : List Call) :
    let memo := ((Call.runAll (memoized set) calls).run .empty).2
    let trace := ((Call.runAll (traced set) calls).run []).2
    (∀ c : Call, ((c.run (memoized set)).run memo).1 = (c.run (plain set)).run ∧
      ((c.run (memoized set)).run memo).1 = ((c.run (memoized set)).run .empty).1) ∧
    (∀ id args b, ((id, args), b) ∈ memo.bodies → set.BodyAt id args b) ∧
    memo.size = trace.dedup.length := by
  intro memo trace
  obtain ⟨-, htracks⟩ := Call.rel_runAll (memoSimulation set) calls .empty [] Memo.tracks_empty
  have hplain : ∀ (c : Call) memo trace, Memo.Tracks set memo trace →
      ((c.run (memoized set)).run memo).1 = (c.run (plain set)).run := by
    intro c memo trace h
    exact (Call.rel_run (memoSimulation set) c memo trace h).1.trans
      (Call.rel_run (traceSimulation set) c trace)
  refine ⟨fun c => ⟨hplain c memo trace htracks, ?_⟩, fun id args b => htracks.body_at _ b,
    htracks.size_eq⟩
  rw [hplain c memo trace htracks, hplain c .empty [] Memo.tracks_empty]

end Graph

end Adl
