import Adl.Proofs.Value.Normalization

/-!
# Generic — values at generic types

What a literal denotes at a type with parameters, it denotes at every instance of the type
(`Denotes.subst`): no part of a literal is ever read at a parameter, and everything else about a
type stays when other types are put in place of its parameters.  So a declared default that was
checked once, with the parameters standing for themselves, is the same value at every instance.
-/

namespace Adl

variable {set : ModuleSet} {n : Nat} {l : Literal} {v : Value} {t : TypeExpr}

/-- What a literal denotes at a generic type, it denotes at every instance. -/
theorem Denotes.subst (h : Denotes set n l v t) (τ : Bindings) :
    Denotes set n l v (t.subst τ) := by
  induction h with
  | scalar ht h => exact .scalar (ht.subst_primitive τ) h
  | vector ht hlen _ ih => exact .vector (ht.subst_primitive τ) hlen ih
  | stringMap ht hkeys heq _ ih => exact .stringMap (ht.subst_primitive τ) hkeys heq ih
  | absent ht => exact .absent (ht.subst_primitive τ)
  | present ht hl _ ih => exact .present (ht.subst_primitive τ) hl ih
  | struct ht hbody htypes hkeys hknown hsources hlen _ ih =>
    refine .struct (ht.subst_decl τ) hbody (htypes.subst τ) hkeys hknown hsources hlen ?_
    intro s type v hmem
    -- The types of the fields are the instances of the generic ones.
    rw [List.zip_map_left, List.zip_map_right, List.mem_map] at hmem
    obtain ⟨⟨s', type', v'⟩, hmem, heq⟩ := hmem
    cases heq
    exact ih s' type' v' hmem
  | union ht hbody hm hl htypes htype _ ih =>
    refine .union (ht.subst_decl τ) hbody hm hl (htypes.subst τ) ?_ ih
    rw [List.getElem?_map, htype, Option.map_some]
  | enum ht hbody hm hl => exact .enum (ht.subst_decl τ) hbody hm hl
  | newtype ht hbody htarget _ hu ih =>
    exact .newtype (ht.subst_decl τ) hbody (htarget.subst τ) ih hu

namespace Graph

variable {modules : List Source.Module} {σ : Bindings} {location location' : Location}

/-- A literal that has a value at a generic type has the same value at every instance: the type
can be instantiated, if it has the right number of arguments everywhere and all its parameters are
bound, and the literal is normalized to the same value there. -/
theorem normalize_instantiate (hset : ModuleSet.resolve modules = .ok set)
    (ht : set.Saturated t) (hσ : ∀ p, t.Mentions p → (σ.lookup p).isSome)
    (h : ((plain set).normalize l t location).run = .ok v) :
    ∃ u, set.instantiate σ location t = .ok u ∧
      ((plain set).normalize l u location').run = .ok v := by
  have hnames := (resolve_eq_ok_iff.mp hset).distinctNames
  have hdenotes : Denotes set maxDefaultDepth l v (t.subst σ) :=
    ((yields_normalize_iff hnames).mp h).subst σ
  exact ⟨t.subst σ, ModuleSet.instantiate_eq_ok_iff.mpr ⟨⟨ht, hσ⟩, rfl⟩,
    (yields_normalize_iff hnames).mpr hdenotes⟩

/-- The module of `struct Log<T> { Vector<T> items = []; Nullable<T> last = null; };`, as it is
parsed. -/
def logModule : Source.Module :=
  let param : Source.TypeExpr := .mk "T" [] .start
  ⟨"history", [], [⟨"Log", ["T"], [], .struct
    [⟨"items", "items", .mk "Vector" [param] .start, some (.array []), [], .start⟩,
      ⟨"last", "last", .mk "Nullable" [param] .start, some .null, [], .start⟩],
    .start⟩], []⟩

/-- What `logModule` resolves to. -/
def logSet : ModuleSet :=
  ⟨[⟨"history", [], [0], []⟩],
    [⟨0, "history", "Log", ["T"], [], .struct
      [⟨"items", "items", .mk (.primitive .vector) [.param "T"], some (.array []), []⟩,
        ⟨"last", "last", .mk (.primitive .nullable) [.param "T"], some .null, []⟩]⟩],
    [(⟨"history", "Log"⟩, 0)]⟩

/-- The empty log of `T` is also the empty log of logs of strings. -/
theorem log_normalize_instantiate :
    ModuleSet.resolve [logModule] = .ok logSet ∧ logSet.Saturated (.mk (.decl 0) [.param "T"]) ∧
      ((plain logSet).normalize (.object []) (.mk (.decl 0) [.param "T"])
        (.ofModule "history")).run = .ok (.struct 0 [.vector [], .absent]) ∧
      ∃ u, logSet.instantiate [("T", .mk (.decl 0) [.mk (.primitive .string) []])]
          (.ofModule "history") (.mk (.decl 0) [.param "T"]) = .ok u ∧
        ((plain logSet).normalize (.object []) u (.ofModule "history")).run =
          .ok (.struct 0 [.vector [], .absent]) := by
  have hset : ModuleSet.resolve [logModule] = .ok logSet := rfl
  have hparam : logSet.Saturated (.param "T") := ⟨rfl, fun _ h => by cases h⟩
  have ht : logSet.Saturated (.mk (.decl 0) [.param "T"]) :=
    ⟨rfl, fun _ h => List.mem_singleton.mp h ▸ hparam⟩
  have hbound : ∀ p, (TypeExpr.mk (.decl 0) [.param "T"]).Mentions p →
      (List.lookup p [("T", TypeExpr.mk (.decl 0) [.mk (.primitive .string) []])]).isSome := by
    intro p hp
    cases hp with
    | arg hmem hp =>
      cases List.mem_singleton.mp hmem
      rw [TypeExpr.mentions_param.mp hp]
      rfl
  have hvalue : ((plain logSet).normalize (.object []) (.mk (.decl 0) [.param "T"])
      (.ofModule "history")).run = .ok (.struct 0 [.vector [], .absent]) := by cbv
  exact ⟨hset, ht, hvalue, normalize_instantiate hset ht hbound hvalue⟩

end Graph

end Adl
