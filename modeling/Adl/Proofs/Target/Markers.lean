import Adl.Proofs.Model.Indexed
import Adl.Proofs.Target.Imports
import Adl.Proofs.Types.FullExpansion

/-!
# Markers — type parameters that items use

Rust rejects a type with a parameter that it does not use.  An item uses a parameter in the type of
a member, where it has to be left after all aliases are expanded, or in its marker.  The marker is
decided by the types as they are written, and the item of an alias has none.  So all parameters are
used exactly in those sets where every alias mentions all of its own (`usedParameters_laws`).
-/

namespace Adl.Rust

open Text (Occurs)

variable {set : ModuleSet} {d : Decl} {p : String} {t u : TypeExpr} {ctx : Context}
  {defaults : Defaults}

/-! ### Markers of items -/

/-- The type parameters that an item marks as used. -/
def Item.marker : Item → List String
  | .record r => r.marker
  | .sum s => s.marker
  | .alias _ => []
  | .newtype n => n.marker

/-- The item has a marker for the parameter `p`: the type of the marker lists it, and stands in a
line of the item. -/
structure Item.Carries (it : Item) (p : String) : Prop where
  listed : p ∈ it.marker
  emitted : ∃ line ∈ it.lines, Occurs (Ty.marker it.marker).text line

theorem markerText?_of_mem {params : List String} (h : p ∈ params) :
    markerText? params = some (Ty.marker params).text := by
  rw [markerText?, if_neg (by simpa using List.ne_nil_of_mem h)]

theorem Record.exists_marker_line (r : Record) (h : p ∈ r.marker) :
    ∃ line ∈ r.lines, Occurs (Ty.marker r.marker).text line := by
  have hline : "    pub " ++ Expr.markerField ++ ": " ++ (Ty.marker r.marker).text ++ "," ∈
      r.markerLines := by
    rw [markerLines, markerText?_of_mem h]
    simp
  refine ⟨_, ?_, (Occurs.refl _).mid ("    pub " ++ Expr.markerField ++ ": ") ","⟩
  simp only [lines, List.mem_append]
  tauto

theorem Sum.exists_marker_line (s : Sum) (h : p ∈ s.marker) :
    ∃ line ∈ s.lines, Occurs (Ty.marker s.marker).text line := by
  refine ⟨_, ?_, (Occurs.refl _).mid "    _Phantom(" "),"⟩
  rw [lines, markerText?_of_mem h]
  simp

theorem Newtype.exists_marker_line (n : Newtype) (h : p ∈ n.marker) :
    ∃ line ∈ n.lines, Occurs (Ty.marker n.marker).text line := by
  have hline : "pub struct " ++ n.name ++ Text.angled n.params ++ "(pub " ++ n.target.text ++
      ", #[serde(skip)] pub " ++ (Ty.marker n.marker).text ++ ");" ∈ n.structLines := by
    rw [structLines, markerText?_of_mem h]
    simp
  refine ⟨_, ?_, (Occurs.refl _).mid ("pub struct " ++ n.name ++ Text.angled n.params ++ "(pub " ++
    n.target.text ++ ", #[serde(skip)] pub ") ");"⟩
  simp only [lines, List.mem_append]
  exact .inl (.inr hline)

/-- Every parameter that is marked stands in the text of the item. -/
theorem Item.carries_iff {it : Item} : it.Carries p ↔ p ∈ it.marker := by
  refine ⟨Carries.listed, fun h => ⟨h, ?_⟩⟩
  cases it with
  | record r => exact r.exists_marker_line h
  | sum s => exact s.exists_marker_line h
  | «alias» a => cases h
  | newtype n => exact n.exists_marker_line h

/-! ### Parameters that are not mentioned -/

namespace Context

theorem anyMentions_iff_of {ts : List TypeExpr} (h : ∀ t ∈ ts, mentions p t ↔ t.Mentions p) :
    anyMentions p ts ↔ ∃ t ∈ ts, t.Mentions p := by
  induction ts with
  | nil => simp [anyMentions]
  | cons t ts ih =>
    obtain ⟨ht, hts⟩ := List.forall_mem_cons.mp h
    rw [anyMentions, Bool.or_eq_true, ht, ih hts, List.exists_mem_cons_iff]

theorem mentions_iff (t : TypeExpr) : mentions p t ↔ t.Mentions p := by
  induction t with
  | mk head args ih =>
    have hargs := anyMentions_iff_of ih
    have hmk : (TypeExpr.mk head args).Mentions p ↔
        head = .typeParam p ∨ ∃ t ∈ args, t.Mentions p := by
      constructor
      · intro h
        cases h with
        | head => exact .inl rfl
        | arg ht h => exact .inr ⟨_, ht, h⟩
      · rintro (rfl | ⟨t, ht, h⟩)
        · exact .head args
        · exact .arg ht h
    cases head <;> simp [mentions, hmk, hargs]

theorem mem_unused_iff : p ∈ unused d ↔ p ∈ d.typeParams ∧ ∀ t ∈ d.types, ¬ t.Mentions p := by
  rw [unused, List.mem_filter, Bool.not_eq_true', ← Bool.not_eq_true,
    anyMentions_iff_of fun t _ => mentions_iff t]
  simp

/-- The item of an alias has no marker, and that of any other declaration marks all parameters that
its types, as they are written, do not mention. -/
theorem marker_item (ctx : Context) (d : Decl) (defaults : Defaults) :
    (ctx.item d defaults).marker = if d.isAlias then [] else unused d := by
  unfold item Decl.isAlias
  cases d.body <;> rfl

theorem carries_item_iff :
    (ctx.item d defaults).Carries p ↔
      d.isAlias = false ∧ p ∈ d.typeParams ∧ ∀ t ∈ d.types, ¬ t.Mentions p := by
  rw [Item.carries_iff, marker_item]
  cases d.isAlias
  · simp [mem_unused_iff]
  · simp

end Context

/-! ### Main statement -/

/-- A parameter of a declaration is used by its item: in the type of a member or in the target, when
all aliases are expanded, or in the marker. -/
def UsesParameter (set : ModuleSet) (d : Decl) (it : Item) (p : String) : Prop :=
  (∃ t ∈ d.types, ∃ u, set.FullyExpands t u ∧ u.Mentions p) ∨ it.Carries p

theorem not_usesParameter_iff (hp : p ∈ d.typeParams) :
    ¬ UsesParameter set d (ctx.item d defaults) p ↔
      (d.isAlias ∨ ∃ t ∈ d.types, t.Mentions p) ∧
        ∀ t ∈ d.types, ∀ u, set.FullyExpands t u → ¬ u.Mentions p := by
  have hcarries : ¬ (ctx.item d defaults).Carries p ↔
      d.isAlias ∨ ∃ t ∈ d.types, t.Mentions p := by
    rw [Context.carries_item_iff]
    cases d.isAlias <;> simp [hp]
  rw [UsesParameter, not_or, hcarries, and_comm]
  simp only [not_exists, not_and]

/-- The item of an alias has no marker, and so the alias mentions what its item uses. -/
theorem aliasesMention_of_usesParameter {f : Decl → Defaults}
    (h : ∀ d ∈ set.decls, ∀ p ∈ d.typeParams, UsesParameter set d (ctx.item d (f d)) p) :
    set.AliasesMention := by
  intro id body hbody p hp
  have ha : set.isAlias id := ModuleSet.isAlias_iff.mpr ⟨body, hbody⟩
  have hx := List.getElem?_eq_getElem (ModuleSet.lt_length_of_isAlias ha)
  have hmem : set.decl id ∈ set.decls :=
    ModuleSet.decl_of_getElem? hx ▸ List.getElem_mem (ModuleSet.lt_length_of_isAlias ha)
  rcases h _ hmem p hp with ⟨t, ht, u, hu, hup⟩ | hcarries
  · rw [ModuleSet.types_of_alias hbody] at ht
    obtain rfl := List.mem_singleton.mp ht
    exact hu.mentions hup
  · have hno := (Context.carries_item_iff.mp hcarries).1
    rw [Decl.isAlias, hbody] at hno
    cases hno

/-- Where each alias mentions its parameters, what a type mentions is left after the expansion, and
what no type mentions is marked. -/
theorem usesParameter_of_aliasesMention (hkeep : set.AliasesMention)
    (hnodup : ∀ id, (set.decl id).typeParams.Nodup) {id : DeclId}
    (hexpands : ∀ t ∈ (set.decl id).types, ∃ u, set.FullyExpands t u)
    (hp : p ∈ (set.decl id).typeParams) :
    UsesParameter set (set.decl id) (ctx.item (set.decl id) defaults) p := by
  have hmentioned : ∀ t ∈ (set.decl id).types, t.Mentions p →
      UsesParameter set (set.decl id) (ctx.item (set.decl id) defaults) p := by
    intro t ht hpt
    obtain ⟨u, hu⟩ := hexpands t ht
    exact .inl ⟨t, ht, u, hu, hu.mentions_of_aliasesMention hkeep hnodup hpt⟩
  by_cases ha : set.isAlias id
  · obtain ⟨body, hbody⟩ := ModuleSet.isAlias_iff.mp ha
    refine hmentioned body ?_ (hkeep id body hbody p hp)
    rw [ModuleSet.types_of_alias hbody]
    exact List.mem_singleton_self body
  · by_cases hm : ∃ t ∈ (set.decl id).types, t.Mentions p
    · obtain ⟨t, ht, hpt⟩ := hm
      exact hmentioned t ht hpt
    · refine .inr (Context.carries_item_iff.mpr ⟨Bool.eq_false_iff.mpr ha, hp, ?_⟩)
      exact fun t ht hpt => hm ⟨t, ht, hpt⟩

/-- **Which parameters are used.**  In a checked set each type of a declaration has one full
expansion, without any aliases.  The item of a declaration marks the parameters that its types do
not mention, unless it is that of an alias.  So a parameter is not used exactly if it is mentioned,
or is that of an alias, and is in no expansion; and all parameters are used exactly if each alias
mentions its own. -/
theorem usedParameters_laws {modules : List Source.Module}
    (hset : ModuleSet.resolve modules = .ok set) (hcheck : set.checkAll = .ok ()) :
    (∀ d ∈ set.decls, ∀ t ∈ d.types, (∃! u, set.FullyExpands t u) ∧
      ∀ u, set.FullyExpands t u → ∀ id, u.Applies id → ¬ set.isAlias id) ∧
    ∀ (ctx : Context) (defaults : Decl → Defaults),
      (∀ d ∈ set.decls, ∀ p ∈ d.typeParams,
        ((ctx.item d (defaults d)).Carries p ↔
          d.isAlias = false ∧ ∀ t ∈ d.types, ¬ t.Mentions p) ∧
        (¬ UsesParameter set d (ctx.item d (defaults d)) p ↔
          (d.isAlias ∨ ∃ t ∈ d.types, t.Mentions p) ∧
            ∀ t ∈ d.types, ∀ u, set.FullyExpands t u → ¬ u.Mentions p)) ∧
      ((∀ d ∈ set.decls, ∀ p ∈ d.typeParams, UsesParameter set d (ctx.item d (defaults d)) p) ↔
        set.AliasesMention) := by
  have hr := resolve_eq_ok_iff.mp hset
  have hproper := ModuleSet.proper_of_checkAll hr hcheck
  have hwf := ModuleSet.wellFounded_aliasUse hcheck fun _ _ => hr.id_eq
  have hexpands : ∀ id, ∀ t ∈ (set.decl id).types, ∃! u, set.FullyExpands t u :=
    fun id t ht => ModuleSet.existsUnique_fullyExpands hwf hproper (hproper id t ht).1
  have hdecl : ∀ d ∈ set.decls, ∃ id, set.decl id = d := fun d hd => by
    obtain ⟨id, hid⟩ := List.mem_iff_getElem?.mp hd
    exact ⟨id, ModuleSet.decl_of_getElem? hid⟩
  refine ⟨fun d hd => ?_, fun ctx defaults => ⟨fun d hd p hp => ⟨?_, not_usesParameter_iff hp⟩,
    aliasesMention_of_usesParameter, fun hkeep d hd p hp => ?_⟩⟩
  · obtain ⟨id, rfl⟩ := hdecl d hd
    exact fun t ht => ⟨hexpands id t ht, fun _ hu _ ha => hu.not_isAlias ha⟩
  · rw [Context.carries_item_iff]
    simp only [hp, true_and]
  · obtain ⟨id, rfl⟩ := hdecl d hd
    exact usesParameter_of_aliasesMention hkeep hr.nodup_typeParams
      (fun t ht => (hexpands id t ht).exists) hp

/-- The module of `type Ignore<T> = Int32; struct Plain<T> { Int32 value; };` and
`struct Tagged<T> { Vector<Ignore<T>> values; };`, as it is parsed. -/
def tagModule : Source.Module :=
  let param : Source.TypeExpr := .mk "T" [] .start
  let int : Source.TypeExpr := .mk "Int32" [] .start
  let member (name : String) (t : Source.TypeExpr) : Source.Member :=
    ⟨name, name, t, none, [], .start⟩
  ⟨"tags", [],
    [⟨"Ignore", ["T"], [], .alias int, .start⟩,
      ⟨"Plain", ["T"], [], .struct [member "value" int], .start⟩,
      ⟨"Tagged", ["T"], [],
        .struct [member "values" (.mk "Vector" [.mk "Ignore" [param] .start] .start)], .start⟩], []⟩

/-- What `tagModule` resolves to. -/
def tagSet : ModuleSet :=
  let int : TypeExpr := .mk (.primitive .int32) []
  let ignored : TypeExpr := .mk (.primitive .vector) [.mk (.decl 0) [.param "T"]]
  ⟨[⟨"tags", [], [0, 1, 2], []⟩],
    [⟨0, "tags", "Ignore", ["T"], [], .alias int⟩,
      ⟨1, "tags", "Plain", ["T"], [], .struct [⟨"value", "value", int, none, []⟩]⟩,
      ⟨2, "tags", "Tagged", ["T"], [], .struct [⟨"values", "values", ignored, none, []⟩]⟩],
    [(⟨"tags", "Ignore"⟩, 0), (⟨"tags", "Plain"⟩, 1), (⟨"tags", "Tagged"⟩, 2)]⟩

theorem resolve_tagModule : ModuleSet.resolve [tagModule] = .ok tagSet := rfl

theorem checkAll_tagSet : tagSet.checkAll = .ok () := rfl

/-- The context of the unit of `tagModule`. -/
def tagContext : Context := .ofOptions tagSet "tags" ⟨false, none, none⟩

/-- The type `Vector<Ignore<T>>` is expanded to `Vector<Int32>`. -/
theorem fullyExpands_tags :
    tagSet.FullyExpands (.mk (.primitive .vector) [.mk (.decl 0) [.param "T"]])
      (.mk (.primitive .vector) [.mk (.primitive .int32) []]) := by
  have hproper : tagSet.Proper (tagSet.decl 0) :=
    ModuleSet.proper_of_checkAll (resolve_eq_ok_iff.mp resolve_tagModule) checkAll_tagSet 0
  have hno : ∀ p args, ¬ tagSet.AliasHead (.mk (.primitive p) args) :=
    fun p args => (ModuleSet.Expands.of_primitive p args).no_alias
  have hparam : tagSet.FullyExpands (.param "T") (.param "T") := by
    refine .of_forall₂ ?_ .nil
    rintro ⟨_, h, -⟩
    cases h
  have hint : tagSet.FullyExpands (.mk (.primitive .int32) []) (.mk (.primitive .int32) []) :=
    .of_forall₂ (hno _ _) .nil
  have hignored : tagSet.FullyExpands (.mk (.decl 0) [.param "T"]) (.mk (.primitive .int32) []) :=
    .of_alias hproper rfl rfl hint (.cons hparam .nil)
  exact .of_forall₂ (hno _ _) (.cons hignored .nil)

/-- The parameter of `Plain` is marked.  That of `Tagged` is mentioned by the type of its member,
but the alias drops it, and so nothing uses it. -/
theorem tagged_usedParameters :
    ModuleSet.resolve [tagModule] = .ok tagSet ∧ tagSet.checkAll = .ok () ∧
      (tagContext.item (tagSet.decl 1) .empty).Carries "T" ∧
      ¬ UsesParameter tagSet (tagSet.decl 2) (tagContext.item (tagSet.decl 2) .empty) "T" ∧
      ¬ tagSet.AliasesMention := by
  obtain ⟨-, hlaws⟩ := usedParameters_laws resolve_tagModule checkAll_tagSet
  obtain ⟨hparams, hall⟩ := hlaws tagContext fun _ => .empty
  have hplain : tagSet.decl 1 ∈ tagSet.decls := .tail _ (.head _)
  have htagged : tagSet.decl 2 ∈ tagSet.decls := .tail _ (.tail _ (.head _))
  have hunused : ¬ UsesParameter tagSet (tagSet.decl 2)
      (tagContext.item (tagSet.decl 2) .empty) "T" := by
    refine (hparams _ htagged "T" (.head _)).2.mpr ⟨.inr ⟨_, .head _, ?_⟩, fun t ht u hu => ?_⟩
    · exact (Context.mentions_iff _).mp rfl
    · obtain rfl := List.mem_singleton.mp ht
      rw [hu.unique fullyExpands_tags, ← Context.mentions_iff]
      decide
  refine ⟨resolve_tagModule, checkAll_tagSet, ?_, hunused, fun hkeep => ?_⟩
  · refine (hparams _ hplain "T" (.head _)).1.mpr ⟨rfl, fun t ht => ?_⟩
    obtain rfl := List.mem_singleton.mp ht
    rw [← Context.mentions_iff]
    decide
  · exact hunused (hall.mpr hkeep _ htagged "T" (.head _))

end Adl.Rust
