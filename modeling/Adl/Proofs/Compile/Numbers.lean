import Adl.Proofs.Compile.Sources
import Adl.Proofs.Number.Layout
import Adl.Proofs.Schema.RoundTrip
import Adl.Proofs.Types.Checked
import Adl.Proofs.Value.Contained
import Adl.Target.RustUnit
import Adl.Target.TypeScriptUnit

/-!
# Numbers — which numbers become defaults

A number in a stored default is one that is written in a declared default, or it is an integer of
64 bits that is read at a type of floating point numbers, and then finite in 32 bits.  So the
numbers in the stored defaults are finite if and only if those in the declared ones are, and at
`Float` they are then finite in 32 bits (`ofSources_numbers`).  The check of defaults does not see
the infinite numbers as which too large numerals are parsed: they are stored, and where they are
written in generated code or in a record, there is no numeral.
-/

namespace Adl

open Relation (ReflTransGen)

/-! ### Numbers in texts -/

/-- The number is written as a numeral: with a fraction or an exponent in Rust, and in any way in
TypeScript and in records. -/
structure Double.IsWritten (d : Double) : Prop where
  rust : ∀ ctx : Rust.Context, ∃ s n, ctx.expr (.float d) = .verbatim s ∧ Numeral.Spells s n ∧
    n.isInteger = false
  typescript : ∀ ctx : TypeScript.Context, ∃ s n, ctx.expr (.float d) = .verbatim s ∧
    Numeral.Spells s n
  record : ∀ set, ∃ n, ((Value.float d).toLiteral set).tagged = Literal.tag "double" (.double d) ∧
    Numeral.Spells (Json.double d).compact n

theorem Double.isWritten_iff {d : Double} : d.IsWritten ↔ d.isFinite := by
  have hcompact : (Json.double d).compact = if d.isFinite then Layout.data.text d else "null" := rfl
  constructor
  · intro h
    obtain ⟨n, -, hn⟩ := h.record ⟨[], [], []⟩
    by_contra hd
    rw [hcompact, if_neg hd] at hn
    cases hn.1
  · intro hd
    refine ⟨fun ctx => ?_, fun ctx => ?_, fun set => ?_⟩
    · obtain ⟨n, hn, hinteger⟩ := Layout.spells_text .source hd
      exact ⟨_, n, by rw [Rust.Context.expr], hn, hinteger rfl⟩
    · obtain ⟨n, hn, -⟩ := Layout.spells_text .plain hd
      exact ⟨_, n, by rw [TypeScript.Context.expr], hn⟩
    · obtain ⟨n, hn, -⟩ := Layout.spells_text .data hd
      refine ⟨n, by rw [Value.toLiteral, Literal.tagged], ?_⟩
      rwa [hcompact, if_pos hd]

/-! ### Numbers in values -/

/-- The numbers that a value holds itself, outside the values that it contains, are finite. -/
def Value.HoldsFinite : Value → Prop
  | .float d => d.isFinite
  | .json l => l.finite
  | _ => True

variable {set : ModuleSet} {n : Nat} {l : Literal} {v : Value} {t : TypeExpr}

theorem ModuleSet.inherits_fits (h : ∀ id, (set.decl id).LiteralsFit) :
    set.Inherits Literal.Fits :=
  ⟨.null, Literal.hereditary_fits.array.mp, Literal.hereditary_fits.object.mp,
    fun id => (h id).declared⟩

theorem ModuleSet.inherits_finite (h : ∀ id, ∀ l ∈ (set.decl id).declared, l.finite) :
    set.Inherits fun l => l.finite := by
  refine ⟨rfl, fun h => ?_, fun h => ?_, h⟩
  · rwa [Literal.finite, Literal.itemsFinite_eq_all, List.all_eq_true] at h
  · rwa [Literal.finite, Literal.entriesFinite_eq_all, List.all_eq_true] at h

/-- Only finite numbers are read from a literal whose numbers are finite. -/
theorem Denotes.holdsFinite (h : Denotes set n l v t) (hl : l.finite) (hfit : l.Fits) :
    v.HoldsFinite := by
  cases h with
  | scalar _ h =>
    cases h with
    | float => exact hl
    | double d => exact hl
    | floatOfInt i =>
      cases hfit with
      | integer hle hlt => exact Double.ofInt_isFinite hle hlt
    | doubleOfInt i =>
      cases hfit with
      | integer hle hlt => exact Double.ofInt_isFinite hle hlt
    | json => exact hl
    | _ => trivial
  | _ => trivial

/-- A number that is read at `Float` is finite in 32 bits, unless it is infinite. -/
theorem Denotes.overflowsSingle {d : Double} {args : List TypeExpr}
    (h : Denotes set n l (.float d) t) (ht : set.Expands t (.mk (.primitive .float) args))
    (hfit : l.Fits) : d.overflowsSingle = false := by
  cases h with
  | scalar ht' h =>
    cases ht.unique ht'
    cases h with
    | float h => exact h
    | floatOfInt i =>
      cases hfit with
      | integer hle hlt => exact Double.ofInt_overflowsSingle hle hlt

/-- Every number that is written in a literal is in the value that it denotes. -/
theorem Denotes.finite (h : Denotes set n l v t)
    (hparts : ∀ w u, ReflTransGen set.Contains (v, t) (w, u) → w.HoldsFinite) : l.finite := by
  induction h with
  | scalar _ h =>
    have hself := hparts _ _ .refl
    cases h with
    | float => exact hself
    | double => exact hself
    | json => exact hself
    | _ => rfl
  | vector ht hlen _ ih =>
    rw [Literal.finite, Literal.itemsFinite_eq_all, List.all_eq_true]
    intro l hl
    obtain ⟨i, hi⟩ := List.mem_iff_getElem?.mp hl
    obtain ⟨v, hv⟩ := exists_getElem?_of_length_eq hlen.symm hi
    refine ih l v (mem_zip_iff.mpr ⟨i, hi, hv⟩) fun w u hw => hparts w u (.head ?_ hw)
    exact .item ht (List.mem_of_getElem? hv)
  | stringMap ht _ heq _ ih =>
    rw [Literal.finite, Literal.entriesFinite_eq_all, List.all_eq_true]
    intro e he
    obtain ⟨i, hi⟩ := List.mem_iff_getElem?.mp he
    obtain ⟨v, hv⟩ := exists_getElem?_of_length_eq (length_eq_of_map_eq heq).symm hi
    refine ih e v (mem_zip_iff.mpr ⟨i, hi, hv⟩) fun w u hw => hparts w u (.head ?_ hw)
    exact .entry ht (List.mem_of_getElem? hv)
  | absent => rfl
  | present ht _ _ ih => exact ih fun w u hw => hparts w u (.head (.present ht) hw)
  | @struct n _ id _ types ms entries sources vs ht hbody htypes hkeys hknown hsources hlen _ ih =>
    rw [Literal.finite, Literal.entriesFinite_eq_all, List.all_eq_true]
    intro e he
    -- The field of the entry is read from the entry, as no other entry has its key.
    obtain ⟨m, hm, hname⟩ := List.mem_map.mp (hknown e.1 (List.mem_map_of_mem he))
    obtain ⟨i, hi⟩ := List.mem_iff_getElem?.mp hm
    obtain ⟨v, hv⟩ := exists_getElem?_of_length_eq hlen hi
    obtain ⟨_, s, type, hi', hs, htype, hmem⟩ := exists_fieldSource hbody htypes hsources hlen hv
    cases hi.symm.trans hi'
    have hlit : s.2 = e.2 := by
      cases hs with
      | given h =>
        rw [hname] at h
        exact congrArg Prod.snd (List.inj_on_of_nodup_map hkeys h he rfl)
      | declared h _ => exact absurd (hname ▸ List.mem_map_of_mem he) h
    rw [← hlit]
    exact ih s type v hmem fun w u hw => hparts w u (.head (.field ht htypes hv htype) hw)
  | union ht _ _ hl htypes htype _ ih =>
    have hpayload := ih fun w u hw => hparts w u (.head (.payload ht htypes htype) hw)
    rcases hl with rfl | ⟨rfl, -⟩
    · rwa [Literal.finite, Literal.entriesFinite_eq_all, List.all_cons, List.all_nil, Bool.and_true]
    · rfl
  | enum _ _ _ hl => rcases hl with rfl | rfl <;> rfl
  | newtype ht _ htarget _ _ ih => exact ih fun w u hw => hparts w u (.head (.target ht htarget) hw)

/-! ### Stored defaults -/

/-- A value is stored as the default of a field or of a newtype, which has the type. -/
inductive Compilation.Stores (c : Compilation) : Value → TypeExpr → Prop
  | field {id : DeclId} {i : Nat} {m : Member} {v : Value}
      (hm : (c.set.decl id).members[i]? = some m) (hv : (c.defaultsOf id).member? i = some v) :
      Stores c v m.type
  | newtype {id : DeclId} {v : Value} (hv : (c.defaultsOf id).newtype = some v) :
      Stores c v (c.set.selfType id)

namespace Compiled

variable {modules : List Source.Module} {c : Compilation} (h : Compiled modules c)

include h

/-- A newtype contains its target, and nothing else. -/
theorem contains_selfType_iff {id : DeclId} {default : Option Literal} {w : Value} {u : TypeExpr}
    (hbody : (c.set.decl id).body = .newtype t default) :
    c.set.Contains (.newtype id v, c.set.selfType id) (w, u) ↔ w = v ∧ u = t := by
  have ht : c.set.Expands (c.set.selfType id) (c.set.selfType id) := by
    refine .of_decl ?_ _
    rw [ModuleSet.isAlias, Decl.isAlias, hbody]
    exact Bool.false_ne_true
  have htarget := bodyAt_selfType (ModuleSet.proper_of_checkAll h.resolved h.checked id) hbody
  constructor
  · intro hc
    cases hc with
    | target ht' htarget' =>
      cases ht.unique ht'
      cases htarget.unique htarget'
      exact ⟨rfl, rfl⟩
  · rintro ⟨rfl, rfl⟩
    exact .target ht htarget

/-- The parts of a stored default are denoted by literals, the newtype of a stored default apart.
These have each property that all declared defaults have and that goes over to parts. -/
theorem denotes_part {P : Literal → Prop} (hP : c.set.Inherits P) (hv : c.Stores v t) {w : Value}
    {u : TypeExpr} (hpart : ReflTransGen c.set.Contains (v, t) (w, u)) :
    (∃ id w', w = .newtype id w') ∨ ∃ k l, P l ∧ Denotes c.set k l w u := by
  cases hv with
  | @field id i m _ hm hv =>
    obtain ⟨x, hx⟩ := h.exists_decl fun hempty => by
      rw [hempty] at hv
      cases hv
    obtain ⟨ms, m', l, hbody, hm', hl, hown⟩ := (h.defaultsOf hx).exists_member hv
    rw [Decl.members, hbody] at hm
    cases hm.symm.trans hm'
    have hdeclared := Decl.mem_declared_of_struct hbody (List.mem_of_getElem? hm') hl
    exact .inr (hown.denotes.part hP (hP.declared id l hdeclared) hpart)
  | @newtype id _ hv =>
    obtain ⟨x, hx⟩ := h.exists_decl fun hempty => by
      rw [hempty] at hv
      cases hv
    obtain ⟨target, l, v', hbody, rfl, hown⟩ := (h.defaultsOf hx).exists_newtype hv
    rcases ReflTransGen.cases_head hpart with heq | ⟨⟨w', u'⟩, hc, hrest⟩
    · cases heq
      exact .inl ⟨id, v', rfl⟩
    · obtain ⟨rfl, rfl⟩ := (h.contains_selfType_iff hbody).mp hc
      have hdeclared := Decl.mem_declared_of_newtype hbody
      exact .inr (hown.denotes.part hP (hP.declared id l hdeclared) hrest)

/-- What a declared default denotes is part of a stored one. -/
theorem exists_stores {id : DeclId} (hl : l ∈ (c.set.decl id).declared) :
    ∃ v t w u, c.Stores v t ∧ ReflTransGen c.set.Contains (v, t) (w, u) ∧
      Denotes c.set maxDefaultDepth l w u := by
  cases hx : c.set.decls[id]? with
  | none =>
    rw [ModuleSet.decl, hx] at hl
    cases hl
  | some x =>
    have hdefaults := h.defaultsOf hx
    rw [Decl.declared] at hl
    split at hl
    · next ms hbody =>
      rw [hbody] at hdefaults
      generalize hs : c.defaultsOf id = stored at hdefaults
      cases hdefaults with
      | @struct _ vs hvs =>
        obtain ⟨m, hm, hdefault⟩ := List.mem_filterMap.mp hl
        obtain ⟨i, hi⟩ := List.mem_iff_getElem?.mp hm
        obtain ⟨hlen, hall⟩ := forall₂_iff_getElem?.mp hvs
        obtain ⟨o, ho⟩ := exists_getElem?_of_length_eq hlen.symm hi
        cases hall i m o hi ho with
        | none hnone => exact absurd (hdefault.symm.trans hnone) (Option.some_ne_none l)
        | @some _ v hsome hown =>
          cases hdefault.symm.trans hsome
          have hmember : (c.set.decl id).members[i]? = some m := by rwa [Decl.members, hbody]
          have hstored : (c.defaultsOf id).member? i = some v := by
            rw [hs, Defaults.member?, ho, Option.join_some]
          exact ⟨v, m.type, v, m.type, .field hmember hstored, .refl, hown.denotes⟩
    · next target default hbody =>
      rw [hbody] at hdefaults
      generalize hs : c.defaultsOf id = stored at hdefaults
      cases hdefaults with
      | @newtype _ _ v hown =>
        cases Option.mem_toList.mp hl
        have hc : c.set.Contains (.newtype id v, c.set.selfType id) (v, target) :=
          (h.contains_selfType_iff hbody).mpr ⟨rfl, rfl⟩
        exact ⟨.newtype id v, c.set.selfType id, v, target, .newtype (by rw [hs]), .single hc,
          hown.denotes⟩
      | newtype_none => cases hl
    · cases hl

end Compiled

/-! ### Main statement -/

/-- In the defaults that are compiled from texts all numbers are finite if and only if they are in
the literals that are declared as defaults.  Each number of a stored default at any depth is written
as a numeral exactly if it is finite.  If it is, and has type `Float`, it is also finite in 32
bits. -/
theorem ofSources_numbers {texts : List String} {c : Compilation}
    (hc : Compilation.ofSources texts = .ok c) :
    ((∀ v t, c.Stores v t → ∀ w u, ReflTransGen c.set.Contains (v, t) (w, u) → w.HoldsFinite) ↔
      ∀ id, ∀ l ∈ (c.set.decl id).declared, l.finite) ∧
    ∀ v t, c.Stores v t → ∀ d u, ReflTransGen c.set.Contains (v, t) (.float d, u) →
      (d.IsWritten ↔ d.isFinite) ∧
      ∀ args, c.set.Expands u (.mk (.primitive .float) args) → d.isFinite →
        d.bits < Double.singleOverflowBits := by
  obtain ⟨modules, h, hwf⟩ := Compilation.exists_modules hc
  have hfits := ModuleSet.inherits_fits (h.resolved.literalsFit fun m hm => (hwf m hm).fits)
  refine ⟨⟨fun hall id l hl => ?_, fun hall v t hv w u hpart => ?_⟩, fun v t hv d u hpart => ?_⟩
  · obtain ⟨v, t, w, u, hv, hw, hdenotes⟩ := h.exists_stores hl
    exact hdenotes.finite fun w' u' hpart => hall v t hv w' u' (hw.trans hpart)
  · have hP := hfits.and (ModuleSet.inherits_finite hall)
    obtain ⟨id, w', rfl⟩ | ⟨k, l, ⟨hfit, hl⟩, hdenotes⟩ := h.denotes_part hP hv hpart
    · trivial
    · exact hdenotes.holdsFinite hl hfit
  · refine ⟨Double.isWritten_iff, fun args hu hd => ?_⟩
    obtain ⟨id, w', heq⟩ | ⟨k, l, hfit, hdenotes⟩ := h.denotes_part hfits hv hpart
    · cases heq
    · have hsingle := hdenotes.overflowsSingle hu hfit
      rw [Double.overflowsSingle, hd, Bool.true_and, decide_eq_false_iff_not] at hsingle
      exact Nat.lt_of_not_le hsingle

/-- A text with a number that is too large, and one that is not, in a default. -/
def gaugeText : String :=
  "module m \x7b struct Gauge \x7b Vector<Float> marks = [1e999, 2]; \x7d; \x7d;"

/-- The tokens of `gaugeText`. -/
def gaugeTokens : List Token :=
  [("module", 1), ("m", 8), ("\x7b", 10), ("struct", 12), ("Gauge", 19), ("\x7b", 25),
    ("Vector", 27), ("<", 33), ("Float", 34), (">", 39), ("marks", 41), ("=", 47), ("[", 49),
    ("1e999", 50), (",", 55), ("2", 57), ("]", 58), (";", 59), ("\x7d", 61), (";", 62),
    ("\x7d", 64), (";", 65)].map fun (word, column) => ⟨word, ⟨1, column⟩⟩

/-- The module of `gaugeText`. -/
def gaugeModule : Source.Module :=
  ⟨"m", [], [⟨"Gauge", [], [], .struct [⟨"marks", "marks",
    .mk "Vector" [.mk "Float" [] ⟨1, 34⟩] ⟨1, 27⟩,
    some (.array [.double (.infinite false), .integer 2]), [], ⟨1, 41⟩⟩], ⟨1, 12⟩⟩], []⟩

/-- The field of `gaugeModule`. -/
def gaugeField : Member :=
  ⟨"marks", "marks", .mk (.primitive .vector) [.mk (.primitive .float) []],
    some (.array [.double (.infinite false), .integer 2]), []⟩

/-- The default of the field. -/
def gaugeValue : Value := .vector [.float (.infinite false), .float (.ofInt 2)]

/-- What `gaugeModule` compiles to. -/
def gaugeCompilation : Compilation :=
  let set : ModuleSet := ⟨[⟨"m", [], [0], []⟩],
    [⟨0, "m", "Gauge", [], [], .struct [gaugeField]⟩], [(⟨"m", "Gauge"⟩, 0)]⟩
  let defaults : Defaults := ⟨[some gaugeValue], none⟩
  ⟨set, [defaults], [set.exportDecl 0 defaults]⟩

theorem ofModules_gaugeModule : Compilation.ofModules [gaugeModule] = .ok gaugeCompilation := by
  have hresolve : ModuleSet.resolve [gaugeModule] = .ok gaugeCompilation.set := by cbv
  have hcheck : gaugeCompilation.set.checkAll = .ok () := by cbv
  have hresolved := resolve_eq_ok_iff.mp hresolve
  obtain ⟨hsaturated, hbound⟩ := ModuleSet.proper_of_checkAll hresolved hcheck 0
    gaugeField.type List.mem_cons_self
  have hdenotes : Denotes gaugeCompilation.set maxDefaultDepth
      (.array [.double (.infinite false), .integer 2]) gaugeValue gaugeField.type := by
    refine .vector (.of_primitive _ _) rfl fun l v hmem => ?_
    rcases List.mem_cons.mp hmem with heq | hmem
    · cases heq
      exact .scalar (.of_primitive _ _) (.float rfl)
    · cases List.mem_singleton.mp hmem
      exact .scalar (.of_primitive _ _) (.floatOfInt 2)
  refine ofModules_eq_ok_iff.mpr ⟨hresolved, hcheck, .cons ?_ .nil, rfl⟩
  exact (Graph.yields_defaults_iff hresolved.distinctNames).mpr
    (.struct (.cons (.some rfl ⟨hsaturated, hbound, hdenotes⟩) .nil))

theorem ofSources_gaugeText : Compilation.ofSources [gaugeText] = .ok gaugeCompilation := by
  have hscan : Token.scan gaugeText = .ok ⟨gaugeTokens, ⟨1, 66⟩⟩ :=
    toOption_eq_some_iff.mp (by decide +kernel)
  have hparse : Source.parse gaugeTokens = .ok gaugeModule := by cbv
  have htext (label : String) : Source.ofText label gaugeText = .ok gaugeModule :=
    Source.ofText_eq_ok_iff.mpr ⟨_, hscan, hparse⟩
  exact (Compilation.ofSources_singleton htext rfl).trans ofModules_gaugeModule

/-- Both marks are stored.  The mark `2` is finite in 32 bits and written as a numeral, and the mark
`1e999` is neither. -/
theorem gauge_numbers :
    Compilation.ofSources [gaugeText] = .ok gaugeCompilation ∧
    gaugeCompilation.Stores gaugeValue gaugeField.type ∧
    ((Double.ofInt 2).IsWritten ∧ (Double.ofInt 2).bits < Double.singleOverflowBits) ∧
    ¬ (Double.infinite false).IsWritten := by
  have hstores : gaugeCompilation.Stores gaugeValue gaugeField.type :=
    @Compilation.Stores.field _ 0 0 gaugeField _ rfl rfl
  have hpart : ∀ d, .float d ∈ [Value.float (.infinite false), .float (.ofInt 2)] →
      ReflTransGen gaugeCompilation.set.Contains (gaugeValue, gaugeField.type)
        (.float d, .mk (.primitive .float) []) :=
    fun d hd => .single (.item (.of_primitive _ _) hd)
  obtain ⟨-, hnumbers⟩ := ofSources_numbers ofSources_gaugeText
  have htwo := hnumbers _ _ hstores _ _
    (hpart (.ofInt 2) (List.mem_cons_of_mem _ List.mem_cons_self))
  have hlarge := hnumbers _ _ hstores _ _ (hpart (.infinite false) List.mem_cons_self)
  have hfinite : (Double.ofInt 2).isFinite := by decide +kernel
  refine ⟨ofSources_gaugeText, hstores,
    ⟨htwo.1.mpr hfinite, htwo.2 [] (.of_primitive _ _) hfinite⟩, fun hwritten => ?_⟩
  exact absurd (hlarge.1.mp hwritten) Bool.false_ne_true

end Adl
