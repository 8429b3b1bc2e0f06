import GoWeave.Proofs.Merge.Duplicates
import GoWeave.Proofs.Merge.Imports
import Mathlib.Data.List.Forall2

/-!
# What a unit leaves alone

Whatever becomes of a unit, the declarations that are there keep their places. The shared import
group may get more imports and structs may get more fields, at the end in both cases; nothing else
changes, the registry keeps its entries and the decisions stay.

A unit that fails registers nothing. It leaves all declarations but the imports alone if it fails
before its widenings. One that fails at a widening leaves the widenings before it, and each of them
is among the decisions.
-/
namespace GoWeave

/-! ## Declarations that only grow -/

/-- A spec that is the same, or a struct type with more fields at the end. -/
inductive Spec.Widened : Spec → Spec → Prop
  | same (s : Spec) : Widened s s
  | fields (name : String) (typeParams : Option (List Field)) (isAlias : Bool)
      (old more : List Field) (incomplete : Bool) :
    Widened (.type ⟨name, typeParams, isAlias, .structType old incomplete⟩)
      (.type ⟨name, typeParams, isAlias, .structType (old ++ more) incomplete⟩)

theorem Spec.Widened.trans {s₁ s₂ s₃ : Spec} (h : Widened s₁ s₂) (h' : Widened s₂ s₃) :
    Widened s₁ s₃ := by
  cases h with
  | same => exact h'
  | fields name typeParams isAlias old more incomplete =>
    cases h' with
    | same => exact .fields ..
    | fields _ _ _ _ more' _ =>
      rw [List.append_assoc]
      exact .fields ..

theorem Spec.widened_modifyType (fields : List Field) (s : Spec) :
    Widened s (s.modifyType (TypeSpec.addFields fields)) := by
  cases s with
  | imported spec => exact .same _
  | value v => exact .same _
  | type t =>
    obtain ⟨name, typeParams, isAlias, ty⟩ := t
    simp only [modifyType, TypeSpec.addFields]
    split
    · exact .fields ..
    · exact .same _

theorem Spec.forall₂_widened_trans {l₁ l₂ l₃ : List Spec} (h : List.Forall₂ Widened l₁ l₂)
    (h' : List.Forall₂ Widened l₂ l₃) : List.Forall₂ Widened l₁ l₃ := by
  induction h generalizing l₃ with
  | nil => exact h'
  | cons hs _ ih =>
    cases h' with
    | cons hs' h' => exact .cons (hs.trans hs') (ih h')

theorem Spec.forall₂_widened_modify (fields : List Field) (k : Nat) (specs : List Spec) :
    List.Forall₂ Widened specs (specs.modify k (Spec.modifyType (TypeSpec.addFields fields))) := by
  induction specs generalizing k with
  | nil =>
    cases k <;> exact .nil
  | cons s specs ih =>
    cases k with
    | zero =>
      exact .cons (widened_modifyType fields s) (List.forall₂_same.2 fun s _ => .same s)
    | succ k => exact .cons (.same s) (ih k)

namespace Decl

/-- What units make of a declaration: it is the same, it is the shared group with more imports, or
some of its structs are widened. -/
inductive Grown (shared : Prop) : Decl → Decl → Prop
  | same (d : Decl) : Grown shared d d
  | imports (h : shared) (specs : List Spec) (more : List ImportSpec) (grouped : Bool) :
    Grown shared (.group ⟨.import_, specs, grouped⟩)
      (.group ⟨.import_, specs ++ more.map .imported, grouped⟩)
  | widened (tok : Token) (specs specs' : List Spec) (grouped : Bool) (htok : tok ≠ .import_)
      (h : List.Forall₂ Spec.Widened specs specs') :
    Grown shared (.group ⟨tok, specs, grouped⟩) (.group ⟨tok, specs', grouped⟩)

theorem Grown.trans {shared shared' : Prop} (hshared : shared' → shared) {d₁ d₂ d₃ : Decl}
    (h : Grown shared d₁ d₂) (h' : Grown shared' d₂ d₃) : Grown shared d₁ d₃ := by
  cases h' with
  | same => exact h
  | imports hs specs more grouped =>
    cases h with
    | same => exact .imports (hshared hs) specs more grouped
    | imports hs specs more' grouped =>
      rw [List.append_assoc, ← List.map_append]
      exact .imports hs ..
    | widened _ _ _ _ htok _ => exact absurd rfl htok
  | widened tok specs specs' grouped htok hspecs =>
    cases h with
    | same => exact .widened tok specs specs' grouped htok hspecs
    | imports => exact absurd rfl htok
    | widened _ specs₀ _ _ _ hspecs₀ =>
      exact .widened tok specs₀ specs' grouped htok
        (Spec.forall₂_widened_trans hspecs₀ hspecs)

theorem grown_modifyType {d : Decl} (hd : d.isImport = false) (shared : Prop) (k : Nat)
    (fields : List Field) : Grown shared d (d.modifyType k (TypeSpec.addFields fields)) := by
  cases d with
  | bad node => exact .same _
  | func f => exact .same _
  | group g =>
    obtain ⟨tok, specs, grouped⟩ := g
    refine .widened tok specs _ grouped (by simpa [isImport] using hd) ?_
    exact Spec.forall₂_widened_modify fields k specs

end Decl

namespace Merger

/-! ## Mergers that only grow -/

theorem Accepts.exists_holdsImports {m next : Merger} (h : Accepts m next)
    (hm : ∃ specs, m.HoldsImports specs) : ∃ specs, next.HoldsImports specs := by
  obtain ⟨specs, hm⟩ := hm
  cases h with
  | same => exact ⟨specs, hm⟩
  | added imports spec =>
    have hsame : ({ m with imports } : Merger).HoldsImports specs := hm.congr rfl rfl
    exact ⟨specs ++ [spec], hsame.addImport spec⟩

theorem HoldsImports.record {m : Merger} {specs : List ImportSpec} (h : m.HoldsImports specs)
    (decisions : List Decision) : (m.record decisions).HoldsImports specs :=
  h.congr rfl rfl

theorem TakesImport.exists_holdsImports {m m' : Merger} {u : UnitTag} {decls decls' : List Decl}
    {b : Import.Binding} (h : TakesImport m u decls b m' decls')
    (hm : ∃ specs, m.HoldsImports specs) : ∃ specs, m'.HoldsImports specs := by
  cases h with
  | present => exact hm
  | added next h =>
    obtain ⟨specs, hnext⟩ := h.exists_holdsImports hm
    exact ⟨specs, hnext.record _⟩
  | renamed next h n hb =>
    obtain ⟨specs, hnext⟩ := h.exists_holdsImports hm
    exact ⟨specs, hnext.record _⟩

/-- The shared group of a reachable merger is where it is said to be. -/
theorem Reachable.exists_holdsImports {m : Merger} (h : m.Reachable) :
    ∃ specs, m.HoldsImports specs := by
  induction h with
  | start package => exact ⟨[], .start package⟩
  | merge file tag _ ih =>
    obtain ⟨specs, ih⟩ := ih
    refine merge_invariant (P := fun m => ∃ specs, m.HoldsImports specs)
      ⟨specs, ih.congr rfl rfl⟩ ?_ ?_ ?_ ?_
    · intro _ bindings _ b _ n decls hn
      exact (takeImport_cases n _ decls b).exists_holdsImports hn
    · rintro n res w n' res' hstep ⟨specs, hn⟩
      exact ⟨specs, hn.widens hstep⟩
    · rintro n decisions ⟨specs, hn⟩
      exact ⟨specs, hn.record decisions⟩
    · rintro n decls hdecls ⟨specs, hn⟩
      exact ⟨specs, hn.append hdecls⟩

/-- A merger and one with more in it. Each declaration keeps its index, each key its slot, and the
decisions begin with those made before. -/
structure GrowsInto (m m' : Merger) : Prop where
  decls : ∀ i d, m.decls[i]? = some d →
    ∃ d', m'.decls[i]? = some d' ∧ Decl.Grown (m.importGroup = some i) d d'
  slots : ∀ key slot, m.slot? key = some slot → m'.slot? key = some slot
  decisions : m.decisions <+: m'.decisions
  shared : ∀ i < m.decls.length, m'.importGroup = some i → m.importGroup = some i

namespace GrowsInto

variable {m m' m'' : Merger}

theorem refl (m : Merger) : m.GrowsInto m :=
  ⟨fun _ d hd => ⟨d, hd, .same d⟩, fun _ _ h => h, List.prefix_rfl, fun _ _ h => h⟩

theorem trans (h : m.GrowsInto m') (h' : m'.GrowsInto m'') : m.GrowsInto m'' := by
  have hlength : ∀ i < m.decls.length, i < m'.decls.length := by
    intro i hi
    obtain ⟨d', hd', -⟩ := h.decls i _ (List.getElem?_eq_getElem hi)
    exact (List.getElem?_eq_some_iff.1 hd').1
  refine ⟨fun i d hd => ?_, fun key slot hslot => h'.slots key slot (h.slots key slot hslot),
    h.decisions.trans h'.decisions, fun i hi hshared => ?_⟩
  · have hi := (List.getElem?_eq_some_iff.1 hd).1
    obtain ⟨d', hd', hgrown⟩ := h.decls i d hd
    obtain ⟨d'', hd'', hgrown'⟩ := h'.decls i d' hd'
    exact ⟨d'', hd'', hgrown.trans (h.shared i hi) hgrown'⟩
  · exact h.shared i hi (h'.shared i (hlength i hi) hshared)

theorem record (h : m.GrowsInto m') (decisions : List Decision) :
    m.GrowsInto (m'.record decisions) :=
  ⟨h.decls, h.slots, h.decisions.trans (List.prefix_append _ _), h.shared⟩

theorem addImport {specs : List ImportSpec} (h : m.HoldsImports specs) (spec : ImportSpec) :
    m.GrowsInto (m.addImport spec) := by
  unfold Merger.addImport
  split
  · next i hi =>
    refine ⟨fun j d hd => ?_, fun _ _ h => h, List.prefix_rfl, fun _ _ h => h⟩
    by_cases hij : i = j
    · subst hij
      rw [h.group i hi, Option.some.injEq] at hd
      subst hd
      exact ⟨_, by rw [List.getElem?_modify_eq, h.group i hi]; rfl, .imports hi _ [spec] _⟩
    · exact ⟨d, (List.getElem?_modify_ne _ _ hij).trans hd, .same d⟩
  · refine ⟨fun j d hd => ?_, fun _ _ h => h, List.prefix_rfl, fun j hj hshared => ?_⟩
    · have hj := (List.getElem?_eq_some_iff.1 hd).1
      exact ⟨d, (List.getElem?_append_left hj).trans hd, .same d⟩
    · have hlast : m.decls.length = j := Option.some.inj hshared
      omega

theorem widens {specs : List ImportSpec} (h : m.HoldsImports specs) {u : UnitTag}
    {res res' : Resolution} {w : Widening} (hstep : Widens m u res w m' res') : m.GrowsInto m' := by
  cases hstep with
  | skip hskip => exact refl m
  | merge fields source target hfields hsource htarget hstruct =>
    refine ⟨fun j d hd => ?_, fun _ _ h => h, List.prefix_rfl, fun _ _ h => h⟩
    dsimp only
    rcases Decl.modifyTypeSpec_eq m.decls w.canonical
      (TypeSpec.addFields (addedFields source w.fields)) with ⟨i, k, -, heq⟩ | heq
    · rw [heq]
      by_cases hij : i = j
      · subst hij
        rw [List.getElem?_modify_eq, hd]
        refine ⟨_, rfl, ?_⟩
        cases himport : d.isImport with
        | true =>
          -- The shared group holds no type.
          have hshared := h.only i d hd himport
          rw [h.group i hshared, Option.some.injEq] at hd
          rw [← hd, Decl.modifyType_ofImports]
          exact .same _
        | false => exact Decl.grown_modifyType himport _ k _
      · exact ⟨d, (List.getElem?_modify_ne _ _ hij).trans hd, .same d⟩
    · rw [heq]
      exact ⟨d, hd, .same d⟩

theorem append (m : Merger) (decls : List Decl) : m.GrowsInto (m.append decls) := by
  refine ⟨fun i d hd => ?_, fun key slot hslot => ?_, List.prefix_rfl, fun _ _ h => h⟩
  · have hi := (List.getElem?_eq_some_iff.1 hd).1
    exact ⟨d, (List.getElem?_append_left hi).trans hd, .same d⟩
  · have hslot : m.registry.lookup key = some slot := hslot
    exact (lookup_register _ _ key).trans (by rw [hslot]; rfl)

end GrowsInto

theorem Accepts.growsInto {m next : Merger} (h : Accepts m next)
    (hm : ∃ specs, m.HoldsImports specs) : m.GrowsInto next := by
  obtain ⟨specs, hm⟩ := hm
  cases h with
  | same => exact .refl m
  | added imports spec =>
    have hsame : ({ m with imports } : Merger).HoldsImports specs := hm.congr rfl rfl
    have hadd := GrowsInto.addImport hsame spec
    exact ⟨hadd.decls, hadd.slots, hadd.decisions, hadd.shared⟩

theorem TakesImport.growsInto {m m' : Merger} {u : UnitTag} {decls decls' : List Decl}
    {b : Import.Binding} (h : TakesImport m u decls b m' decls')
    (hm : ∃ specs, m.HoldsImports specs) : m.GrowsInto m' := by
  cases h with
  | present => exact .refl m
  | added next h => exact (h.growsInto hm).record _
  | renamed next h n hb => exact (h.growsInto hm).record _

/-- Whether a unit is merged or fails, all that is there stays in place and only grows. -/
theorem Reachable.growsInto_merge {m : Merger} (h : m.Reachable) (file : SourceFile)
    (tag : String) : m.GrowsInto (m.merge file tag).1 := by
  obtain ⟨specs, hspecs⟩ := h.exists_holdsImports
  suffices hrun : m.GrowsInto (m.merge file tag).1 ∧
      ∃ specs, (m.merge file tag).1.HoldsImports specs from hrun.1
  -- That the shared group holds imports is kept along with the growth.
  refine merge_invariant (P := fun n => m.GrowsInto n ∧ ∃ specs, n.HoldsImports specs)
    ?_ ?_ ?_ ?_ ?_
  · have hrefl := GrowsInto.refl m
    exact ⟨⟨hrefl.decls, hrefl.slots, hrefl.decisions, hrefl.shared⟩, specs,
      hspecs.congr rfl rfl⟩
  · rintro - bindings - b - n decls ⟨hn, hholds⟩
    have hstep := takeImport_cases n ⟨m.units, tag⟩ decls b
    exact ⟨hn.trans (hstep.growsInto hholds), hstep.exists_holdsImports hholds⟩
  · rintro n res w n' res' hstep ⟨hn, specs, hholds⟩
    exact ⟨hn.trans (.widens hholds hstep), specs, hholds.widens hstep⟩
  · rintro n decisions ⟨hn, specs, hholds⟩
    exact ⟨hn.record decisions, specs, hholds.record decisions⟩
  · rintro n decls hdecls ⟨hn, specs, hholds⟩
    exact ⟨hn.trans (.append n decls), specs, hholds.append hdecls⟩

theorem growsInto_merge_failing_unit :
    let m := ((start "out").merge
      ⟨"a", [.ofImport "f" "x/f", .ofType "S" (.structType [⟨["X"], .ident "int", none⟩] false),
        .ofType "T" (.structType [⟨["X", "X"], .ident "int", none⟩] false)]⟩ "A").1
    let file : SourceFile :=
      ⟨"b", [.ofImport "f" "y/f",
        .ofType "S" (.structType [⟨["X", "Y"], .ident "int", none⟩] false),
        .ofType "T" (.structType [] false)]⟩
    (m.merge file "B").2.isSome = true ∧ m.GrowsInto (m.merge file "B").1 := by
  intro m file
  have hm : m.Reachable := .merge _ _ (.start "out")
  exact ⟨by decide +kernel, hm.growsInto_merge file "B"⟩

end Merger

/-! ## Declarations besides imports -/

namespace Decl

/-- Lists that differ at most in their imports: at each index stands the same declaration, unless
both have an import or nothing there. -/
def SameButImports (ds ds' : List Decl) : Prop :=
  ∀ i : Nat, ds[i]?.filter (!·.isImport) = ds'[i]?.filter (!·.isImport)

namespace SameButImports

theorem refl (ds : List Decl) : SameButImports ds ds :=
  fun _ => rfl

theorem trans {ds₁ ds₂ ds₃ : List Decl} (h : SameButImports ds₁ ds₂)
    (h' : SameButImports ds₂ ds₃) : SameButImports ds₁ ds₃ :=
  fun i => (h i).trans (h' i)

theorem symm {ds ds' : List Decl} (h : SameButImports ds ds') : SameButImports ds' ds :=
  fun i => (h i).symm

theorem withoutImports_of_nil {ds : List Decl} (h : SameButImports [] ds) :
    withoutImports ds = [] := by
  refine List.filter_eq_nil_iff.2 fun d hd => ?_
  obtain ⟨i, hi⟩ := List.getElem?_of_mem hd
  have hsame := h i
  rw [hi] at hsame
  simpa [Option.filter_some] using hsame

theorem withoutImports_eq {ds ds' : List Decl} (h : SameButImports ds ds') :
    withoutImports ds = withoutImports ds' := by
  induction ds generalizing ds' with
  | nil => rw [h.withoutImports_of_nil, withoutImports, List.filter_nil]
  | cons d ds ih =>
    cases ds' with
    | nil => rw [h.symm.withoutImports_of_nil, withoutImports, List.filter_nil]
    | cons d' ds' =>
      have htail := ih fun i => h (i + 1)
      have hhead : (some d).filter (!·.isImport) = (some d').filter (!·.isImport) := h 0
      unfold withoutImports at htail ⊢
      cases hd : d.isImport <;> cases hd' : d'.isImport <;>
        simp [Option.filter_some, hd, hd'] at hhead
      · simp [hhead, hd', htail]
      · simp [hd, hd', htail]

theorem modify {ds ds' : List Decl} (h : SameButImports ds ds') {f : Decl → Decl}
    (hf : ∀ d, (f d).isImport = d.isImport) (i : Nat) :
    SameButImports (ds.modify i f) (ds'.modify i f) := by
  intro j
  by_cases hij : i = j
  · subst hij
    have hcomp : (fun d : Decl => !d.isImport) ∘ f = fun d => !d.isImport := by
      funext d
      simp [hf]
    simp only [List.getElem?_modify_eq, Option.map_eq_map, Option.filter_map, hcomp, h i]
  · rw [List.getElem?_modify_ne _ _ hij, List.getElem?_modify_ne _ _ hij]
    exact h j

theorem modifyTypeSpec {ds ds' : List Decl} (h : SameButImports ds ds') (slot : Slot)
    (f : TypeSpec → TypeSpec) :
    SameButImports (modifyTypeSpec ds slot f) (modifyTypeSpec ds' slot f) := by
  cases slot with
  | func i => exact h
  | value i k n => exact h
  | type i k => exact h.modify (isImport_modifyType k f) i

end SameButImports

end Decl

namespace Merger

theorem HoldsImports.sameButImports_addImport {m : Merger} {specs : List ImportSpec}
    (h : m.HoldsImports specs) (spec : ImportSpec) :
    Decl.SameButImports m.decls (m.addImport spec).decls := by
  unfold Merger.addImport
  split
  · next i hi =>
    intro j
    by_cases hij : i = j
    · subst hij
      simp [h.group i hi, Decl.ofImports, Option.filter_some, Decl.isImport]
    · rw [List.getElem?_modify_ne _ _ hij]
  · intro j
    rcases Nat.lt_or_ge j m.decls.length with hj | hj
    · rw [List.getElem?_append_left hj]
    · rw [List.getElem?_eq_none hj, List.getElem?_append_right hj]
      cases j - m.decls.length with
      | zero => rfl
      | succ k => rfl

theorem TakesImport.sameButImports {m m' : Merger} {u : UnitTag} {decls decls' : List Decl}
    {b : Import.Binding} (h : TakesImport m u decls b m' decls')
    (hm : ∃ specs, m.HoldsImports specs) : Decl.SameButImports m.decls m'.decls := by
  obtain ⟨specs, hm⟩ := hm
  have haccepts : ∀ next, Accepts m next → Decl.SameButImports m.decls next.decls := by
    intro next hnext
    cases hnext with
    | same => exact .refl _
    | added imports spec =>
      have hsame : ({ m with imports } : Merger).HoldsImports specs :=
        hm.congr rfl rfl
      exact hsame.sameButImports_addImport spec
  cases h with
  | present => exact .refl _
  | added next h => exact haccepts next h
  | renamed next h n hb => exact haccepts next h

theorem sameButImports_takeImports {m : Merger} (hm : ∃ specs, m.HoldsImports specs) (u : UnitTag)
    (decls : List Decl) (bs : List Import.Binding) :
    Decl.SameButImports m.decls (m.takeImports u decls bs).1.decls := by
  suffices hrun : Decl.SameButImports m.decls (m.takeImports u decls bs).1.decls ∧
      ∃ specs, (m.takeImports u decls bs).1.HoldsImports specs from hrun.1
  refine takeImports_run (P := fun n _ => Decl.SameButImports m.decls n.decls ∧
    ∃ specs, n.HoldsImports specs) ⟨.refl _, hm⟩ ?_
  rintro b - n decls n' decls' ⟨hsame, hn⟩ hstep
  exact ⟨hsame.trans (hstep.sameButImports hn), hstep.exists_holdsImports hn⟩

end Merger

/-! ## Units that fail -/

/-- The struct that an action says is widened. -/
def Action.widened? : Action → Option String
  | fieldsMerged key _ => some key
  | _ => none

namespace Decision

/-- The structs that decisions say are widened, in their order. -/
def widened (decisions : List Decision) : List String :=
  decisions.filterMap (·.action.widened?)

theorem widened_append (ds es : List Decision) : widened (ds ++ es) = widened ds ++ widened es :=
  List.filterMap_append

theorem mem_widened {ds : List Decision} {d : Decision} {key : String} {listed : List String}
    (haction : d.action = .fieldsMerged key listed) (hd : d ∈ ds) : key ∈ widened ds := by
  refine List.mem_filterMap.2 ⟨d, hd, ?_⟩
  rw [haction]
  rfl

theorem widened_of_isImport {ds : List Decision} (h : ∀ d ∈ ds, d.action.isImport = true) :
    widened ds = [] := by
  refine List.filterMap_eq_nil_iff.2 fun d hd => ?_
  have hd := h d hd
  cases hact : d.action <;> simp_all [Action.isImport, Action.widened?]

end Decision

namespace Merger

/-- The declarations once fields are added to the registered structs of some keys in turn. -/
def widenStructs (m : Merger) (added : List (String × List Field)) : List Decl :=
  added.foldl (fun decls p => (m.slot? p.1).elim decls fun slot =>
    Decl.modifyTypeSpec decls slot (TypeSpec.addFields p.2)) m.decls

theorem widenStructs_concat {m : Merger} {key : String} {slot : Slot}
    (h : m.slot? key = some slot) (added : List (String × List Field)) (fields : List Field) :
    m.widenStructs (added ++ [(key, fields)]) =
      Decl.modifyTypeSpec (m.widenStructs added) slot (TypeSpec.addFields fields) := by
  simp [widenStructs, h]

variable {m m' : Merger} {u : UnitTag} {res res' : Resolution} {e : MergeError}

/-- Resolving widens nothing yet. -/
theorem Resolves.widened_eq {key : String} {kind : DeclKind} (h : Resolves m u key kind res res') :
    Decision.widened res'.decisions = Decision.widened res.decisions := by
  cases h with
  | keep h => rfl
  | drop meet h => simp [Decision.widened, Action.widened?, UnitTag.decide]
  | widen meet fields h => rfl
  | rename meet reason h hkind =>
    simp [Decision.widened, Action.widened?, UnitTag.decide]
  | renameMethod meet reason h hkind =>
    unfold Merger.renameMethod
    split
    · split
      · simp [Decision.widened, Action.widened?, UnitTag.decide]
      · rfl
    · rfl

theorem Resolving.widened_eq (h : Resolving m u res res') :
    Decision.widened res'.decisions = Decision.widened res.decisions :=
  h.invariant (P := fun r => Decision.widened r.decisions = Decision.widened res.decisions) rfl
    fun _ _ _ _ hr hstep => hstep.widened_eq.trans hr

/-- A struct is to be widened where its key is registered. -/
theorem Resolving.slot?_of_mem (h : Resolving m u res res')
    (hres : ∀ w ∈ res.widenings, m.slot? w.key = some w.canonical) :
    ∀ w ∈ res'.widenings, m.slot? w.key = some w.canonical := by
  refine h.invariant (P := fun r => ∀ w ∈ r.widenings, m.slot? w.key = some w.canonical) hres ?_
  intro key kind r r' hr hstep
  cases hstep with
  | keep h => exact hr
  | drop meet h => exact hr
  | widen meet fields h =>
    intro w hw
    rcases List.mem_append.1 hw with hw | hw
    · exact hr w hw
    · rw [List.mem_singleton.1 hw]
      exact meet.slot?_eq
  | rename meet reason h hkind => exact hr
  | renameMethod meet reason h hkind =>
    unfold Merger.renameMethod
    split
    · split
      · exact hr
      · exact hr
    · exact hr

theorem newDecisions_record {taken : List Decision} (h : m'.decisions = m.decisions ++ taken)
    (decisions : List Decision) : m.newDecisions (m'.record decisions) = taken ++ decisions := by
  simp [newDecisions, record, h]

/-- What a decision adds to the registered struct of its key: the fields that the unit's copy, as it
is spelled by then, has under the listed keys. The structs come in the order of the decisions. -/
def AddsFields (unit : List Decl) (added : List (String × List Field)) (before : List Decision) :
    Action → Prop
  | .fieldsMerged key listed =>
    ∃ copy source, structFields? (Decl.follow before unit) key = some copy ∧
      FieldSet.ofFields .member copy = .ok source ∧
      added[(Decision.widened before).length]? = some (key, addedFields source listed)
  | _ => True

theorem AddsFields.append {unit : List Decl} {added : List (String × List Field)}
    {before : List Decision} {a : Action} (h : AddsFields unit added before a)
    (more : List (String × List Field)) : AddsFields unit (added ++ more) before a := by
  cases a with
  | fieldsMerged key listed =>
    obtain ⟨copy, source, hcopy, hsource, hadded⟩ := h
    have hlt := (List.getElem?_eq_some_iff.1 hadded).1
    exact ⟨copy, source, hcopy, hsource, by rw [List.getElem?_append_left hlt, hadded]⟩
  | importAdded name path => trivial
  | importRenamed old new path => trivial
  | duplicateDropped key => trivial
  | renamed old new reason => trivial
  | methodRenamed recv old new reason => trivial

/-- Decisions that widen nothing add no fields. -/
theorem addsFields_of_widened_eq_nil {decisions : List Decision}
    (h : Decision.widened decisions = []) (unit : List Decl)
    (added : List (String × List Field)) : Decision.Each (AddsFields unit added) decisions := by
  intro before d after hsplit
  cases haction : d.action with
  | fieldsMerged key listed =>
    have hmem : key ∈ Decision.widened decisions :=
      Decision.mem_widened haction (hsplit ▸ by simp)
    simp [h] at hmem
  | importAdded name path => trivial
  | importRenamed old new path => trivial
  | duplicateDropped key => trivial
  | renamed old new reason => trivial
  | methodRenamed recv old new reason => trivial

/-- How far a unit has got within its widenings: it has registered nothing, and it has widened the
structs that its decisions say, by the fields that they say. -/
structure Widened (m imported : Merger) (unit : List Decl) (taken : List Decision)
    (ws : List Widening) (added : List (String × List Field)) (n : Merger) (r : Resolution) :
    Prop where
  registry_eq : n.registry = m.registry
  decisions_eq : n.decisions = m.decisions ++ taken
  follows : Follows imported unit (taken ++ r.decisions) ws r.decls
  widened_eq : Decision.widened (taken ++ r.decisions) = added.map (·.1)
  adds : Decision.Each (AddsFields unit added) (taken ++ r.decisions)
  same : Decl.SameButImports (m.widenStructs added) n.decls

theorem Widened.step {imported n n' : Merger} {unit : List Decl} {taken : List Decision}
    {ws : List Widening} {added : List (String × List Field)} {w : Widening}
    (h : Widened m imported unit taken ws added n res) (hw : w ∈ ws)
    (hslot : m.slot? w.key = some w.canonical) (hstep : Widens n u res w n' res') :
    ∃ more, Widened m imported unit taken ws (added ++ more) n' res' := by
  cases hstep with
  | skip hskip => exact ⟨[], by rwa [List.append_nil]⟩
  | merge fields source target hfields hsource htarget hstruct =>
    refine ⟨[(w.key, addedFields source w.fields)], h.registry_eq, h.decisions_eq, ?_, ?_, ?_, ?_⟩
    · rw [← List.append_assoc]
      exact h.follows.concat (d := u.decide (.fieldsMerged w.key w.fields))
        (by simp [UnitTag.decide, Action.renaming?]) (h.follows.pending w hw)
    · rw [← List.append_assoc, Decision.widened_append, h.widened_eq, List.map_append]
      rfl
    · rw [← List.append_assoc]
      have hold : Decision.Each
          (AddsFields unit (added ++ [(w.key, addedFields source w.fields)]))
          (taken ++ res.decisions) :=
        fun before d after hsplit => (h.adds before d after hsplit).append _
      refine hold.concat ⟨fields, source, h.follows.decls_eq ▸ hfields, hsource, ?_⟩
      simp [h.widened_eq]
    · rw [widenStructs_concat hslot]
      exact h.same.modifyTypeSpec _ _

theorem Outcome.failed {file : SourceFile} (hagrees : m.Agrees) (htag : u.tag ≠ "")
    (hm : ∃ specs, m.HoldsImports specs) (h : Outcome m u file (m', some e)) :
    m'.registry = m.registry ∧ ∃ added : List (String × List Field),
      Decision.widened (m.newDecisions m') = added.map (·.1) ∧
      Decision.Each (AddsFields (Decl.withoutImports file.decls) added) (m.newDecisions m') ∧
      Decl.SameButImports (m.widenStructs added) m'.decls ∧
      (added ≠ [] → ∃ name, e.fault = .duplicateMember name) := by
  generalize hout : (m', some e) = out at h
  cases h with
  | unreadable fault h =>
    cases hout
    have hwidened : Decision.widened (m.newDecisions m) = [] := by
      simp [newDecisions, Decision.widened]
    exact ⟨rfl, [], hwidened, addsFields_of_widened_eq_nil hwidened _ _, .refl _, by simp⟩
  | unresolved bindings res e hbindings hres =>
    cases hout
    obtain ⟨taken, hdecisions, -, himport, -⟩ := exists_takeImports_eq m u file.decls bindings
    have hwidened : Decision.widened (taken ++ res.decisions) = [] := by
      rw [Decision.widened_append, Decision.widened_of_isImport himport, hres.widened_eq]
      rfl
    rw [newDecisions_record hdecisions]
    exact ⟨(sameSlots_takeImports m u file.decls bindings).registry, [], hwidened,
      addsFields_of_widened_eq_nil hwidened _ _,
      sameButImports_takeImports hm u file.decls bindings, by simp⟩
  | unwidened p widened left e h hfault =>
    cases hout
    obtain ⟨taken, hdecisions, himport, hfollows⟩ := p.exists_follows hagrees htag
    have hregistry := p.sameSlots_imported.registry
    have hsame := sameButImports_takeImports hm u file.decls p.bindings
    rw [p.imported_eq] at hsame
    have hwidened : Decision.widened (taken ++ p.methods.decisions) = [] := by
      rw [Decision.widened_append, Decision.widened_of_isImport himport, p.resolving.widened_eq]
      rfl
    have hslots := p.resolving.slot?_of_mem (by simp)
    obtain ⟨added, hrun⟩ := h.invariant
      (P := fun n r => ∃ added, Widened m p.imported (Decl.withoutImports file.decls) taken
        p.methods.widenings added n r)
      ⟨[], hregistry, hdecisions, hfollows, hwidened,
        addsFields_of_widened_eq_nil hwidened _ _, hsame⟩
      fun w hw n r n' r' hsofar hstep => by
        obtain ⟨added, hsofar⟩ := hsofar
        have hslot : m.slot? w.key = some w.canonical := by
          rw [← hslots w hw, slot?, slot?, hregistry]
        obtain ⟨more, hmore⟩ := hsofar.step hw hslot hstep
        exact ⟨added ++ more, hmore⟩
    rw [newDecisions_record hrun.decisions_eq]
    exact ⟨hrun.registry_eq, added, hrun.widened_eq, hrun.adds, hrun.same, fun _ => hfault⟩
  | merged p widened left h => cases hout

theorem Accepts.units_eq {next : Merger} (h : Accepts m next) : next.units = m.units := by
  cases h with
  | same => rfl
  | added imports spec =>
    unfold addImport
    split <;> rfl

theorem TakesImport.units_decisions {decls decls' : List Decl} {b : Import.Binding}
    (h : TakesImport m u decls b m' decls') :
    m'.units = m.units ∧ m.decisions <+: m'.decisions := by
  have hrecord : ∀ next decisions, Accepts m next →
      (next.record decisions).units = m.units ∧
        m.decisions <+: (next.record decisions).decisions := by
    intro next decisions hnext
    refine ⟨hnext.units_eq, ?_⟩
    rw [record, ← hnext.decisions_eq]
    exact List.prefix_append _ _
  cases h with
  | present => exact ⟨rfl, List.prefix_rfl⟩
  | added next h => exact hrecord next _ h
  | renamed next h n hb => exact hrecord next _ h

/-- A unit is counted, and its decisions come after those made before, whether it fails or not. -/
theorem units_decisions_merge (m : Merger) (file : SourceFile) (tag : String) :
    (m.merge file tag).1.units = m.units + 1 ∧
      m.decisions <+: (m.merge file tag).1.decisions := by
  refine merge_invariant
    (P := fun n => n.units = m.units + 1 ∧ m.decisions <+: n.decisions) ⟨rfl, List.prefix_rfl⟩
    ?_ ?_ ?_ ?_
  · rintro - bindings - b - n decls ⟨hunits, hdecisions⟩
    obtain ⟨hunits', hdecisions'⟩ := (takeImport_cases n ⟨m.units, tag⟩ decls b).units_decisions
    exact ⟨hunits'.trans hunits, hdecisions.trans hdecisions'⟩
  · intro n res w n' res' hstep hn
    cases hstep <;> exact hn
  · rintro n decisions ⟨hunits, hdecisions⟩
    exact ⟨hunits, hdecisions.trans (List.prefix_append _ _)⟩
  · intro n decls _ hn
    exact hn

/-- A unit that fails registers nothing. Besides imports it leaves the declarations as they were,
except for the structs that it says it has widened. Each of these has got the fields that the unit's
copy, as it was spelled at that decision, has under the listed keys. A unit widens only if it fails
at another struct, for a member that is there twice. -/
theorem Reachable.failed_unit (hm : m.Reachable) {file : SourceFile} {tag : String}
    (h : m.merge file tag = (m', some e)) :
    m'.registry = m.registry ∧ m'.units = m.units + 1 ∧ m.decisions <+: m'.decisions ∧
      ∃ added : List (String × List Field),
        Decision.widened (m.newDecisions m') = added.map (·.1) ∧
        (∀ before d after key listed, m.newDecisions m' = before ++ d :: after →
          d.action = .fieldsMerged key listed →
          ∃ copy source,
            structFields? (Decl.follow before (Decl.withoutImports file.decls)) key = some copy ∧
            FieldSet.ofFields .member copy = .ok source ∧
            added[(Decision.widened before).length]? = some (key, addedFields source listed)) ∧
        Decl.withoutImports m'.decls = Decl.withoutImports (m.widenStructs added) ∧
        (added ≠ [] → ∃ name, e.fault = .duplicateMember name) := by
  obtain ⟨hunits, hgrows⟩ := units_decisions_merge m file tag
  rw [h] at hunits hgrows
  obtain ⟨specs, hspecs⟩ := hm.exists_holdsImports
  have hspecs : ({ m with units := m.units + 1 } : Merger).HoldsImports specs :=
    hspecs.congr rfl rfl
  unfold Merger.merge at h
  dsimp only at h
  split at h
  · cases h
    exact ⟨rfl, rfl, hgrows, [], by simp [newDecisions, Decision.widened],
      by simp [newDecisions], rfl, by simp⟩
  · next htag =>
    have hout := outcome_mergeTagged { m with units := m.units + 1 } ⟨m.units, tag⟩ file
    obtain ⟨rfl, herror⟩ := Prod.ext_iff.1 h
    obtain ⟨e₀, he₀, rfl⟩ := Option.map_eq_some_iff.1 herror
    rw [← Prod.eta (mergeTagged _ _ _), he₀] at hout
    have hagrees : Merger.Agrees { m with units := m.units + 1 } := hm.agrees
    have htag : tag ≠ "" := by simpa using htag
    obtain ⟨hregistry, added, hadded, hadds, hsame, hfault⟩ :=
      hout.failed hagrees htag ⟨specs, hspecs⟩
    refine ⟨hregistry, hunits, hgrows, added, hadded, ?_, hsame.withoutImports_eq.symm, hfault⟩
    intro before d after key listed hsplit haction
    have hd := hadds before d after hsplit
    rwa [haction] at hd

theorem failed_unit_second_struct :
    let m := ((start "out").merge
      ⟨"a", [.ofType "W" (.structType [⟨["X"], .ident "int", none⟩] false),
        .ofType "S" (.structType [] false), .ofType "T" (.ident "int")]⟩ "A").1
    let file : SourceFile :=
      ⟨"b", [.ofImport "f" "x/f",
        .ofType "W" (.structType [⟨["X"], .ident "int", none⟩, ⟨["Y"], .ident "T", none⟩] false),
        .ofType "S" (.structType [⟨[], .ident "T", none⟩, ⟨["TB"], .ident "int", none⟩] false),
        .ofType "T" (.ident "string")]⟩
    (m.merge file "B").2 = some ⟨.duplicateMember "TB", some "S", some (1, "B")⟩ ∧
      (m.merge file "B").1.registry = m.registry ∧
      Decl.withoutImports (m.merge file "B").1.decls =
        Decl.withoutImports (m.widenStructs [("W", [⟨["Y"], .ident "TB", none⟩])]) := by
  intro m file
  have hm : m.Reachable := .merge _ _ (.start "out")
  have herror : (m.merge file "B").2 = some ⟨.duplicateMember "TB", some "S", some (1, "B")⟩ := by
    decide +kernel
  have hmerge : m.merge file "B" = ((m.merge file "B").1,
      some ⟨.duplicateMember "TB", some "S", some (1, "B")⟩) := Prod.ext rfl herror
  have hnew : m.newDecisions (m.merge file "B").1 =
      [⟨1, "B", .importAdded "f" "x/f"⟩,
        ⟨1, "B", .renamed "T" "TB" "identifier `int` vs `string`"⟩] ++
      ⟨1, "B", .fieldsMerged "W" ["Y"]⟩ :: [] := by decide +kernel
  obtain ⟨hregistry, -, -, added, hadded, hadds, hdecls, -⟩ := hm.failed_unit hmerge
  obtain ⟨copy, source, hcopy, hsource, hfields⟩ := hadds _ _ _ _ _ hnew rfl
  obtain rfl := Option.some.inj hcopy
  rw [hnew] at hadded
  obtain ⟨p, rfl, -⟩ := List.map_eq_singleton_iff.1 hadded.symm
  obtain rfl : p = ("W", addedFields source ["Y"]) := Option.some.inj hfields
  obtain rfl : source = .ofEntries _ := FieldSet.ext (FieldSet.entries_of_ofFields hsource)
  exact ⟨herror, hregistry, hdecls.trans (by with_unfolding_all rfl)⟩

/-- The struct `W` is widened before the struct `S` is found to have the member `TB` twice, once the
type `T` that it embeds is renamed. -/
theorem exists_failed_unit_widened :
    ∃ (m : Merger) (file : SourceFile) (tag : String), m.Reachable ∧
      (m.merge file tag).2.isSome = true ∧
      Decl.withoutImports (m.merge file tag).1.decls ≠ Decl.withoutImports m.decls := by
  refine ⟨((start "out").merge
      ⟨"a", [.ofType "W" (.structType [⟨["X"], .ident "int", none⟩] false),
        .ofType "S" (.structType [] false), .ofType "T" (.ident "int")]⟩ "A").1,
    ⟨"b",
      [.ofType "W" (.structType [⟨["X"], .ident "int", none⟩, ⟨["Y"], .ident "T", none⟩] false),
        .ofType "S" (.structType [⟨[], .ident "T", none⟩, ⟨["TB"], .ident "int", none⟩] false),
        .ofType "T" (.ident "string")]⟩, "B", .merge _ _ (.start "out"), by decide +kernel, ?_⟩
  intro h
  have hlength := congrArg (fun decls => (structFields? decls "W").map List.length) h
  revert hlength
  decide +kernel

end Merger

end GoWeave
