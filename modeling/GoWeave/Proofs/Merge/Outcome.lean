import GoWeave.Proofs.FieldSet
import GoWeave.Proofs.Merge.Steps
import Mathlib.Logic.Relation

/-!
# Outcomes of a unit

How far a unit gets, whether it succeeds or not: its imports are taken, some of its keyed
declarations are resolved, and some of the widenings are made. A unit that fails stays there, and
what is left of a unit that succeeds is appended. A property of the merger that imports, widenings,
records and appended declarations keep therefore holds after every unit.
-/
namespace GoWeave

theorem Decl.isImport_remove {decls : List Decl} (h : ∀ d ∈ decls, d.isImport = false)
    (key : String) : ∀ d ∈ Decl.remove key decls, d.isImport = false := by
  intro d hd
  obtain ⟨d₀, hd₀, hwithout⟩ := List.mem_filterMap.1 hd
  exact (Decl.isImport_without hwithout).trans (h d₀ hd₀)

namespace Merger

/-! ## Runs within a unit -/

/-- Some keyed declarations of a unit in turn. -/
abbrev Resolving (m : Merger) (u : UnitTag) : Resolution → Resolution → Prop :=
  Relation.ReflTransGen fun res res' => ∃ key kind, Resolves m u key kind res res'

/-- Some of the pending widenings in turn. -/
abbrev Widenings (u : UnitTag) (ws : List Widening) :
    Merger × Resolution → Merger × Resolution → Prop :=
  Relation.ReflTransGen fun s s' => ∃ w ∈ ws, Widens s.1 u s.2 w s'.1 s'.2

variable {m m' : Merger} {u : UnitTag} {res res' : Resolution} {e : MergeError}

theorem resolving_of_ok {entries : List (String × DeclKind)}
    (h : m.resolveAll u entries res = .ok res') : Resolving m u res res' :=
  resolveAll_run (P := fun _ r => Resolving m u res r)
    (fun key kind _ _ _ h hstep => h.tail ⟨key, kind, hstep⟩) .refl h

theorem resolving_of_error {entries : List (String × DeclKind)}
    (h : m.resolveAll u entries res = .error (e, res')) : Resolving m u res res' := by
  induction entries generalizing res with
  | nil => simp [resolveAll] at h
  | cons entry entries ih =>
    obtain ⟨key, kind⟩ := entry
    rw [resolveAll] at h
    split at h
    · cases h
      exact .refl
    · next hstep => exact .head ⟨key, kind, resolve_cases hstep⟩ (ih h)

/-- What every step of a pass keeps, some steps keep. -/
theorem Resolving.invariant {P : Resolution → Prop} (h : Resolving m u res res') (hres : P res)
    (step : ∀ key kind r r', P r → Resolves m u key kind r r' → P r') : P res' := by
  induction h with
  | refl => exact hres
  | tail _ hstep ih =>
    obtain ⟨key, kind, hstep⟩ := hstep
    exact step key kind _ _ ih hstep

theorem Widenings.mono {ws ws' : List Widening} {s s' : Merger × Resolution}
    (h : Widenings u ws s s') (hws : ws ⊆ ws') : Widenings u ws' s s' := by
  refine Relation.ReflTransGen.mono ?_ s s' h
  rintro s s' ⟨w, hw, hstep⟩
  exact ⟨w, hws hw, hstep⟩

theorem widenings_of_ok {ws : List Widening} (h : widenAll u ws m res = .ok (m', res')) :
    Widenings u ws (m, res) (m', res') := by
  induction ws generalizing m res with
  | nil =>
    cases h
    exact .refl
  | cons w ws ih =>
    rw [widenAll] at h
    split at h
    · cases h
    · next hstep =>
      have hrest := (ih h).mono (List.subset_cons_self w ws)
      exact .head ⟨w, List.mem_cons_self, widen_cases hstep⟩ hrest

theorem Widenings.invariant {P : Merger → Resolution → Prop} {ws : List Widening}
    (h : Widenings u ws (m, res) (m', res')) (hm : P m res)
    (step : ∀ w ∈ ws, ∀ m res m' res', P m res → Widens m u res w m' res' → P m' res') :
    P m' res' := by
  suffices hrun : ∀ {s s'}, Widenings u ws s s' → P s.1 s.2 → P s'.1 s'.2 from hrun h hm
  intro s s' h hs
  induction h with
  | refl => exact hs
  | tail _ hstep ih =>
    obtain ⟨w, hw, hstep⟩ := hstep
    exact step w hw _ _ _ _ ih hstep

/-- A widening fails only for a member that is there twice. -/
theorem exists_fault_of_widen {w : Widening} {fault : Fault} (h : m.widen u res w = .error fault) :
    ∃ name, fault = .duplicateMember name := by
  unfold widen at h
  split at h
  · simp at h
  · split at h
    · next hsource =>
      cases h
      exact FieldSet.exists_fault_of_ofFields hsource
    · split at h
      · split at h <;> simp at h
      · simp at h

theorem widenings_of_error {ws : List Widening} (h : widenAll u ws m res = .error (e, m', res')) :
    Widenings u ws (m, res) (m', res') ∧ ∃ name, e.fault = .duplicateMember name := by
  induction ws generalizing m res with
  | nil => simp [widenAll] at h
  | cons w ws ih =>
    rw [widenAll] at h
    split at h
    · next hfault =>
      cases h
      obtain ⟨name, rfl⟩ := exists_fault_of_widen hfault
      exact ⟨.refl, name, rfl⟩
    · next hstep =>
      obtain ⟨hrest, hname⟩ := ih h
      have hrest := hrest.mono (List.subset_cons_self w ws)
      exact ⟨.head ⟨w, List.mem_cons_self, widen_cases hstep⟩ hrest, hname⟩

/-! ## How a unit ends -/

/-- A unit gets to a merger and a state of its own declarations by some of its widenings. -/
def UnitPasses.Reaches {file : SourceFile} (p : UnitPasses m u file) (widened : Merger)
    (left : Resolution) : Prop :=
  Widenings u p.methods.widenings (p.imported, p.methods) (widened, left)

theorem UnitPasses.resolving {file : SourceFile} (p : UnitPasses m u file) :
    Resolving p.imported u ⟨Decl.withoutImports p.decls, [], []⟩ p.methods :=
  (resolving_of_ok p.plain_eq).trans (resolving_of_ok p.methods_eq)

/-- How a unit ends: its imports cannot be read, a declaration cannot be compared, a struct cannot
be folded in, or it is merged. -/
inductive Outcome (m : Merger) (u : UnitTag) (file : SourceFile) :
    Merger × Option MergeError → Prop
  | unreadable (fault : Fault) (h : Import.Binding.collect file = .error fault) :
    Outcome m u file (m, some (.ofFault fault))
  | unresolved (bindings : List Import.Binding) (res : Resolution) (e : MergeError)
      (hbindings : Import.Binding.collect file = .ok bindings)
      (hres : Resolving (m.takeImports u file.decls bindings).1 u
        ⟨Decl.withoutImports (m.takeImports u file.decls bindings).2, [], []⟩ res) :
    Outcome m u file ((m.takeImports u file.decls bindings).1.record res.decisions, some e)
  | unwidened (p : UnitPasses m u file) (widened : Merger) (left : Resolution) (e : MergeError)
      (h : p.Reaches widened left) (hfault : ∃ name, e.fault = .duplicateMember name) :
    Outcome m u file (widened.record left.decisions, some e)
  | merged (p : UnitPasses m u file) (widened : Merger) (left : Resolution)
      (h : p.Reaches widened left) :
    Outcome m u file ((widened.record left.decisions).append left.decls, none)

theorem outcome_mergeTagged (m : Merger) (u : UnitTag) (file : SourceFile) :
    Outcome m u file (m.mergeTagged u file) := by
  unfold mergeTagged
  split
  · next fault h => exact .unreadable fault h
  · next bindings hbindings =>
    dsimp only
    split
    · next hplain => exact .unresolved bindings _ _ hbindings (resolving_of_error hplain)
    · next plain hplain =>
      split
      · next hmethods =>
        exact .unresolved bindings _ _ hbindings
          ((resolving_of_ok hplain).trans (resolving_of_error hmethods))
      · next methods hmethods =>
        let p : UnitPasses m u file :=
          ⟨bindings, _, _, plain, methods, hbindings, rfl, hplain, hmethods⟩
        split
        · next hwidened =>
          obtain ⟨hwidened, hfault⟩ := widenings_of_error hwidened
          exact .unwidened p _ _ _ hwidened hfault
        · next hwidened => exact .merged p _ _ (widenings_of_ok hwidened)

/-! ## What is left of a unit holds no imports -/

theorem Resolves.isImport_eq_false {key : String} {kind : DeclKind}
    (h : Resolves m u key kind res res') (hres : ∀ d ∈ res.decls, d.isImport = false) :
    ∀ d ∈ res'.decls, d.isImport = false := by
  cases h with
  | keep h => exact hres
  | drop meet h => exact Decl.isImport_remove hres key
  | widen meet fields h => exact hres
  | rename meet reason h hkind =>
    intro d hd
    obtain ⟨d₀, hd₀, rfl⟩ := List.mem_map.1 hd
    exact (Decl.isImport_rename _ d₀).trans (hres d₀ hd₀)
  | renameMethod meet reason h hkind =>
    unfold Merger.renameMethod
    split
    · split
      · intro d hd
        rcases List.mem_or_eq_of_mem_set hd with hd | rfl
        · exact hres d hd
        · rfl
      · exact hres
    · exact hres

theorem UnitPasses.Reaches.isImport_eq_false {file : SourceFile} {p : UnitPasses m u file}
    {widened : Merger} {left : Resolution} (h : p.Reaches widened left) :
    ∀ d ∈ left.decls, d.isImport = false := by
  have hresolved : ∀ d ∈ p.methods.decls, d.isImport = false := by
    refine p.resolving.invariant (P := fun r => ∀ d ∈ r.decls, d.isImport = false)
      (fun d hd => ?_) fun _ _ _ _ h hstep => hstep.isImport_eq_false h
    simpa using (List.mem_filter.1 hd).2
  refine h.invariant (P := fun _ r => ∀ d ∈ r.decls, d.isImport = false) hresolved ?_
  intro w _ m res m' res' h hstep
  cases hstep with
  | skip hskip => exact h
  | merge => exact Decl.isImport_remove h w.key

/-! ## What every unit keeps -/

theorem takeImports_invariant {P : Merger → Prop} {bs : List Import.Binding} {decls : List Decl}
    (h : P m) (step : ∀ b ∈ bs, ∀ m decls, P m → P (m.takeImport u decls b).1) :
    P (m.takeImports u decls bs).1 := by
  induction bs generalizing m decls with
  | nil => exact h
  | cons b bs ih =>
    rw [takeImports]
    exact ih (step b List.mem_cons_self m decls h) fun c hc => step c (List.mem_cons_of_mem b hc)

theorem Outcome.invariant {P : Merger → Prop} {file : SourceFile}
    {out : Merger × Option MergeError} (h : Outcome m u file out) (hm : P m)
    (himport : ∀ bindings, Import.Binding.collect file = .ok bindings → ∀ b ∈ bindings,
      ∀ m decls, P m → P (m.takeImport u decls b).1)
    (hwiden : ∀ m res w m' res', Widens m u res w m' res' → P m → P m')
    (hrecord : ∀ m decisions, P m → P (m.record decisions))
    (happend : ∀ m decls, (∀ d ∈ decls, d.isImport = false) → P m → P (m.append decls)) :
    P out.1 := by
  have hreaches : ∀ (p : UnitPasses m u file) {widened left}, p.Reaches widened left →
      P widened := by
    intro p widened left hwidened
    have htaken : P (m.takeImports u file.decls p.bindings).1 :=
      takeImports_invariant hm (himport _ p.bindings_eq)
    rw [p.imported_eq] at htaken
    exact hwidened.invariant (P := fun m _ => P m) htaken
      fun w _ m res m' res' h hstep => hwiden m res w m' res' hstep h
  cases h with
  | unreadable fault h => exact hm
  | unresolved bindings res e hbindings hres =>
    exact hrecord _ _ (takeImports_invariant hm (himport bindings hbindings))
  | unwidened p widened left e h hfault => exact hrecord _ _ (hreaches p h)
  | merged p widened left h =>
    exact happend _ _ h.isImport_eq_false (hrecord _ _ (hreaches p h))

/-- What the steps of a unit keep, whatever its outcome, a unit keeps. -/
theorem merge_invariant {P : Merger → Prop} {file : SourceFile} {tag : String}
    (hm : P { m with units := m.units + 1 })
    (himport : tag ≠ "" → ∀ bindings, Import.Binding.collect file = .ok bindings →
      ∀ b ∈ bindings, ∀ n decls, P n → P (n.takeImport ⟨m.units, tag⟩ decls b).1)
    (hwiden : ∀ n res w n' res', Widens n ⟨m.units, tag⟩ res w n' res' → P n → P n')
    (hrecord : ∀ n decisions, P n → P (n.record decisions))
    (happend : ∀ n decls, (∀ d ∈ decls, d.isImport = false) → P n → P (n.append decls)) :
    P (m.merge file tag).1 := by
  unfold merge
  dsimp only
  split
  · exact hm
  · next htag =>
    exact (outcome_mergeTagged _ _ file).invariant hm (himport (by simpa using htag)) hwiden hrecord
      happend

end Merger

end GoWeave
