import GoWeave.Proofs.Equivalence.Copies
import GoWeave.Proofs.Merge.Registry

/-!
# Dropped copies

A declaration is dropped when it is equal to the registered one, and a struct is folded into the
registered one when it only adds members. Both are judged by the names that the unit has at that
moment. The renamings that follow are those of later conflicts, and a copy that is judged first may
refer to a name that is given up later: then it was dropped for a declaration that it no longer
equals. This is the only way. A copy stays equal exactly if no later renaming touches a name that it
refers to.
-/
namespace GoWeave

/-! ## The unit between two decisions -/

namespace Decl

/-- The declarations with a new name for the function that is the first of its key. -/
def renameFunc (key new : String) (decls : List Decl) : List Decl :=
  match locate? decls key with
  | some (.func i) =>
    match decls[i]? with
    | some (.func f) => decls.set i (.func { f with name := new })
    | _ => decls
  | _ => decls

end Decl

/-- The declarations of a unit once an action is carried out. -/
def Action.carryOut (decls : List Decl) : Action → List Decl
  | importAdded _ _ => decls
  | importRenamed old new _ => Decl.renameAll ⟨old, new⟩ decls
  | duplicateDropped key => Decl.remove key decls
  | fieldsMerged key _ => Decl.remove key decls
  | renamed old new _ => Decl.renameAll ⟨old, new⟩ decls
  | methodRenamed recv old new _ => Decl.renameFunc (recv ++ "." ++ old) new decls

/-- The declarations of a unit once some decisions are carried out in turn. -/
def Decl.follow (decisions : List Decision) (decls : List Decl) : List Decl :=
  decisions.foldl (fun decls d => d.action.carryOut decls) decls

theorem Decl.follow_concat (decisions : List Decision) (d : Decision) (decls : List Decl) :
    follow (decisions ++ [d]) decls = d.action.carryOut (follow decisions decls) := by
  simp [follow]

/-- Decisions about imports only rename. -/
theorem Decl.follow_of_isImport {decisions : List Decision}
    (h : ∀ d ∈ decisions, d.action.isImport = true) (decls : List Decl) :
    follow decisions decls = renameSeq (Decision.renamings decisions) decls := by
  induction decisions generalizing decls with
  | nil => rfl
  | cons d ds ih =>
    obtain ⟨hd, hds⟩ := List.forall_mem_cons.1 h
    have hstep : d.action.carryOut decls = renameSeq d.action.renaming?.toList decls := by
      cases haction : d.action <;> simp_all [Action.isImport, Action.carryOut, Action.renaming?,
        renameSeq]
    calc follow (d :: ds) decls
        = follow ds (d.action.carryOut decls) := rfl
      _ = renameSeq (Decision.renamings ds) (renameSeq d.action.renaming?.toList decls) := by
          rw [ih hds, hstep]
      _ = renameSeq (Decision.renamings ([d] ++ ds)) decls := by
          rw [Decision.renamings_append, Decision.renamings_singleton, renameSeq_append]

/-- What a decision and those before it have to satisfy, for each of several decisions. -/
def Decision.Each (P : List Decision → Action → Prop) (decisions : List Decision) : Prop :=
  ∀ before d after, decisions = before ++ d :: after → P before d.action

/-- A decision within a list with one more is the last, or it is one of the others. -/
theorem Decision.eq_or_exists_of_concat {decisions before after : List Decision} {d last : Decision}
    (h : decisions ++ [last] = before ++ d :: after) :
    (decisions = before ∧ last = d ∧ after = []) ∨
      ∃ rest, after = rest ++ [last] ∧ decisions = before ++ d :: rest := by
  rcases List.eq_nil_or_concat after with rfl | ⟨rest, last', rfl⟩
  · obtain ⟨rfl, hlast⟩ := List.append_inj' h rfl
    exact .inl ⟨rfl, List.singleton_inj.1 hlast, rfl⟩
  · rw [List.concat_eq_append, ← List.cons_append, ← List.append_assoc] at h
    obtain ⟨hrest, hlast⟩ := List.append_inj' h rfl
    rw [List.concat_eq_append, List.singleton_inj.1 hlast]
    exact .inr ⟨rest, rfl, hrest⟩

theorem Decision.Each.concat {P : List Decision → Action → Prop} {decisions : List Decision}
    {d : Decision} (h : Each P decisions) (hd : P decisions d.action) :
    Each P (decisions ++ [d]) := by
  intro before e after heq
  rcases eq_or_exists_of_concat heq with ⟨rfl, rfl, -⟩ | ⟨rest, -, hrest⟩
  · exact hd
  · exact h before e rest hrest

namespace Merger

/-- The declaration registered under a key. -/
def declared? (m : Merger) (key : String) : Option Declared :=
  (m.slot? key).bind (Decl.snapshot? m.decls)

variable {m : Merger} {decls : List Decl} {key : String}

theorem Meeting.declared?_eq (meet : Meeting m decls key) :
    m.declared? key = some meet.canonical ∧ Decl.declared? decls key = some meet.incoming := by
  rw [declared?, meet.slot?_eq, Decl.declared?, meet.locate?_eq]
  exact ⟨meet.canonical_eq, meet.incoming_eq⟩

/-! ## Imports change no declaration -/

/-- What stands at an index before and after an import is added. -/
inductive AddsImport (spec : ImportSpec) : Option Decl → Option Decl → Prop
  | same (d : Option Decl) : AddsImport spec d d
  | extended (g : DeclGroup) :
    AddsImport spec (some (.group g))
      (some (.group { g with specs := g.specs ++ [.imported spec] }))
  | opened : AddsImport spec none (some (.group ⟨.import_, [.imported spec], false⟩))

theorem addsImport_addImport (m : Merger) (spec : ImportSpec) (i : Nat) :
    AddsImport spec m.decls[i]? (m.addImport spec).decls[i]? := by
  unfold addImport
  split
  · next j hj =>
    simp only [List.getElem?_modify]
    split
    · next hij =>
      cases m.decls[i]? with
      | none => exact .same none
      | some d =>
        cases d with
        | bad node => exact .same _
        | func f => exact .same _
        | group g => exact .extended g
    · simpa using .same _
  · rcases Nat.lt_trichotomy i m.decls.length with hlt | rfl | hlt
    · simpa [List.getElem?_append_left hlt] using .same _
    · simpa using .opened
    · have hnone : m.decls[i]? = none := List.getElem?_eq_none (by omega)
      have hnone' : (m.decls ++ [.group ⟨.import_, [.imported spec], false⟩])[i]? = none :=
        List.getElem?_eq_none (by simp; omega)
      simpa [hnone, hnone'] using .same none

/-- In a group with one more import every other spec stands where it was. -/
theorem specs_getElem?_append_import (specs : List Spec) (spec : ImportSpec) (j : Nat) :
    (specs ++ [.imported spec])[j]? = specs[j]? ∧ j ≤ specs.length ∨
      specs[j]? = none ∧ ∀ s, (specs ++ [.imported spec])[j]? = some s → s = .imported spec := by
  by_cases hj : j < specs.length
  · exact .inl ⟨List.getElem?_append_left hj, Nat.le_of_lt hj⟩
  · refine .inr ⟨List.getElem?_eq_none (by omega), fun s hs => ?_⟩
    rw [List.getElem?_append_right (by omega), List.getElem?_singleton] at hs
    split at hs
    · exact (Option.some.inj hs).symm
    · simp at hs

theorem snapshot?_of_addsImport {spec : ImportSpec} {decls decls' : List Decl}
    (h : ∀ i : Nat, AddsImport spec decls[i]? decls'[i]?) (slot : Slot) :
    Decl.snapshot? decls' slot = Decl.snapshot? decls slot := by
  cases slot with
  | func i =>
    have hi := h i
    simp only [Decl.snapshot?]
    generalize decls[i]? = d, decls'[i]? = d' at hi
    cases hi <;> rfl
  | type i j =>
    have hi := h i
    simp only [Decl.snapshot?, Decl.typeSpecAt?]
    generalize decls[i]? = d, decls'[i]? = d' at hi
    cases hi with
    | same d => rfl
    | opened => cases j <;> rfl
    | extended g =>
      rcases specs_getElem?_append_import g.specs spec j with ⟨heq, -⟩ | ⟨hnone, himport⟩
      · simp only [heq]
      · simp only [hnone]
        cases hj : (g.specs ++ [.imported spec])[j]? with
        | none => rfl
        | some s => rw [himport s hj]
  | value i j k =>
    have hi := h i
    simp only [Decl.snapshot?]
    generalize decls[i]? = d, decls'[i]? = d' at hi
    cases hi with
    | same d => rfl
    | opened => cases j <;> rfl
    | extended g =>
      rcases specs_getElem?_append_import g.specs spec j with ⟨heq, hle⟩ | ⟨hnone, himport⟩
      · have hrepeated : DeclGroup.repeated { g with specs := g.specs ++ [.imported spec] } j =
            g.repeated j := by
          simp only [DeclGroup.repeated, List.take_append_of_le_length hle]
        have hvalue : DeclGroup.declaredValue { g with specs := g.specs ++ [.imported spec] } j =
            g.declaredValue j := by
          unfold DeclGroup.declaredValue
          rw [hrepeated]
        simp only [heq, hvalue]
      · simp only [hnone]
        cases hj : (g.specs ++ [.imported spec])[j]? with
        | none => rfl
        | some s => rw [himport s hj]

theorem Accepts.declared?_eq {next : Merger} (h : Accepts m next) (key : String) :
    next.declared? key = m.declared? key := by
  have hslot : next.slot? key = m.slot? key := congrArg (·.lookup key) h.sameSlots.registry
  rw [declared?, declared?, hslot]
  cases h with
  | same => rfl
  | added imports spec =>
    exact Option.bind_congr fun slot _ => snapshot?_of_addsImport (addsImport_addImport _ spec) slot

theorem TakesImport.declared?_eq {m' : Merger} {u : UnitTag} {decls decls' : List Decl}
    {b : Import.Binding} (h : TakesImport m u decls b m' decls') (key : String) :
    m'.declared? key = m.declared? key := by
  cases h with
  | present => rfl
  | added next h => exact h.declared?_eq key
  | renamed next h n hb => exact h.declared?_eq key

theorem UnitPasses.declared?_imported {u : UnitTag} {file : SourceFile} (p : UnitPasses m u file)
    (key : String) : p.imported.declared? key = m.declared? key := by
  have h : (m.takeImports u file.decls p.bindings).1.declared? key = m.declared? key :=
    takeImports_run (P := fun m' _ => m'.declared? key = m.declared? key) rfl
      fun _ _ _ _ _ _ h hstep => (hstep.declared?_eq key).trans h
  rwa [p.imported_eq] at h

/-! ## Why a copy goes -/

/-- The declaration of a key in a unit is equal to the registered one. -/
def Copies (m : Merger) (decls : List Decl) (key : String) : Prop :=
  ∃ canonical incoming, m.declared? key = some canonical ∧
    Decl.declared? decls key = some incoming ∧
    canonical.head.isMethod = incoming.head.isMethod ∧ compare canonical incoming = none

/-- The struct of a key in a unit only adds members to the registered struct. -/
def Extends (m : Merger) (decls : List Decl) (key : String) (added : List String) : Prop :=
  ∃ canonical incoming, m.declared? key = some (.type canonical) ∧
    Decl.declared? decls key = some (.type incoming) ∧
    canonical.ty.isStructType = true ∧ incoming.ty.isStructType = true ∧
    ∃ missing, canonical.compare incoming = some (.additional missing added)

theorem Meeting.copies (hm : m.Agrees) (meet : Meeting m decls key)
    (h : judge meet.canonical meet.incoming = .ok .drop) : Copies m decls key := by
  obtain ⟨hcanonical, hincoming⟩ := meet.declared?_eq
  have hequal := judge_drop h
  exact ⟨_, _, hcanonical, hincoming, isMethod_eq_of_compare hequal
    (Head.mem_of_first? (meet.first?_canonical hm)).2
    (Head.mem_of_first? (meet.first?_incoming hm)).2, hequal⟩

theorem Meeting.extends_of_widen (meet : Meeting m decls key) {added : List String}
    (h : judge meet.canonical meet.incoming = .ok (.widen added)) : Extends m decls key added := by
  obtain ⟨hcanonical, hincoming⟩ := meet.declared?_eq
  obtain ⟨hstruct, hstruct', missing, hcompare⟩ := judge_widen h
  obtain ⟨canonical, heq, hty⟩ := exists_type_of_isStruct hstruct
  obtain ⟨incoming, heq', hty'⟩ := exists_type_of_isStruct hstruct'
  rw [heq] at hcanonical hcompare
  rw [heq'] at hincoming hcompare
  exact ⟨canonical, incoming, hcanonical, hincoming, hty, hty', missing, hcompare⟩

/-- Why a unit takes an action after some decisions, as far as it takes a declaration out. A struct
is folded in for what it was at an earlier moment. -/
def Justifies (m : Merger) (unit : List Decl) (before : List Decision) : Action → Prop
  | .duplicateDropped key => Copies m (Decl.follow before unit) key
  | .fieldsMerged key added => ∃ earlier since, before = earlier ++ since ∧
      Extends m (Decl.follow earlier unit) key added
  | _ => True

/-- The state of a unit after some decisions, with the widenings that are still to be made. -/
structure Follows (m : Merger) (unit : List Decl) (decisions : List Decision)
    (widenings : List Widening) (decls : List Decl) : Prop where
  decls_eq : decls = Decl.follow decisions unit
  lengthen : Renaming.Lengthen (Decision.renamings decisions)
  justified : Decision.Each (Justifies m unit) decisions
  pending : ∀ w ∈ widenings, ∃ earlier since, decisions = earlier ++ since ∧
    Extends m (Decl.follow earlier unit) w.key w.fields

variable {unit : List Decl} {decisions : List Decision} {widenings : List Widening}

/-- One more decision that is justified. -/
theorem Follows.concat {d : Decision} (h : Follows m unit decisions widenings decls)
    (hlengthen : ∀ r ∈ d.action.renaming?, r.old.length < r.new.length)
    (hjustified : Justifies m unit decisions d.action) :
    Follows m unit (decisions ++ [d]) widenings (d.action.carryOut decls) := by
  refine ⟨?_, fun r hr => ?_, h.justified.concat hjustified, fun w hw => ?_⟩
  · rw [Decl.follow_concat, h.decls_eq]
  · rw [Decision.renamings_append, Decision.renamings_singleton, List.mem_append] at hr
    exact hr.elim (h.lengthen r) fun hr => hlengthen r (by simpa using hr)
  · obtain ⟨earlier, since, hsplit, hextends⟩ := h.pending w hw
    exact ⟨earlier, since ++ [d], by rw [hsplit, List.append_assoc], hextends⟩

/-- One more widening to be made. -/
theorem Follows.postpone {w : Widening} (h : Follows m unit decisions widenings decls)
    (hw : Extends m decls w.key w.fields) :
    Follows m unit decisions (widenings ++ [w]) decls := by
  refine { h with pending := fun v hv => ?_ }
  rcases List.mem_append.1 hv with hv | hv
  · exact h.pending v hv
  · rw [List.mem_singleton.1 hv]
    exact ⟨decisions, [], by simp, h.decls_eq ▸ hw⟩

/-! ## The passes -/

variable {u : UnitTag} {kind : DeclKind} {entries : List (String × DeclKind)}
  {taken : List Decision} {res res' : Resolution}

/-- Where a method is to be renamed, the declaration is a function or nothing happens. -/
theorem Meeting.renameMethod_cases (meet : Meeting m res.decls key) (reason : String) :
    renameMethod u reason meet.slot res = res ∨
      ∃ i f, meet.slot = .func i ∧ res.decls[i]? = some (.func f) ∧ meet.incoming = .func f := by
  cases hslot : meet.slot with
  | func i =>
    obtain ⟨f, hi, hincoming⟩ := meet.func_of_slot hslot
    exact .inr ⟨i, f, rfl, hi, hincoming⟩
  | type i j => exact .inl rfl
  | value i j k => exact .inl rfl

/-- The function that a method's key is compared by is a method with that key. -/
theorem Meeting.exists_receiver (hm : m.Agrees) (meet : Meeting m decls key) {f : FuncDecl}
    (hincoming : meet.incoming = .func f)
    (hfirst : ∀ name, Head.first? key (Decl.headsAll decls) ≠ some (.func name)) :
    f.head.isMethod = true ∧ f.head.key? = some key ∧
      ∃ recv, f.receiverName? = some recv ∧ key = recv ++ "." ++ f.name := by
  have hhead := meet.first?_incoming hm
  rw [hincoming, Declared.head] at hhead
  have hkey := (Head.mem_of_first? hhead).2
  have hmethod : f.head.isMethod = true := by
    cases hrecv : f.recv with
    | none =>
      refine absurd hhead ?_
      rw [FuncDecl.head, hrecv]
      exact hfirst f.name
    | some fields => rw [FuncDecl.isMethod_head, hrecv, Option.isSome_some]
  obtain ⟨recv, name, hhead', -, rfl⟩ := Head.method_of_key? hkey hmethod
  have hfhead := (FuncDecl.head_of_method hmethod f.name).1
  obtain ⟨hrecv, rfl⟩ := Head.method.inj (hfhead.symm.trans hhead')
  exact ⟨hmethod, hkey, recv, hrecv, rfl⟩

/-- One keyed declaration, where the key of a method is not borne first by a plain function. -/
theorem Follows.step (hm : m.Agrees) (htag : u.tag ≠ "")
    (h : Follows m unit (taken ++ res.decisions) res.widenings res.decls)
    (hfirst : kind = .method → ∀ name,
      Head.first? key (Decl.headsAll res.decls) ≠ some (.func name))
    (hstep : Resolves m u key kind res res') :
    Follows m unit (taken ++ res'.decisions) res'.widenings res'.decls := by
  cases hstep with
  | keep hkeep => exact h
  | drop meet hj =>
    rw [← List.append_assoc]
    have hcopies := meet.copies hm hj
    rw [h.decls_eq] at hcopies
    exact h.concat (d := u.decide (.duplicateDropped key))
      (by simp [UnitTag.decide, Action.renaming?]) hcopies
  | widen meet fields hj => exact h.postpone (meet.extends_of_widen hj)
  | rename meet reason hj hkind =>
    rw [← List.append_assoc]
    refine h.concat (d := u.decide (.renamed key (key ++ u.tag) reason)) (fun r hr => ?_) trivial
    have hr : r = ⟨key, key ++ u.tag⟩ := by
      simpa [UnitTag.decide, Action.renaming?, eq_comm] using hr
    rw [hr]
    exact length_lt_tagged htag key 0
  | renameMethod meet reason hj hkind =>
    rcases meet.renameMethod_cases (u := u) reason with heq | ⟨i, f, hslot, hi, hincoming⟩
    · rwa [heq]
    · obtain ⟨-, -, recv, hrecv, rfl⟩ := meet.exists_receiver hm hincoming (hfirst hkind)
      rw [hslot, renameMethod_eq hi, hrecv, Option.getD_some]
      have hset : Decl.renameFunc (recv ++ "." ++ f.name) (f.name ++ u.tag) res.decls =
          res.decls.set i (.func { f with name := f.name ++ u.tag }) := by
        simp only [Decl.renameFunc, meet.locate?_eq, hslot, hi]
      dsimp only
      rw [← hset, ← List.append_assoc]
      exact h.concat (d := u.decide (.methodRenamed recv f.name (f.name ++ u.tag) reason))
        (by simp [UnitTag.decide, Action.renaming?]) trivial

/-- The state of a unit within the pass over its methods. -/
structure MethodPass (m : Merger) (unit : List Decl) (taken : List Decision)
    (entries : List (String × DeclKind)) (res : Resolution) : Prop where
  follows : Follows m unit (taken ++ res.decisions) res.widenings res.decls
  kinds : ∀ e ∈ entries, e.2 = .method
  nodup : (entries.map (·.1)).Nodup
  first : ∀ k ∈ entries.map (·.1), ∀ name,
    Head.first? k (Decl.headsAll res.decls) ≠ some (.func name)

theorem MethodPass.step (hm : m.Agrees) (htag : u.tag ≠ "")
    (p : MethodPass m unit taken ((key, kind) :: entries) res)
    (hstep : Resolves m u key kind res res') : MethodPass m unit taken entries res' := by
  obtain ⟨hkind, hkinds⟩ := List.forall_mem_cons.1 p.kinds
  obtain ⟨hkey, hnodup⟩ := List.nodup_cons.1 p.nodup
  obtain ⟨hfirst, hfirsts⟩ := List.forall_mem_cons.1 p.first
  have hne : ∀ k ∈ entries.map (·.1), k ≠ key := by
    rintro k hk rfl
    exact hkey hk
  refine ⟨p.follows.step hm htag (fun _ => hfirst) hstep, hkinds, hnodup, fun k hk name => ?_⟩
  cases hstep with
  | keep hkeep => exact hfirsts k hk name
  | drop meet hj =>
    have hpruned := Decl.pruned_remove (hm.isBlank_eq meet.slot?_eq) res.decls
    rw [hpruned.first?_eq (hne k hk)]
    exact hfirsts k hk name
  | widen meet fields hj => exact hfirsts k hk name
  | rename meet reason hj hkind' => exact absurd hkind hkind'
  | renameMethod meet reason hj hkind' =>
    rcases meet.renameMethod_cases (u := u) reason with heq | ⟨i, f, hslot, hi, hincoming⟩
    · rw [heq]
      exact hfirsts k hk name
    · obtain ⟨hmethod, hfkey, -⟩ := meet.exists_receiver hm hincoming hfirst
      obtain ⟨before, after, hold, hnew⟩ :=
        Decl.split_headsAll_set hi { f with name := f.name ++ u.tag }
      rw [hslot, renameMethod_eq hi]
      dsimp only
      rw [hnew]
      refine Head.first?_replace_method (b := f.head) ?_ ?_ (hold ▸ hfirsts k hk name)
      · rw [hfkey]
        simpa using Ne.symm (hne k hk)
      · exact (FuncDecl.isMethod_head _).trans (f.isMethod_head.symm.trans hmethod)

/-! ## Units -/

/-- Before the passes the unit is renamed as its imports require. -/
theorem follows_start (htag : u.tag ≠ "") (himport : ∀ d ∈ taken, d.action.isImport = true)
    (htags : ∀ r ∈ Decision.renamings taken, r.Tags u.tag)
    (hdecls : decls = Decl.renameSeq (Decision.renamings taken) unit) :
    Follows m unit (taken ++ []) [] decls := by
  rw [List.append_nil]
  refine ⟨?_, fun r hr => ?_, fun before d after hsplit => ?_, by simp⟩
  · rw [Decl.follow_of_isImport himport, hdecls]
  · obtain ⟨-, n, hnew⟩ := htags r hr
    rw [hnew]
    exact length_lt_tagged htag r.old n
  · have hd := himport d (hsplit ▸ by simp)
    cases haction : d.action <;> simp_all [Action.isImport, Justifies]

/-- The pass over the methods begins in the state that the decisions so far lead to. -/
theorem UnitPasses.exists_methodPass {file : SourceFile} (p : UnitPasses m u file) (hm : m.Agrees)
    (htag : u.tag ≠ "") :
    ∃ taken, p.imported.decisions = m.decisions ++ taken ∧
      (∀ d ∈ taken, d.action.isImport = true) ∧
      MethodPass p.imported (Decl.withoutImports file.decls) taken (methodEntries p.plain.decls)
        p.plain := by
  obtain ⟨taken, htaken, hdecls, himport, htags⟩ := p.exists_taken
  have hagrees := p.sameSlots_imported.agrees hm
  have hplain := resolveAll_run (P := fun entries res =>
    (∀ e ∈ entries, e.2 ≠ .method) ∧
      Follows p.imported (Decl.withoutImports file.decls) (taken ++ res.decisions) res.widenings
        res.decls)
    (fun key kind entries res res' h hstep => by
      obtain ⟨hkind, hkinds⟩ := List.forall_mem_cons.1 h.1
      exact ⟨hkinds, h.2.step hagrees htag (fun heq => absurd heq hkind) hstep⟩)
    ⟨fun e he => by simpa using (List.mem_filter.1 he).2,
      follows_start htag himport htags (by rw [hdecls, Decl.withoutImports_renameSeq])⟩
    p.plain_eq
  refine ⟨taken, htaken, himport, hplain.2, ?_, nodup_methodEntries _, ?_⟩
  · intro e he
    simpa using (List.mem_filter.1 he).2
  · intro k hk
    obtain ⟨⟨k', kind⟩, he, rfl⟩ := List.mem_map.1 hk
    obtain ⟨hmem, hkind⟩ := List.mem_filter.1 he
    have hkind : kind = .method := by simpa using hkind
    exact Decl.first?_ne_func_of_mem_collect (hkind ▸ hmem)

/-- Before the widenings the unit is in the state that its decisions lead to. -/
theorem UnitPasses.exists_follows {file : SourceFile} (p : UnitPasses m u file) (hm : m.Agrees)
    (htag : u.tag ≠ "") :
    ∃ taken, p.imported.decisions = m.decisions ++ taken ∧
      (∀ d ∈ taken, d.action.isImport = true) ∧
      Follows p.imported (Decl.withoutImports file.decls) (taken ++ p.methods.decisions)
        p.methods.widenings p.methods.decls := by
  obtain ⟨taken, htaken, himport, hpass⟩ := p.exists_methodPass hm htag
  have hmethods := resolveAll_run
    (P := MethodPass p.imported (Decl.withoutImports file.decls) taken)
    (fun _ _ _ _ _ p' hstep => p'.step (p.sameSlots_imported.agrees hm) htag hstep) hpass
    p.methods_eq
  exact ⟨taken, htaken, himport, hmethods.follows⟩

/-- What is left of a unit follows from its decisions, and each of them is justified. -/
theorem UnitRun.follows {final : Merger} {file : SourceFile} (run : UnitRun m u file final)
    (hm : m.Agrees) (htag : u.tag ≠ "") :
    Follows run.imported (Decl.withoutImports file.decls) (m.newDecisions final) []
      run.left.decls := by
  obtain ⟨taken, htaken, -, hmethods⟩ := run.exists_follows hm htag
  have hleft := widenAll_run (P := fun ws _ res => Follows run.imported
    (Decl.withoutImports file.decls) (taken ++ res.decisions) ws res.decls)
    (fun w ws m res m' res' h hstep => by
      obtain ⟨hw, hws⟩ := List.forall_mem_cons.1 h.pending
      have h' := { h with pending := hws }
      cases hstep with
      | skip hskip => exact h'
      | merge =>
        rw [← List.append_assoc]
        exact h'.concat (d := u.decide (.fieldsMerged w.key w.fields))
          (by simp [UnitTag.decide, Action.renaming?]) hw)
    hmethods run.widened_eq
  rwa [run.newDecisions_eq htaken]

/-- A unit's declaration that is dropped is equal to the registered one, and it stays equal under
the renamings decided after it exactly if they touch no name that it refers to. The same holds of
the members that a struct shares with the registered one that it is folded into; here the renamings
are all those since the two were compared. -/
theorem Reachable.dropped_copies {m final : Merger} {file : SourceFile} {tag : String}
    {before after : List Decision} {d : Decision} (hm : m.Reachable)
    (hmerge : m.merge file tag = (final, none))
    (hd : m.newDecisions final = before ++ d :: after) :
    let unit := Decl.withoutImports file.decls
    (∀ key, d.action = .duplicateDropped key →
      ∃ canonical incoming, m.declared? key = some canonical ∧
        Decl.declared? (Decl.follow before unit) key = some incoming ∧
        StaysEqual compare Declared.rename Declared.free (Decision.renamings after)
          canonical incoming) ∧
    (∀ key added, d.action = .fieldsMerged key added →
      ∃ earlier since, before = earlier ++ since ∧
        ∃ canonical incoming, m.declared? key = some (.type canonical) ∧
          Decl.declared? (Decl.follow earlier unit) key = some (.type incoming) ∧
          ∃ left right, TypeSpec.Widens (Decision.renamings (since ++ d :: after)) added
            canonical incoming left right) := by
  intro unit
  obtain ⟨htag, ⟨run⟩⟩ := exists_run_of_merge hmerge
  have hfollows := run.follows hm.agrees htag
  have hnew : Merger.newDecisions { m with units := m.units + 1 } final = before ++ d :: after := hd
  rw [hnew] at hfollows
  have hlengthen : ∀ ds, ds ⊆ before ++ d :: after → Renaming.Lengthen (Decision.renamings ds) :=
    fun ds hds r hr => hfollows.lengthen r (List.filterMap_subset _ hds hr)
  have hjustified := hfollows.justified before d after rfl
  constructor
  · intro key haction
    rw [haction] at hjustified
    obtain ⟨canonical, incoming, hcanonical, hincoming, hmethod, hequal⟩ := hjustified
    rw [run.declared?_imported] at hcanonical
    exact ⟨canonical, incoming, hcanonical, hincoming,
      Declared.staysEqual hmethod (hlengthen after (by simp)) hequal⟩
  · intro key added haction
    rw [haction] at hjustified
    obtain ⟨earlier, since, rfl, canonical, incoming, hcanonical, hincoming, hstruct, hstruct',
      missing, hcompare⟩ := hjustified
    rw [run.declared?_imported] at hcanonical
    exact ⟨earlier, since, rfl, canonical, incoming, hcanonical, hincoming,
      TypeSpec.exists_widens (hlengthen _ (by simp)) hstruct hstruct' hcompare⟩

/-- The function `F` is dropped, and the struct `S` is compared before `T` is renamed and folded in
after it. -/
theorem dropped_copies_conflict :
    let m := ((start "out").merge
      ⟨"a", [.ofFunc "F", .ofType "S" (.structType [⟨["X"], .ident "int", none⟩] false),
        .ofType "T" (.structType [] false)]⟩ "A").1
    let file : SourceFile :=
      ⟨"b", [.ofFunc "F", .ofType "S" (.structType [⟨["X", "Y"], .ident "int", none⟩] false),
        .ofType "T" (.ident "int")]⟩
    let drop : Decision := ⟨1, "B", .duplicateDropped "F"⟩
    let rename : Decision := ⟨1, "B", .renamed "T" "TB" "kind: struct type vs identifier"⟩
    let fold : Decision := ⟨1, "B", .fieldsMerged "S" ["Y"]⟩
    m.newDecisions (m.merge file "B").1 = [drop, rename, fold] ∧
      (∃ canonical incoming, m.declared? "F" = some canonical ∧
        Decl.declared? file.decls "F" = some incoming ∧
        StaysEqual compare Declared.rename Declared.free [⟨"T", "TB"⟩] canonical incoming) ∧
      ∃ earlier since, [drop, rename] = earlier ++ since ∧
        ∃ canonical incoming, m.declared? "S" = some (.type canonical) ∧
          Decl.declared? (Decl.follow earlier file.decls) "S" = some (.type incoming) ∧
          ∃ left right, TypeSpec.Widens (Decision.renamings (since ++ [fold])) ["Y"]
            canonical incoming left right := by
  intro m file drop rename fold
  have hm : m.Reachable := .merge _ _ (.start "out")
  have hmerge : m.merge file "B" = ((m.merge file "B").1, none) := Prod.ext rfl (by decide)
  have hfirst : m.newDecisions (m.merge file "B").1 = [] ++ drop :: [rename, fold] := by decide
  have hlast : m.newDecisions (m.merge file "B").1 = [drop, rename] ++ fold :: [] := hfirst
  exact ⟨hfirst, (Reachable.dropped_copies hm hmerge hfirst).1 "F" rfl,
    (Reachable.dropped_copies hm hmerge hlast).2 "S" ["Y"] rfl⟩

/-- The function `F` of the second unit is dropped as equal, and only then its type `T` is renamed.
What is left of `F` returns the type `T` of the first unit. -/
theorem exists_copy_of_renamed :
    ∃ (m : Merger) (file : SourceFile) (tag : String), m.Reachable ∧ (m.merge file tag).2 = none ∧
      ∃ before d after, m.newDecisions (m.merge file tag).1 = before ++ d :: after ∧
        ∃ key canonical incoming, d.action = .duplicateDropped key ∧
          m.declared? key = some canonical ∧
          Decl.declared? (Decl.follow before (Decl.withoutImports file.decls)) key =
            some incoming ∧
          compare canonical (Renaming.along Declared.rename (Decision.renamings after) incoming) ≠
            none := by
  let f : Decl := .func ⟨none, "F", ⟨none, [], some [⟨[], .ident "T", none⟩]⟩,
    some [.ret [.composite (some (.ident "T")) [] false]]⟩
  refine ⟨((start "out").merge
    ⟨"a", [f, .ofType "T" (.structType [⟨["X"], .ident "int", none⟩] false)]⟩ "A").1,
    ⟨"b", [f, .ofType "T" (.structType [⟨["X"], .ident "string", none⟩] false)]⟩, "B",
    .merge _ _ (.start "out"), by decide, [], _, _, rfl, "F", _, _, rfl, rfl, rfl, by decide⟩

end Merger

end GoWeave
