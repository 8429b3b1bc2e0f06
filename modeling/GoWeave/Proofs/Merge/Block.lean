import GoWeave.Proofs.Declaration.Commute
import GoWeave.Proofs.Declaration.Descent
import GoWeave.Proofs.Merge.Registry

/-!
# The appended block

A unit is merged by turns of comparing, removing and renaming. What it appends in the end can be
told from its declarations and the recorded decisions alone: all renamings, in their order, then the
new names of methods, then all removals. For this a removal and a later renaming have to commute,
and the declaration that a key is compared by has to be of the kind under which the key was
collected.

A name that the unit gave up is no longer referred to in the block. A method whose receiver binds
the name of its own type, as in `func (x *T[T]) M()`, does not refer to the type, and so it stays
behind under the old name.
-/
namespace GoWeave

/-! ## Replaying decisions -/

/-- The method that an action gives a new name, by receiver and name. -/
def Action.method? : Action → Option (String × String)
  | methodRenamed recv old _ _ => some (recv, old)
  | _ => none

/-- The key that an action takes out of the unit. -/
def Action.dropped? : Action → Option String
  | duplicateDropped key => some key
  | fieldsMerged key _ => some key
  | _ => none

namespace Decision

def methods (decisions : List Decision) : List (String × String) :=
  decisions.filterMap (·.action.method?)

def dropped (decisions : List Decision) : List String :=
  decisions.filterMap (·.action.dropped?)

theorem methods_concat (decisions : List Decision) (d : Decision) :
    methods (decisions ++ [d]) = methods decisions ++ d.action.method?.toList := by
  rw [methods, List.filterMap_append, methods]
  cases h : d.action.method? <;> simp [h]

theorem dropped_concat (decisions : List Decision) (d : Decision) :
    dropped (decisions ++ [d]) = dropped decisions ++ d.action.dropped?.toList := by
  rw [dropped, List.filterMap_append, dropped]
  cases h : d.action.dropped? <;> simp [h]

theorem mem_dropped_concat {taken decisions : List Decision} {d : Decision} {key : String} :
    key ∈ dropped (taken ++ (decisions ++ [d])) ↔
      key ∈ dropped (taken ++ decisions) ∨ d.action.dropped? = some key := by
  rw [← List.append_assoc, dropped_concat, List.mem_append, Option.mem_toList]

end Decision

namespace Decl

/-- The declarations without several keys. -/
def removeAll (keys : List String) (decls : List Decl) : List Decl :=
  keys.foldl (fun decls key => remove key decls) decls

/-- The declarations of a unit under its decisions: renamed throughout, then with the tag appended
to some methods, then without the dropped keys. -/
def replay (tag : String) (decisions : List Decision) (decls : List Decl) : List Decl :=
  removeAll (Decision.dropped decisions)
    (tagMethods tag (Decision.methods decisions)
      (renameSeq (Decision.renamings decisions) decls))

theorem removeAll_renameAll {r : Renaming} {keys : List String} (h : ∀ key ∈ keys, r.Avoids key)
    (decls : List Decl) :
    removeAll keys (renameAll r decls) = renameAll r (removeAll keys decls) := by
  induction keys generalizing decls with
  | nil => rfl
  | cons key keys ih =>
    obtain ⟨hkey, hkeys⟩ := List.forall_mem_cons.1 h
    simp only [removeAll, List.foldl_cons] at ih ⊢
    rw [remove_renameAll hkey, ih hkeys]

theorem removeAll_tagMethods {tag recv name : String} {keys : List String}
    (h : ∀ key ∈ keys, key ≠ recv ++ "." ++ name ∧ key ≠ recv ++ "." ++ (name ++ tag))
    (decls : List Decl) :
    removeAll keys (tagMethods tag [(recv, name)] decls) =
      tagMethods tag [(recv, name)] (removeAll keys decls) := by
  induction keys generalizing decls with
  | nil => rfl
  | cons key keys ih =>
    obtain ⟨hkey, hkeys⟩ := List.forall_mem_cons.1 h
    simp only [removeAll, List.foldl_cons] at ih ⊢
    rw [remove_tagMethods hkey.1 hkey.2, ih hkeys]

variable {tag : String} {decisions : List Decision}

/-- A decision that takes a key out removes it from the block so far. -/
theorem replay_concat_dropped {d : Decision} {key : String} (hd : d.action.dropped? = some key)
    (decls : List Decl) :
    replay tag (decisions ++ [d]) decls = remove key (replay tag decisions decls) := by
  have hrest : d.action.method? = none ∧ d.action.renaming? = none := by
    cases haction : d.action <;> simp_all [Action.dropped?, Action.method?, Action.renaming?]
  simp [replay, removeAll, Decision.dropped_concat, Decision.methods_concat, hd, hrest]

/-- A renaming before all methods renames the block so far, if it avoids the keys taken out. -/
theorem replay_concat_renaming {d : Decision} {r : Renaming} (hd : d.action.renaming? = some r)
    (hmethods : Decision.methods decisions = [])
    (havoids : ∀ key ∈ Decision.dropped decisions, r.Avoids key) (decls : List Decl) :
    replay tag (decisions ++ [d]) decls = renameAll r (replay tag decisions decls) := by
  have hrest : d.action.method? = none ∧ d.action.dropped? = none := by
    cases haction : d.action <;> simp_all [Action.dropped?, Action.method?, Action.renaming?]
  simp only [replay, Decision.dropped_concat, Decision.methods_concat, hrest, hmethods,
    Option.toList_none, List.append_nil, tagMethods_nil, ← removeAll_renameAll havoids]
  simp [hd, renameSeq]

/-- A new name for a method tags it in the block so far, if no key taken out is the old key or the
new. -/
theorem replay_concat_method {d : Decision} {recv name : String}
    (hd : d.action.method? = some (recv, name)) (hname : ¬EndsWith tag name)
    (hkeys : ∀ key ∈ Decision.dropped decisions,
      key ≠ recv ++ "." ++ name ∧ key ≠ recv ++ "." ++ (name ++ tag)) (decls : List Decl) :
    replay tag (decisions ++ [d]) decls =
      tagMethods tag [(recv, name)] (replay tag decisions decls) := by
  have hrest : d.action.renaming? = none ∧ d.action.dropped? = none := by
    cases haction : d.action <;> simp_all [Action.dropped?, Action.method?, Action.renaming?]
  simp only [replay, Decision.dropped_concat, Decision.methods_concat, hd, hrest,
    Option.toList_none, Option.toList_some, List.append_nil, tagMethods_concat hname,
    removeAll_tagMethods hkeys]
  simp [hrest]

/-- What is left of declarations without import groups has none either. -/
theorem isImport_replay {decls : List Decl} (h : ∀ d ∈ decls, d.isImport = false) :
    ∀ d ∈ replay tag decisions decls, d.isImport = false := by
  have hseq : ∀ (rs : List Renaming) (ds : List Decl), (∀ d ∈ ds, d.isImport = false) →
      ∀ d ∈ renameSeq rs ds, d.isImport = false := by
    intro rs
    induction rs with
    | nil => exact fun ds hds => hds
    | cons r rs ih =>
      intro ds hds
      refine ih _ fun d hd => ?_
      obtain ⟨d₀, hd₀, rfl⟩ := List.mem_map.1 hd
      rw [isImport_rename, hds d₀ hd₀]
  have hremove : ∀ (keys : List String) (ds : List Decl), (∀ d ∈ ds, d.isImport = false) →
      ∀ d ∈ removeAll keys ds, d.isImport = false := by
    intro keys
    induction keys with
    | nil => exact fun ds hds => hds
    | cons key keys ih =>
      intro ds hds
      refine ih _ fun d hd => ?_
      obtain ⟨d₀, hd₀, hd⟩ := List.mem_filterMap.1 hd
      rw [isImport_without hd, hds d₀ hd₀]
  refine hremove _ _ fun d hd => ?_
  obtain ⟨d₀, hd₀, rfl⟩ := List.mem_map.1 hd
  have hd₀ := hseq _ decls h d₀ hd₀
  cases d₀ with
  | bad node => rfl
  | group g => exact hd₀
  | func f =>
    simp only [tagMethod]
    split <;> rfl

end Decl

namespace Merger

/-! ## The block so far -/

/-- The declarations of a unit so far are what its decisions make of it, and no name that was given
up is referred to. -/
structure Replays (tag : String) (taken : List Decision) (unit : List Decl) (decls : List Decl)
    (decisions : List Decision) : Prop where
  decls_eq : decls = Decl.replay tag (taken ++ decisions) unit
  clean : ∀ r ∈ Decision.renamings decisions, r.old ≠ "_" ∧ r.old ∉ Decl.freeAll decls

variable {m : Merger} {tag key : String} {os : List Head} {taken : List Decision}
  {unit decls : List Decl} {decisions : List Decision} {d : Decision}

theorem Replays.remove (h : Replays tag taken unit decls decisions)
    (hd : d.action.dropped? = some key) :
    Replays tag taken unit (Decl.remove key decls) (decisions ++ [d]) := by
  have hrenaming : d.action.renaming? = none := by
    cases haction : d.action <;> simp_all [Action.dropped?, Action.renaming?]
  constructor
  · rw [← List.append_assoc, Decl.replay_concat_dropped hd, ← h.decls_eq]
  · intro r hr
    have hr : r ∈ Decision.renamings decisions := by simpa [hrenaming] using hr
    obtain ⟨hblank, hclean⟩ := h.clean r hr
    refine ⟨hblank, fun hmem => ?_⟩
    exact (Decl.mem_freeAll_remove hmem).elim hclean hblank

theorem Replays.rename (h : Replays tag taken unit decls decisions) {r : Renaming}
    (hd : d.action.renaming? = some r) (hblank : r.old ≠ "_") (hne : r.old ≠ r.new)
    (hmethods : Decision.methods (taken ++ decisions) = [])
    (havoids : ∀ k ∈ Decision.dropped (taken ++ decisions), r.Avoids k)
    (hnew : ∀ s ∈ Decision.renamings decisions, s.old ≠ r.new) :
    Replays tag taken unit (Decl.renameAll r decls) (decisions ++ [d]) := by
  constructor
  · rw [← List.append_assoc, Decl.replay_concat_renaming hd hmethods havoids, ← h.decls_eq]
  · intro s hs
    rw [Decision.renamings_append, Decision.renamings_singleton, hd, List.mem_append] at hs
    rcases hs with hs | hs
    · obtain ⟨hblank, hclean⟩ := h.clean s hs
      exact ⟨hblank, Decl.not_mem_freeAll_renameAll hclean (hnew s hs)⟩
    · have hs : s = r := by simpa using hs
      rw [hs]
      exact ⟨hblank, Decl.old_not_mem_freeAll hne decls⟩

theorem Replays.tagMethod (h : Replays tag taken unit decls decisions) {recv name : String}
    (hd : d.action.method? = some (recv, name)) (hname : ¬EndsWith tag name)
    (hkeys : ∀ k ∈ Decision.dropped (taken ++ decisions),
      k ≠ recv ++ "." ++ name ∧ k ≠ recv ++ "." ++ (name ++ tag)) :
    Replays tag taken unit (Decl.tagMethods tag [(recv, name)] decls) (decisions ++ [d]) := by
  have hrenaming : d.action.renaming? = none := by
    cases haction : d.action <;> simp_all [Action.method?, Action.renaming?]
  constructor
  · rw [← List.append_assoc, Decl.replay_concat_method hd hname hkeys, ← h.decls_eq]
  · intro r hr
    rw [Decl.freeAll_tagMethods]
    exact h.clean r (by simpa [hrenaming] using hr)

/-! ## The two passes -/

/-- The state of a unit within a pass over its methods, or over its other declarations. A pending
key that is registered is borne first by a declaration of the pass. -/
structure Pass (m : Merger) (tag : String) (os : List Head) (taken : List Decision)
    (unit : List Decl) (methods : Bool) (entries : List (String × DeclKind)) (decls : List Decl)
    (decisions : List Decision) : Prop where
  replays : Replays tag taken unit decls decisions
  descends : Head.Descends tag True os (Decl.headsAll decls)
  kinds : ∀ e ∈ entries, e.2 = .method ↔ methods = true
  nodup : (entries.map (·.1)).Nodup
  dropped : ∀ k ∈ Decision.dropped (taken ++ decisions),
    k ∉ entries.map (·.1) ∧ ∃ slot, m.slot? k = some slot
  first : ∀ k ∈ entries.map (·.1), ∀ slot, m.slot? k = some slot →
    ∀ h, Head.first? k (Decl.headsAll decls) = some h → h.isMethod = methods

variable {methods : Bool} {kind : DeclKind} {entries : List (String × DeclKind)}

theorem Pass.tail (p : Pass m tag os taken unit methods ((key, kind) :: entries) decls decisions) :
    Pass m tag os taken unit methods entries decls decisions := by
  refine { p with kinds := ?_, nodup := ?_, dropped := ?_, first := ?_ }
  · exact fun e he => p.kinds e (List.mem_cons_of_mem _ he)
  · exact (List.nodup_cons.1 p.nodup).2
  · intro k hk
    obtain ⟨hpending, hslot⟩ := p.dropped k hk
    exact ⟨fun hmem => hpending (List.mem_cons_of_mem _ hmem), hslot⟩
  · exact fun k hk => p.first k (List.mem_cons_of_mem _ hk)

theorem Pass.ne_of_mem
    (p : Pass m tag os taken unit methods ((key, kind) :: entries) decls decisions) {k : String}
    (hk : k ∈ entries.map (·.1)) : k ≠ key := by
  rintro rfl
  exact (List.nodup_cons.1 p.nodup).1 hk

theorem Pass.ne_of_dropped
    (p : Pass m tag os taken unit methods ((key, kind) :: entries) decls decisions) {k : String}
    (hk : k ∈ Decision.dropped (taken ++ decisions)) : k ≠ key := by
  rintro rfl
  exact (p.dropped k hk).1 List.mem_cons_self

theorem Pass.remove (g : Footing m tag os)
    (p : Pass m tag os taken unit methods ((key, kind) :: entries) decls decisions)
    {slot : Slot} (hslot : m.slot? key = some slot) (hd : d.action.dropped? = some key) :
    Pass m tag os taken unit methods entries (Decl.remove key decls) (decisions ++ [d]) := by
  have hpruned := Decl.pruned_remove (g.agrees.isBlank_eq hslot) decls
  refine ⟨p.replays.remove hd, p.descends.trans (hpruned.descends tag True), p.tail.kinds,
    p.tail.nodup, fun k hk => ?_, fun k hk slot hslot h hfirst => ?_⟩
  · rcases Decision.mem_dropped_concat.1 hk with hk | hk
    · exact p.tail.dropped k hk
    · obtain rfl : key = k := Option.some.inj (hd.symm.trans hk)
      exact ⟨(List.nodup_cons.1 p.nodup).1, slot, hslot⟩
  · rw [hpruned.first?_eq (p.ne_of_mem hk)] at hfirst
    exact p.tail.first k hk slot hslot h hfirst

/-- The first pass. Names that were declared when it began are apart from each other under the tag,
and those that are pending or were given up are among them. -/
structure PlainPass (m : Merger) (tag : String) (os : List Head) (taken : List Decision)
    (unit : List Decl) (names : List String) (entries : List (String × DeclKind))
    (decls : List Decl) (decisions : List Decision) : Prop
    extends Pass m tag os taken unit false entries decls decisions where
  noMethods : Decision.methods (taken ++ decisions) = []
  fresh : ∀ k ∈ Decision.dropped (taken ++ decisions), ¬EndsWith tag k ∧ ¬Dotted k
  pending : ∀ k ∈ entries.map (·.1), k ∈ names
  renamed : ∀ r ∈ Decision.renamings decisions, r.old ∈ names

/-- Names none of which is empty, or becomes another with the tag. -/
def Apart (tag : String) (names : List String) : Prop :=
  ∀ name ∈ names, name ≠ "" ∧ ∀ other ∈ names, name ++ tag ≠ other

variable {names : List String}

theorem PlainPass.skip
    (p : PlainPass m tag os taken unit names ((key, kind) :: entries) decls decisions) :
    PlainPass m tag os taken unit names entries decls decisions :=
  { p with
    toPass := p.tail
    pending := fun k hk => p.pending k (List.mem_cons_of_mem _ hk) }

/-- What is dropped in the first pass is equal to a type, value or function, so its key is fresh. -/
theorem PlainPass.drop {u : UnitTag} (g : Footing m tag os)
    (p : PlainPass m tag os taken unit names ((key, kind) :: entries) decls decisions)
    (meet : Meeting m decls key) (h : judge meet.canonical meet.incoming = .ok .drop) :
    PlainPass m tag os taken unit names entries (Decl.remove key decls)
      (decisions ++ [u.decide (.duplicateDropped key)]) := by
  have hfirst := meet.first?_incoming g.agrees
  have hfirst' := meet.first?_canonical g.agrees
  have hplain : meet.canonical.head.isMethod = false := by
    rw [isMethod_eq_of_compare (judge_drop h) (Head.mem_of_first? hfirst').2
      (Head.mem_of_first? hfirst).2]
    exact p.first key List.mem_cons_self _ meet.slot?_eq _ hfirst
  obtain ⟨hmem, hkey⟩ := Head.mem_of_first? hfirst'
  have hfresh := g.freshOutput _ hmem key
    (Head.mem_parts_of_plain? (Head.plain?_of_key? hkey hplain).1)
  have hd : (u.decide (.duplicateDropped key)).action.dropped? = some key := rfl
  refine { p.toPass.remove g meet.slot?_eq hd with
    noMethods := ?_, fresh := ?_, pending := p.skip.pending, renamed := ?_ }
  · rw [← List.append_assoc, Decision.methods_concat, p.noMethods]
    rfl
  · intro k hk
    rcases Decision.mem_dropped_concat.1 hk with hk | hk
    · exact p.fresh k hk
    · rwa [← Option.some.inj (hd.symm.trans hk)]
  · intro r hr
    exact p.renamed r (by simpa [UnitTag.decide, Action.renaming?] using hr)

/-- A registered key that a renaming to a tagged name makes a method bear was borne by it before. -/
theorem Footing.key?_eq_of_renames (g : Footing m tag os) {k : String} {slot : Slot}
    (hslot : m.slot? k = some slot) {b c : Head} (hr : Head.Renames ⟨key, key ++ tag⟩ b c)
    (hm : c.isMethod = true) (hc : c.key? = some k) : b.key? = some k := by
  cases hr with
  | type name isStruct => simp [Head.isMethod] at hm
  | value name => simp [Head.isMethod] at hm
  | func name => simp [Head.isMethod] at hm
  | method recv? name sc =>
    obtain ⟨recv', name', heq, hname, rfl⟩ := Head.method_of_key? hc hm
    rw [heq] at hc hm
    obtain ⟨hrecv, rfl⟩ := Head.method.inj heq
    obtain ⟨recv, rfl, happly⟩ := Option.map_eq_some_iff.1 hrecv
    rcases g.registered_cases hslot with ⟨-, hdot⟩ | ⟨R, N, hkey, ⟨hends, hR⟩, -, hN⟩
    · exact absurd (Head.dotted_of_isMethod hc hm) hdot
    · obtain ⟨rfl, rfl⟩ := qualified_inj hR hN hkey
      unfold Renaming.apply at happly
      split at happly
      · exact absurd (happly ▸ endsWith_append tag key) hends
      · rwa [happly]

theorem PlainPass.rename {u : UnitTag} (g : Footing m u.tag os) (hnames : Apart u.tag names)
    (p : PlainPass m u.tag os taken unit names ((key, kind) :: entries) decls decisions)
    {slot : Slot} (hslot : m.slot? key = some slot) (reason : String) :
    PlainPass m u.tag os taken unit names entries (Decl.renameAll ⟨key, key ++ u.tag⟩ decls)
      (decisions ++ [u.decide (.renamed key (key ++ u.tag) reason)]) := by
  have hblank : key ≠ "_" := by simpa [isBlank] using g.agrees.isBlank_eq hslot
  obtain ⟨hempty, hapart⟩ := hnames key (p.pending key List.mem_cons_self)
  have hnew : key ++ u.tag ≠ "_" := append_ne_blank hempty hblank
  have hne : key ≠ key ++ u.tag := Ne.symm (hapart key (p.pending key List.mem_cons_self))
  have hd : (u.decide (.renamed key (key ++ u.tag) reason)).action.renaming? =
      some ⟨key, key ++ u.tag⟩ := rfl
  have hrenames := Decl.renames_headsAll ⟨key, key ++ u.tag⟩ decls
  have hdropped : Decision.dropped (taken ++
      (decisions ++ [u.decide (.renamed key (key ++ u.tag) reason)])) =
      Decision.dropped (taken ++ decisions) := by
    rw [← List.append_assoc, Decision.dropped_concat]
    exact List.append_nil _
  have havoids : ∀ k ∈ Decision.dropped (taken ++ decisions),
      Renaming.Avoids ⟨key, key ++ u.tag⟩ k := by
    intro k hk
    obtain ⟨hends, hdot⟩ := p.fresh k hk
    refine ⟨p.ne_of_dropped hk, fun heq => ?_, hblank, hnew, hdot⟩
    exact hends (heq ▸ endsWith_append u.tag key)
  refine ⟨⟨?_, ?_, p.tail.kinds, p.tail.nodup, ?_, ?_⟩, ?_, ?_, p.skip.pending, ?_⟩
  · exact p.replays.rename hd hblank hne p.noMethods havoids fun s hs =>
      Ne.symm (hapart s.old (p.renamed s hs))
  · exact p.descends.trans
      (Head.descends_of_renames (n := 0) (by simp [tagged_succ]) hblank (fun _ => trivial) hrenames)
  · rw [hdropped]
    exact p.tail.dropped
  · intro k hk slot hslot
    exact Head.first?_plain_of_renames hrenames (p.ne_of_mem hk)
      (fun b c hr hm hc => g.key?_eq_of_renames hslot hr hm hc) (p.tail.first k hk slot hslot)
  · rw [← List.append_assoc, Decision.methods_concat, p.noMethods]
    rfl
  · rw [hdropped]
    exact p.fresh
  · intro r hr
    rw [Decision.renamings_append, Decision.renamings_singleton, hd, List.mem_append] at hr
    rcases hr with hr | hr
    · exact p.renamed r hr
    · have hr : r = ⟨key, key ++ u.tag⟩ := by simpa using hr
      rw [hr]
      exact p.pending key List.mem_cons_self

theorem PlainPass.step {u : UnitTag} {res res' : Resolution} (g : Footing m u.tag os)
    (hnames : Apart u.tag names)
    (p : PlainPass m u.tag os taken unit names ((key, kind) :: entries) res.decls res.decisions)
    (hstep : Resolves m u key kind res res') :
    PlainPass m u.tag os taken unit names entries res'.decls res'.decisions := by
  cases hstep with
  | keep h => exact p.skip
  | drop meet h => exact p.drop g meet h
  | widen meet fields h => exact p.skip
  | rename meet reason h hkind => exact p.rename g hnames meet.slot?_eq reason
  | renameMethod meet reason h hkind =>
    have hfalse := (p.kinds (key, kind) List.mem_cons_self).1 hkind
    simp at hfalse

/-- The method that a key is compared by is the only one of its receiver and name, and it gets the
tag. -/
theorem Pass.tagMethod {u : UnitTag} {res : Resolution} (g : Footing m u.tag os)
    (p : Pass m u.tag os taken unit true ((key, kind) :: entries) res.decls res.decisions)
    (meet : Meeting m res.decls key) (reason : String) :
    Pass m u.tag os taken unit true entries (renameMethod u reason meet.slot res).decls
      (renameMethod u reason meet.slot res).decisions := by
  have hfirst := meet.first?_incoming g.agrees
  have hmethod := p.first key List.mem_cons_self _ meet.slot?_eq _ hfirst
  obtain ⟨i, f, hslot, hi, hincoming⟩ := meet.exists_func hmethod
  obtain ⟨-, hkey⟩ := Head.mem_of_first? hfirst
  rw [hincoming, Declared.head] at hkey hmethod
  obtain ⟨recv, name, hhead, hname, rfl⟩ := Head.method_of_key? hkey hmethod
  obtain ⟨hfhead, hfhead'⟩ := FuncDecl.head_of_method hmethod (f.name ++ u.tag)
  obtain ⟨hrecv, rfl⟩ := Head.method.inj (hfhead.symm.trans hhead)
  have hends : ¬EndsWith u.tag f.name := by
    rcases g.registered_cases meet.slot?_eq with ⟨-, hdot⟩ | ⟨R, N, heq, ⟨-, hR⟩, hends, hN⟩
    · exact absurd (Head.dotted_of_isMethod hkey hmethod) hdot
    · obtain ⟨-, rfl⟩ := qualified_inj hR hN heq
      exact hends
  have hset : Decl.tagMethods u.tag [(recv, f.name)] res.decls =
      res.decls.set i (.func { f with name := f.name ++ u.tag }) := by
    refine Decl.tagMethods_eq_set hi hrecv fun before after hsplit => ?_
    rw [hhead] at hsplit ⊢
    exact p.descends.not_mem_of_method g.freshUnit g.nodup hname hsplit
  rw [hslot, renameMethod_eq hi, hrecv, Option.getD_some]
  obtain ⟨before, after, hold, hnew⟩ :=
    Decl.split_headsAll_set hi { f with name := f.name ++ u.tag }
  rw [hhead] at hold
  rw [hfhead', hrecv] at hnew
  have hdropped : Decision.dropped (taken ++ (res.decisions ++
      [u.decide (.methodRenamed recv f.name (f.name ++ u.tag) reason)])) =
      Decision.dropped (taken ++ res.decisions) := by
    rw [← List.append_assoc, Decision.dropped_concat]
    exact List.append_nil _
  refine ⟨?_, ?_, p.tail.kinds, p.tail.nodup, ?_, fun k hk slot hslot h hfirst => ?_⟩
  · rw [← hset]
    refine p.replays.tagMethod rfl hends fun k hk => ⟨p.ne_of_dropped hk, ?_⟩
    rintro rfl
    obtain ⟨slot, hslot⟩ := (p.dropped _ hk).2
    simp [g.slot?_method_append_tag] at hslot
  · have hdescends := Head.descends_tagMethod u.tag True hname (some recv) before after
    rw [← hold, ← hnew] at hdescends
    exact p.descends.trans hdescends
  · rw [hdropped]
    exact p.tail.dropped
  · refine p.tail.first k hk slot hslot h ?_
    rw [← hfirst, hold, hnew]
    refine Head.first?_replace ?_ ?_ before after
    · rw [← hhead, hkey]
      simpa using Ne.symm (p.ne_of_mem hk)
    · intro hc
      obtain ⟨recv', name', heq, -, rfl⟩ := Head.method_of_key? hc rfl
      obtain ⟨-, rfl⟩ := Head.method.inj heq
      simp [g.slot?_method_append_tag] at hslot

theorem Pass.step {u : UnitTag} {res res' : Resolution} (g : Footing m u.tag os)
    (p : Pass m u.tag os taken unit true ((key, kind) :: entries) res.decls res.decisions)
    (hstep : Resolves m u key kind res res') :
    Pass m u.tag os taken unit true entries res'.decls res'.decisions := by
  cases hstep with
  | keep h => exact p.tail
  | drop meet h => exact p.remove g meet.slot?_eq rfl
  | widen meet fields h => exact p.tail
  | rename meet reason h hkind =>
    exact absurd ((p.kinds (key, kind) List.mem_cons_self).2 rfl) hkind
  | renameMethod meet reason h hkind => exact p.tagMethod g meet reason

/-! ## The names that a unit begins with -/

/-- Renamings that append a tag act on the declared names as one function that appends tags. -/
theorem exists_plain?_renameSeq {rs : List Renaming} (hrs : ∀ r ∈ rs, r.Tags tag)
    (decls : List Decl) :
    ∃ φ : String → String, (∀ name, ∃ n, φ name = tagged tag name n) ∧
      (Decl.headsAll (Decl.renameSeq rs decls)).filterMap Head.plain? =
        ((Decl.headsAll decls).filterMap Head.plain?).map φ := by
  induction rs generalizing decls with
  | nil => exact ⟨id, fun name => ⟨0, rfl⟩, by simp [Decl.renameSeq]⟩
  | cons r rs ih =>
    obtain ⟨hr, hrs⟩ := List.forall_mem_cons.1 hrs
    obtain ⟨φ, hφ, hnames⟩ := ih hrs (Decl.renameAll r decls)
    obtain ⟨-, n, hnew⟩ := hr
    refine ⟨φ ∘ r.apply .root, fun name => ?_, ?_⟩
    · obtain ⟨k, hk, -⟩ := Head.exists_apply_eq_tagged hnew .root name
      obtain ⟨n', hn'⟩ := hφ (tagged tag name k)
      exact ⟨k + n', by rw [Function.comp_apply, hk, hn', tagged_tagged]⟩
    · rw [Decl.plain?_headsAll_renameAll, List.map_map] at hnames
      exact hnames

theorem apart_renameSeq {rs : List Renaming} (hrs : ∀ r ∈ rs, r.Tags tag)
    (hfresh : ∀ h ∈ Decl.headsAll decls, h.Fresh tag)
    (hempty : ∀ h ∈ Decl.headsAll decls, "" ∉ h.parts) :
    Apart tag ((Decl.headsAll (Decl.renameSeq rs decls)).filterMap Head.plain?) := by
  obtain ⟨φ, hφ, hnames⟩ := exists_plain?_renameSeq hrs decls
  have hpart : ∀ name ∈ (Decl.headsAll decls).filterMap Head.plain?,
      ¬EndsWith tag name ∧ name ≠ "" := by
    intro name hname
    obtain ⟨h, hh, hplain⟩ := List.mem_filterMap.1 hname
    have hmem := Head.mem_parts_of_plain? hplain
    refine ⟨(hfresh h hh name hmem).1, ?_⟩
    rintro rfl
    exact hempty h hh hmem
  rw [hnames]
  intro name hname
  obtain ⟨o, ho, rfl⟩ := List.mem_map.1 hname
  obtain ⟨n, hn⟩ := hφ o
  refine ⟨?_, fun other hother heq => ?_⟩
  · rw [hn]
    exact tagged_ne_empty (hpart o ho).2 n
  · obtain ⟨o', ho', rfl⟩ := List.mem_map.1 hother
    obtain ⟨n', hn'⟩ := hφ o'
    rw [hn, hn', ← tagged_succ] at heq
    obtain ⟨rfl, rfl⟩ := tagged_inj (hpart o ho).1 (hpart o' ho').1 heq
    -- One name would have got different numbers of tags.
    have hsame := (tagged_inj (hpart o ho).1 (hpart o ho).1 (hn.symm.trans hn')).2
    omega

/-! ## Import groups -/

/-- A merger and one that has nothing but import groups in addition, at the end. -/
def GrowsByImports (m m' : Merger) : Prop :=
  ∃ n, m'.decls.map Decl.isImport = m.decls.map Decl.isImport ++ List.replicate n true

theorem map_isImport_modify {f : Decl → Decl} (hf : ∀ d, (f d).isImport = d.isImport) (i : Nat)
    (decls : List Decl) : (decls.modify i f).map Decl.isImport = decls.map Decl.isImport := by
  induction decls generalizing i with
  | nil => cases i <;> rfl
  | cons d ds ih =>
    cases i with
    | zero => simp [hf]
    | succ i => simp [ih]

theorem GrowsByImports.refl (m : Merger) : GrowsByImports m m :=
  ⟨0, by simp⟩

theorem GrowsByImports.trans {m₁ m₂ m₃ : Merger} (h : GrowsByImports m₁ m₂)
    (h' : GrowsByImports m₂ m₃) :
    GrowsByImports m₁ m₃ := by
  obtain ⟨n, hn⟩ := h
  obtain ⟨n', hn'⟩ := h'
  exact ⟨n + n', by rw [hn', hn, List.append_assoc, List.replicate_append_replicate]⟩

theorem growsByImports_addImport (m : Merger) (spec : ImportSpec) :
    GrowsByImports m (m.addImport spec) := by
  unfold addImport
  split
  · refine ⟨0, ?_⟩
    rw [List.replicate_zero, List.append_nil]
    refine map_isImport_modify (fun d => ?_) _ _
    cases d <;> rfl
  · exact ⟨1, by simp [Decl.isImport]⟩

theorem Accepts.growsByImports {m next : Merger} (h : Accepts m next) : GrowsByImports m next := by
  cases h with
  | same => exact .refl m
  | added imports spec => exact growsByImports_addImport { m with imports } spec

theorem TakesImport.growsByImports {m m' : Merger} {u : UnitTag} {decls decls' : List Decl}
    {b : Import.Binding} (h : TakesImport m u decls b m' decls') : GrowsByImports m m' := by
  cases h with
  | present => exact .refl m
  | added next h => exact h.growsByImports
  | renamed next h n hb => exact h.growsByImports

theorem Widens.growsByImports {m m' : Merger} {u : UnitTag} {res res' : Resolution} {w : Widening}
    (h : Widens m u res w m' res') : GrowsByImports m m' := by
  cases h with
  | skip h => exact .refl m
  | merge fields source target hfields hsource htarget hstruct =>
    refine ⟨0, ?_⟩
    rw [List.replicate_zero, List.append_nil]
    cases w.canonical with
    | func i => rfl
    | value i j k => rfl
    | type i j =>
      refine map_isImport_modify (fun d => ?_) _ _
      cases d <;> rfl

/-- Imports and widenings add nothing but import groups. -/
theorem UnitRun.growsByImports_widened {m final : Merger} {u : UnitTag} {file : SourceFile}
    (run : UnitRun m u file final) : GrowsByImports m run.widened := by
  have himported : GrowsByImports m run.imported := by
    have h : GrowsByImports m (m.takeImports u file.decls run.bindings).1 :=
      takeImports_run (P := fun m' _ => GrowsByImports m m') (.refl m) fun _ _ _ _ _ _ h hstep =>
        h.trans hstep.growsByImports
    rwa [run.imported_eq] at h
  exact himported.trans (widenAll_run (P := fun _ m' _ => GrowsByImports run.imported m')
    (fun _ _ _ _ _ _ h hstep => h.trans hstep.growsByImports) (.refl _) run.widened_eq)

theorem GrowsByImports.withoutImports_drop {m m' : Merger} (h : GrowsByImports m m')
    (hdecls : ∀ d ∈ decls, d.isImport = false) :
    Decl.withoutImports ((m'.decls ++ decls).drop m.decls.length) = decls := by
  obtain ⟨n, hn⟩ := h
  have hlength : m.decls.length ≤ m'.decls.length := by
    have h := congrArg List.length hn
    simp only [List.length_map, List.length_append] at h
    omega
  have hdrop : (m'.decls.drop m.decls.length).map Decl.isImport = List.replicate n true := by
    rw [List.map_drop, hn, ← List.length_map (f := Decl.isImport), List.drop_left]
  have hnone : Decl.withoutImports (m'.decls.drop m.decls.length) = [] := by
    refine List.filter_eq_nil_iff.2 fun d hd => ?_
    have hmem := List.mem_map_of_mem (f := Decl.isImport) hd
    rw [hdrop] at hmem
    simp [List.eq_of_mem_replicate hmem]
  have hall : Decl.withoutImports decls = decls :=
    List.filter_eq_self.2 fun d hd => by simp [hdecls d hd]
  rw [List.drop_append_of_le_length hlength, Decl.withoutImports, List.filter_append]
  rw [Decl.withoutImports] at hnone hall
  rw [hnone, hall, List.nil_append]

/-! ## Units -/

/-- The decisions about imports name no method and take nothing out. -/
theorem methods_dropped_of_isImport (h : ∀ d ∈ taken, d.action.isImport = true) :
    Decision.methods taken = [] ∧ Decision.dropped taken = [] := by
  constructor
  · refine List.filterMap_eq_nil_iff.2 fun d hd => ?_
    have himport := h d hd
    cases haction : d.action <;> simp_all [Action.isImport, Action.method?]
  · refine List.filterMap_eq_nil_iff.2 fun d hd => ?_
    have himport := h d hd
    cases haction : d.action <;> simp_all [Action.isImport, Action.dropped?]

/-- Before the passes the unit is renamed as its imports require. -/
theorem plainPass_start (hreg : ∀ d ∈ decls, d.Regular)
    (hdescends : Head.Descends tag True os (Decl.headsAll decls))
    (himport : ∀ d ∈ taken, d.action.isImport = true)
    (hdecls : decls = Decl.renameSeq (Decision.renamings taken) unit) :
    PlainPass m tag os taken unit ((Decl.headsAll decls).filterMap Head.plain?) (plainEntries decls)
      decls [] := by
  obtain ⟨hmethods, hdropped⟩ := methods_dropped_of_isImport himport
  refine ⟨⟨⟨?_, by simp⟩, hdescends, ?_, nodup_plainEntries decls, ?_, ?_⟩, ?_, ?_, ?_, by simp⟩
  · simp [Decl.replay, hmethods, hdropped, Decl.removeAll, hdecls]
  · intro e he
    have hkind := (List.mem_filter.1 he).2
    simpa using hkind
  · simp [hdropped]
  · intro k hk slot _ h hfirst
    obtain ⟨b, hb, hplain⟩ := (mem_plainEntries_iff hreg).1 hk
    rw [hb, Option.some.injEq] at hfirst
    rwa [← hfirst]
  · rwa [List.append_nil]
  · simp [hdropped]
  · intro k hk
    obtain ⟨b, hb, hplain⟩ := (mem_plainEntries_iff hreg).1 hk
    obtain ⟨hmem, hkey⟩ := Head.mem_of_first? hb
    exact List.mem_filterMap.2 ⟨b, hmem, (Head.plain?_of_key? hkey hplain).1⟩

/-- Between the passes the methods of the unit become pending. -/
theorem PlainPass.methodPass (p : PlainPass m tag os taken unit names [] decls decisions)
    (hreg : ∀ d ∈ decls, d.Regular) :
    Pass m tag os taken unit true (methodEntries decls) decls decisions := by
  refine ⟨p.replays, p.descends, ?_, nodup_methodEntries decls,
    fun k hk => ⟨?_, (p.dropped k hk).2⟩, ?_⟩
  · intro e he
    have hkind := (List.mem_filter.1 he).2
    simpa using hkind
  · intro hpending
    obtain ⟨b, hb, hmethod⟩ := (mem_methodEntries_iff hreg).1 hpending
    exact (p.fresh k hk).2 (Head.dotted_of_isMethod (Head.mem_of_first? hb).2 hmethod)
  · intro k hk slot _ h hfirst
    obtain ⟨b, hb, hmethod⟩ := (mem_methodEntries_iff hreg).1 hk
    rw [hb, Option.some.injEq] at hfirst
    rwa [← hfirst]

/-- What is left of a unit is what its decisions make of it. -/
theorem UnitRun.replays {final : Merger} {u : UnitTag} {file : SourceFile}
    (run : UnitRun m u file final) (hagrees : m.Agrees)
    (hnodup : (Decl.keys file.decls).Nodup) (hreg : ∀ d ∈ file.decls, d.Regular)
    (hout : ∀ h ∈ Decl.headsAll m.decls, h.Fresh u.tag)
    (hunit : ∀ h ∈ Decl.headsAll file.decls, h.Fresh u.tag)
    (hempty : ∀ h ∈ Decl.headsAll file.decls, "" ∉ h.parts) :
    ∃ taken, m.newDecisions final = taken ++ run.left.decisions ∧
      (∀ d ∈ taken, d.action.isImport = true) ∧
      Replays u.tag taken (Decl.withoutImports file.decls) run.left.decls run.left.decisions := by
  obtain ⟨taken, htaken, hdecls, himport, htags⟩ := run.exists_taken
  have hnew := run.newDecisions_eq htaken
  have hsame := run.sameSlots_imported
  have g : Footing run.imported u.tag (Decl.headsAll file.decls) :=
    ⟨hsame.agrees hagrees, by rwa [hsame.heads], hunit, by rwa [← Decl.keys_eq]⟩
  have hheads : Decl.headsAll (Decl.withoutImports run.decls) =
      Decl.headsAll (Decl.renameSeq (Decision.renamings taken) file.decls) := by
    rw [Decl.headsAll_withoutImports, hdecls]
  have hreg₀ : ∀ d ∈ Decl.withoutImports run.decls, d.Regular := by
    rw [hdecls]
    exact Decl.regular_withoutImports (Decl.regular_renameSeq hreg _)
  have hdescends : Head.Descends u.tag True (Decl.headsAll file.decls)
      (Decl.headsAll (Decl.withoutImports run.decls)) := by
    rw [hheads]
    exact descends_renameSeq htags (fun _ => trivial) file.decls
  have hnames : Apart u.tag
      ((Decl.headsAll (Decl.withoutImports run.decls)).filterMap Head.plain?) := by
    rw [hheads]
    exact apart_renameSeq htags hunit hempty
  -- The two passes, and the widenings after them.
  have hplain := resolveAll_run (P := fun entries res => PlainPass run.imported u.tag _ taken
    (Decl.withoutImports file.decls) _ entries res.decls res.decisions)
    (fun _ _ _ _ _ p hstep => p.step g hnames hstep)
    (plainPass_start hreg₀ hdescends himport (by rw [hdecls, Decl.withoutImports_renameSeq]))
    run.plain_eq
  have hmethods := resolveAll_run (P := fun entries res => Pass run.imported u.tag _ taken
    (Decl.withoutImports file.decls) true entries res.decls res.decisions)
    (fun _ _ _ _ _ p hstep => p.step g hstep)
    (hplain.methodPass (regular_resolveAll hreg₀ run.plain_eq)) run.methods_eq
  have hleft := widenAll_run (P := fun _ _ res => Replays u.tag taken
    (Decl.withoutImports file.decls) res.decls res.decisions)
    (fun w ws m res m' res' h hstep => by
      cases hstep with
      | skip hskip => exact h
      | merge => exact h.remove rfl)
    hmethods.replays run.widened_eq
  exact ⟨taken, hnew, himport, hleft⟩

/-- What a unit appends is the unit under its own decisions, and it refers to no name that was given
up. A method stays on such a name only if it binds the name in its own signature. For this the
unit's keys are distinct, no name that declares something, and no receiver, ends with the tag or has
a dot in it, and no such name in the unit is empty. -/
theorem Reachable.appended_block {m final : Merger} {file : SourceFile} {tag : String}
    (hm : m.Reachable) (hunit : (Decl.keys file.decls).Nodup)
    (hregular : ∀ d ∈ file.decls, d.Regular) (hout : ∀ h ∈ Decl.headsAll m.decls, h.Fresh tag)
    (hfresh : ∀ h ∈ Decl.headsAll file.decls, h.Fresh tag)
    (hempty : ∀ h ∈ Decl.headsAll file.decls, "" ∉ h.parts)
    (hmerge : m.merge file tag = (final, none)) :
    let block := Decl.withoutImports (final.decls.drop m.decls.length)
    block = Decl.replay tag (m.newDecisions final) (Decl.withoutImports file.decls) ∧
      ∀ d ∈ m.newDecisions final, ∀ old new reason, d.action = .renamed old new reason →
        old ∉ Decl.freeAll block ∧
          ∀ f, Decl.func f ∈ block → f.receiverName? = some old → old ∈ f.signatureNames := by
  intro block
  obtain ⟨-, ⟨run⟩⟩ := exists_run_of_merge hmerge
  obtain ⟨taken, hnew, himport, hreplays⟩ :=
    run.replays hm.agrees hunit hregular hout hfresh hempty
  have hnew : m.newDecisions final = taken ++ run.left.decisions := hnew
  have hblock : block = run.left.decls := by
    refine (congrArg (fun ds => Decl.withoutImports (ds.drop m.decls.length)) run.decls_eq).trans
      (run.growsByImports_widened.withoutImports_drop ?_)
    rw [hreplays.decls_eq]
    refine Decl.isImport_replay fun d hd => ?_
    simpa using (List.mem_filter.1 hd).2
  rw [hblock, hnew]
  refine ⟨hreplays.decls_eq, fun d hd old new reason haction => ?_⟩
  have hd : d ∈ run.left.decisions := by
    refine (List.mem_append.1 hd).resolve_left fun htaken => ?_
    have h := himport d htaken
    simp [haction, Action.isImport] at h
  have hold : old ∉ Decl.freeAll run.left.decls :=
    (hreplays.clean ⟨old, new⟩ (List.mem_filterMap.2 ⟨d, hd, by rw [haction]; rfl⟩)).2
  refine ⟨hold, fun f hf hrecv => FuncDecl.mem_signatureNames hrecv fun hfree => ?_⟩
  exact hold (List.mem_flatMap.2 ⟨.func f, hf, hfree⟩)

/-- A duplicate, a method that differs, and a type that differs with a method of its own. -/
theorem appended_block_conflict :
    let m := ((start "out").merge
      ⟨"a", [.ofType "S" (.structType [] false), .ofMethod (.ident "S") "M",
        .ofType "T" (.structType [] false)]⟩ "A").1
    let file : SourceFile :=
      ⟨"b", [.ofType "S" (.structType [] false), .ofMethod (.star (.ident "S")) "M",
        .ofMethod (.ident "T") "N", .ofType "T" (.ident "int")]⟩
    let final := (m.merge file "B").1
    let block := Decl.withoutImports (final.decls.drop m.decls.length)
    Decl.headsAll block = [.method (some "S") "MB", .method (some "TB") "N", .type "TB" false] ∧
      block = Decl.replay "B" (m.newDecisions final) (Decl.withoutImports file.decls) := by
  intro m file final block
  have hm : m.Reachable := .merge _ _ (.start "out")
  exact ⟨by decide, (Reachable.appended_block hm (by decide) (by decide) (by decide) (by decide)
    (by decide) (Prod.ext rfl (by decide : (m.merge file "B").2 = none))).1⟩

/-- The generic type `T` is renamed, but its method `func (x *T[T]) M()`, which binds the name `T`
itself, stays on the type of that name that was there before. -/
theorem exists_receiver_left_behind :
    ∃ (m : Merger) (file : SourceFile) (tag : String), m.Reachable ∧
      (Decl.keys file.decls).Nodup ∧ (∀ d ∈ file.decls, d.Regular) ∧
      (∀ h ∈ Decl.headsAll m.decls ++ Decl.headsAll file.decls, h.Fresh tag ∧ "" ∉ h.parts) ∧
      (m.merge file tag).2 = none ∧
      ∃ d ∈ m.newDecisions (m.merge file tag).1, ∃ old new reason,
        d.action = .renamed old new reason ∧ ∃ f, f.receiverName? = some old ∧
          Decl.func f ∈ Decl.withoutImports ((m.merge file tag).1.decls.drop m.decls.length) := by
  refine ⟨((start "out").merge ⟨"a", [.ofType "T" (.ident "int")]⟩ "A").1,
    ⟨"b", [.group ⟨.type, [.type ⟨"T", some [⟨["P"], .ident "any", none⟩], false,
      .structType [⟨["X"], .ident "P", none⟩] false⟩], false⟩,
      .ofMethod (.star (.index (.ident "T") (.ident "T"))) "M"]⟩, "B", .merge _ _ (.start "out"),
    by decide, by decide, by decide, by decide, _, List.mem_cons_self, "T", "TB", _, rfl,
    ⟨some [⟨["x"], .star (.index (.ident "T") (.ident "T")), none⟩], "M", ⟨none, [], none⟩,
      some []⟩,
    rfl, ?_⟩
  exact List.mem_cons_of_mem _ List.mem_cons_self

end Merger

end GoWeave
