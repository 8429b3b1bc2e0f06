import GoWeave.Proofs.Declaration.Descent
import GoWeave.Proofs.Merge.Registry
import Mathlib.Data.List.Nodup

/-!
# Uniqueness of keys

A merge keeps the keys of the accumulated declarations distinct. What is left of a unit has distinct
keys, since its heads descend from the unit's own heads. None of them is registered: a declaration
whose key is registered is dropped, widens the registered struct, or gets a tag, and no registered
name ends with the tag. Until then the key is pending: still to be resolved, or to be widened.
-/
namespace GoWeave

namespace Merger

/-- The tag is fresh, and it has no dot in it. -/
structure Ground (m : Merger) (tag : String) (os : List Head) : Prop extends Footing m tag os where
  undotted : ¬Dotted tag

/-- A widening that will go through: both sides have a struct under the key. -/
structure Widenable (m : Merger) (hs : List Head) (w : Widening) : Prop where
  slot?_eq : m.slot? w.key = some w.canonical
  canonical : Head.first? w.key (Decl.headsAll m.decls) = some (.type w.key true)
  incoming : .type w.key true ∈ hs

/-- The state of a unit in between: which keys of its declarations may still be registered. These
are the pending keys, the keys to be widened, and the keys of methods if their turn is still to
come. -/
structure Sorted (m : Merger) (tag : String) (os : List Head) (P later : Prop)
    (pending : List String) (ws : List Widening) (decls : List Decl) : Prop where
  regular : ∀ d ∈ decls, d.Regular
  descends : Head.Descends tag P os (Decl.headsAll decls)
  nodup : (pending ++ ws.map (·.key)).Nodup
  widenable : ∀ w ∈ ws, Widenable m (Decl.headsAll decls) w
  clear : ∀ h ∈ Decl.headsAll decls, ∀ key slot, h.key? = some key → m.slot? key = some slot →
    key ∈ pending ∨ key ∈ ws.map (·.key) ∨ later ∧ h.isMethod = true

variable {m : Merger} {tag : String} {os : List Head} {P Q later : Prop} {key : String}
  {pending : List String} {ws : List Widening} {decls : List Decl}

/-! ## Names that are not registered -/

theorem Ground.slot?_append_tag (g : Ground m tag os) {name : String} (hname : ¬Dotted name) :
    m.slot? (name ++ tag) = none := by
  rw [← Option.not_isSome_iff_eq_none, Option.isSome_iff_exists]
  rintro ⟨slot, hslot⟩
  rcases g.registered_cases hslot with ⟨hends, -⟩ | ⟨recv', name', heq, -⟩
  · exact hends (endsWith_append tag name)
  · have hdot : Dotted (name ++ tag) := by simp [heq, dotted_append, dotted_dot]
    rw [dotted_append] at hdot
    exact hdot.elim hname g.undotted

theorem Ground.not_dotted (g : Ground m tag os) {hs : List Head}
    (hdescends : Head.Descends tag P os hs) {h : Head} (hh : h ∈ hs) (hkey : h.key? = some key)
    (hm : h.isMethod = false) : ¬Dotted key := by
  obtain ⟨o, ho, hfrom⟩ := hdescends.exists_from hh
  obtain ⟨name, n, hplain, rfl, -⟩ := hfrom.of_plain_key? hkey hm
  exact not_dotted_tagged g.undotted (g.freshUnit o ho name (Head.mem_parts_of_plain? hplain)).2 n

/-- The first head that bears a key is a method if any is, since only methods have a dot in their
keys. -/
theorem Ground.first?_isMethod (g : Ground m tag os) {hs : List Head}
    (hdescends : Head.Descends tag P os hs) {h : Head} (hh : h ∈ hs) (hkey : h.key? = some key) :
    ∃ b, Head.first? key hs = some b ∧ b.isMethod = h.isMethod := by
  cases hfirst : Head.first? key hs with
  | none => exact absurd hkey (by simpa using List.find?_eq_none.1 hfirst h hh)
  | some b =>
    obtain ⟨hb, hbkey⟩ := Head.mem_of_first? hfirst
    refine ⟨b, rfl, ?_⟩
    cases hm : h.isMethod with
    | true =>
      by_contra hm'
      exact g.not_dotted hdescends hb hbkey (by simpa using hm') (Head.dotted_of_isMethod hkey hm)
    | false =>
      by_contra hm'
      exact g.not_dotted hdescends hh hkey hm (Head.dotted_of_isMethod hbkey (by simpa using hm'))

theorem Sorted.nodup_keys (s : Sorted m tag os P later pending ws decls) (g : Ground m tag os)
    (hinit : P → (os.filterMap Head.plain?).count "init" ≤ 1) : (Decl.keys decls).Nodup := by
  rw [Decl.keys_eq]
  exact s.descends.nodup_keys g.undotted g.freshUnit g.nodup hinit

/-! ## One step -/

theorem Sorted.mono (hPQ : P → Q) (s : Sorted m tag os P later pending ws decls) :
    Sorted m tag os Q later pending ws decls :=
  { s with descends := s.descends.mono hPQ }

/-- A key that no declaration bears any more, or that is not registered, is not pending. -/
theorem Sorted.skip (s : Sorted m tag os P later (key :: pending) ws decls)
    (hkey : key ∈ Decl.keys decls → m.slot? key = none) :
    Sorted m tag os P later pending ws decls := by
  refine { s with
    nodup := (List.nodup_cons.1 s.nodup).2
    clear := fun h hh k slot hk hslot => ?_ }
  rcases s.clear h hh k slot hk hslot with hpending | hrest
  · rcases List.mem_cons.1 hpending with rfl | hpending
    · simp [hkey (Decl.mem_keys_iff.2 ⟨h, hh, hk⟩)] at hslot
    · exact .inl hpending
  · exact .inr hrest

theorem Sorted.widening_ne (s : Sorted m tag os P later (key :: pending) ws decls) {w : Widening}
    (hw : w ∈ ws) : w.key ≠ key := by
  rintro rfl
  exact (List.nodup_cons.1 s.nodup).1 (List.mem_append_right _ (List.mem_map_of_mem hw))

/-- A key that is removed is pending no more. -/
theorem Sorted.remove (s : Sorted m tag os P later (key :: pending) ws decls) (g : Ground m tag os)
    (hinit : P → (os.filterMap Head.plain?).count "init" ≤ 1) (hblank : isBlank key = false) :
    Sorted m tag os P later pending ws (Decl.remove key decls) := by
  have hpruned := Decl.pruned_remove hblank decls
  have hgone : key ∉ Decl.keys (Decl.remove key decls) :=
    Decl.not_mem_keys_remove hblank (List.nodup_iff_count_le_one.1 (s.nodup_keys g hinit) key)
  have hs : Sorted m tag os P later (key :: pending) ws (Decl.remove key decls) := by
    refine ⟨Decl.regular_remove s.regular key, s.descends.trans (hpruned.descends tag P), s.nodup,
      fun w hw => ?_, fun h hh k slot hk hslot => ?_⟩
    · have hwiden := s.widenable w hw
      refine { hwiden with incoming := hpruned.mem_of_ne ?_ (s.widening_ne hw) hwiden.incoming }
      simp [Head.key?, g.agrees.isBlank_eq hwiden.slot?_eq]
    · rcases hpruned.mem_or_blank hh with hh | rfl
      · exact s.clear h hh k slot hk hslot
      · simp [Head.key?, isBlank] at hk
  exact hs.skip fun h => absurd h hgone

/-- A key that gets the tag is pending no more, and neither is the new name. -/
theorem Sorted.rename (s : Sorted m tag os P later (key :: pending) ws decls) (g : Ground m tag os)
    (hinit : key = "init" → P) (hlater : later) (hblank : isBlank key = false)
    (hundotted : ¬Dotted key) :
    Sorted m tag os P later pending ws (Decl.renameAll ⟨key, key ++ tag⟩ decls) := by
  have hrenames := Decl.renames_headsAll ⟨key, key ++ tag⟩ decls
  have hne : key ≠ "_" := by simpa [isBlank] using hblank
  have hdescends : Head.Descends tag P _ _ :=
    Head.descends_of_renames (n := 0) (by simp [tagged_succ]) hne hinit hrenames
  refine ⟨Decl.regular_renameAll s.regular _, s.descends.trans hdescends,
    (List.nodup_cons.1 s.nodup).2, fun w hw => ?_, fun h hh k slot hk hslot => ?_⟩
  · have hwiden := s.widenable w hw
    obtain ⟨c, hc, hr⟩ := Head.mem_of_renames hrenames hwiden.incoming
    rw [hr.eq_of_plain? rfl (s.widening_ne hw)] at hc
    exact { hwiden with incoming := hc }
  · obtain ⟨b, hb, hr⟩ := Head.exists_renames_of_mem hrenames hh
    cases hm : h.isMethod with
    | true => exact .inr (.inr ⟨hlater, rfl⟩)
    | false =>
      obtain ⟨hplain, -⟩ := Head.plain?_of_key? hk hm
      rw [hr.plain?_eq] at hplain
      obtain ⟨name, hname, happly⟩ := Option.map_eq_some_iff.1 hplain
      rw [Renaming.apply_root] at happly
      split at happly
      · -- The new name ends with the tag and is not registered.
        rw [← happly, g.slot?_append_tag hundotted] at hslot
        simp at hslot
      · next hne =>
        rw [hr.eq_of_plain? hname hne] at hk
        rcases s.clear b hb k slot hk hslot with hpending | hws | ⟨-, hb⟩
        · rcases List.mem_cons.1 hpending with rfl | hpending
          · exact absurd happly hne
          · exact .inl hpending
        · exact .inr (.inl hws)
        · rw [← hr.isMethod_eq, hm] at hb
          simp at hb

/-- A method that gets the tag is pending no more, neither under its old key nor under the new. -/
theorem Sorted.tagMethod (s : Sorted m tag os P later (key :: pending) ws decls)
    (g : Ground m tag os) (hinit : P → (os.filterMap Head.plain?).count "init" ≤ 1) {i : Nat}
    {f : FuncDecl} (hi : decls[i]? = some (.func f)) (hf : f.key? = some key)
    (hmethod : f.head.isMethod = true) :
    Sorted m tag os P later pending ws
      (decls.set i (.func { f with name := f.name ++ tag })) := by
  obtain ⟨before, after, hold, hnew⟩ :=
    Decl.split_headsAll_set hi { f with name := f.name ++ tag }
  obtain ⟨hhead, hhead'⟩ := FuncDecl.head_of_method hmethod (f.name ++ tag)
  rw [← FuncDecl.key?_head] at hf
  obtain ⟨recv, name, heq, hname, hkey⟩ := Head.method_of_key? hf hmethod
  obtain ⟨hrecv, rfl⟩ := Head.method.inj (hhead.symm.trans heq)
  rw [hhead', hrecv] at hnew
  rw [heq] at hold
  -- No other head bears the old key.
  have hother : ∀ h ∈ before ++ after, h.key? ≠ some key := by
    have hnodup := s.nodup_keys g hinit
    rw [Decl.keys_eq, hold, List.filterMap_append, List.filterMap_cons, ← heq, hf,
      List.nodup_middle, ← List.filterMap_append, List.nodup_cons] at hnodup
    exact fun h hh hkey => hnodup.1 (List.mem_filterMap.2 ⟨h, hh, hkey⟩)
  have hdescends := Head.descends_tagMethod tag P hname (some recv) before after
  rw [← hold, ← hnew] at hdescends
  refine ⟨Decl.regular_set s.regular i _, s.descends.trans hdescends,
    (List.nodup_cons.1 s.nodup).2, fun w hw => ?_, fun h hh k slot hk hslot => ?_⟩
  · have hwiden := s.widenable w hw
    refine { hwiden with incoming := ?_ }
    have hmem := hwiden.incoming
    rw [hold] at hmem
    rw [hnew]
    simpa using hmem
  · rw [hnew] at hh
    by_cases hnew : h = .method (some recv) (f.name ++ tag)
    · rw [hnew] at hk
      simp only [Head.key?, Option.ite_none_left_eq_some, Option.map_some, Option.some.injEq] at hk
      rw [← hk.2, g.slot?_method_append_tag] at hslot
      simp at hslot
    · have hh : h ∈ before ++ after := by simpa [hnew] using hh
      have hmem : h ∈ Decl.headsAll decls := by
        rw [hold]
        rcases List.mem_append.1 hh with hh | hh
        · exact List.mem_append_left _ hh
        · exact List.mem_append_right _ (List.mem_cons_of_mem _ hh)
      rcases s.clear h hmem k slot hk hslot with hpending | hrest
      · rcases List.mem_cons.1 hpending with rfl | hpending
        · exact absurd hk (hother h hh)
        · exact .inl hpending
      · exact .inr hrest

/-- A struct to be widened is pending no more, since its widening is. -/
theorem Sorted.widen (s : Sorted m tag os P later (key :: pending) ws decls) (g : Ground m tag os)
    (meet : Meeting m decls key) {fields : List String}
    (h : judge meet.canonical meet.incoming = .ok (.widen fields)) :
    Sorted m tag os P later pending (ws ++ [⟨key, meet.canonicalSlot, fields⟩]) decls := by
  obtain ⟨hcanonical, hincoming, -⟩ := judge_widen h
  have hfirst := meet.first?_canonical g.agrees
  have hfirst' := meet.first?_incoming g.agrees
  rw [head_of_isStruct hcanonical (Head.mem_of_first? hfirst).2] at hfirst
  rw [head_of_isStruct hincoming (Head.mem_of_first? hfirst').2] at hfirst'
  refine ⟨s.regular, s.descends, ?_, fun w hw => ?_, fun h hh k slot hk hslot => ?_⟩
  · rw [List.map_append, ← List.append_assoc]
    exact (List.perm_append_singleton key _).nodup_iff.2 s.nodup
  · rcases List.mem_append.1 hw with hw | hw
    · exact s.widenable w hw
    · rw [List.mem_singleton] at hw
      subst hw
      exact ⟨meet.slot?_eq, hfirst, (Head.mem_of_first? hfirst').1⟩
  · rcases s.clear h hh k slot hk hslot with hpending | hws | hlater
    · rcases List.mem_cons.1 hpending with rfl | hpending
      · exact .inr (.inl (by simp))
      · exact .inl hpending
    · exact .inr (.inl (by rw [List.map_append]; exact List.mem_append_left _ hws))
    · exact .inr (.inr hlater)

/-! ## The two passes -/

/-- Decisions that give the name `init` up. -/
def GivesUpInit (decisions : List Decision) : Prop :=
  "init" ∈ (Decision.renamings decisions).map (·.old)

instance (decisions : List Decision) : Decidable (GivesUpInit decisions) :=
  inferInstanceAs (Decidable (_ ∈ _))

theorem GivesUpInit.append {decisions : List Decision} (h : GivesUpInit decisions)
    (more : List Decision) : GivesUpInit (decisions ++ more) := by
  rw [GivesUpInit, Decision.renamings_append, List.map_append]
  exact List.mem_append_left _ h

/-- The unit is sorted as far as the entries, as long as `init` is declared once or kept. -/
def Sorts (m : Merger) (tag : String) (os : List Head) (taken : List Decision) (later : Prop)
    (entries : List (String × DeclKind)) (res : Resolution) : Prop :=
  (GivesUpInit (taken ++ res.decisions) → (os.filterMap Head.plain?).count "init" ≤ 1) →
    Sorted m tag os (GivesUpInit (taken ++ res.decisions)) later (entries.map (·.1)) res.widenings
      res.decls

/-- The kind of an entry fits its key, and a type, value or function comes before the methods. -/
def FitsKey (later : Prop) (e : String × DeclKind) : Prop :=
  if e.2 = .method then Dotted e.1 else ¬Dotted e.1 ∧ later

theorem Sorts.step {u : UnitTag} {taken : List Decision} {kind : DeclKind}
    {entries : List (String × DeclKind)} {res res' : Resolution} (g : Ground m u.tag os)
    (hs : Sorts m u.tag os taken later ((key, kind) :: entries) res)
    (hfits : FitsKey later (key, kind))
    (hstep : Resolves m u key kind res res') : Sorts m u.tag os taken later entries res' := by
  intro hinit
  -- Decisions are only added, so the condition on `init` held before.
  obtain ⟨more, hmore⟩ := hstep.exists_decisions_eq
  have hmono : GivesUpInit (taken ++ res.decisions) → GivesUpInit (taken ++ res'.decisions) := by
    rw [hmore, ← List.append_assoc]
    exact fun h => h.append more
  have s := (hs fun h => hinit (hmono h)).mono hmono
  cases hstep with
  | keep hempty =>
    refine s.skip fun hkey => ?_
    cases hslot : m.slot? key with
    | none => rfl
    | some slot =>
      obtain ⟨meet⟩ := g.agrees.exists_meeting hslot hkey
      exact (hempty.false meet).elim
  | drop meet h =>
    exact s.remove g hinit (g.agrees.isBlank_eq meet.slot?_eq)
  | widen meet fields h => exact s.widen g meet h
  | rename meet reason h hkind =>
    rw [FitsKey, if_neg hkind] at hfits
    refine s.rename g (fun hkey => ?_) hfits.2 (g.agrees.isBlank_eq meet.slot?_eq)
      hfits.1
    have hkey : key = "init" := hkey
    simp [GivesUpInit, Action.renaming?, UnitTag.decide, hkey]
  | renameMethod meet reason h hkind =>
    rw [FitsKey, if_pos hkind] at hfits
    obtain ⟨hmem, hkey⟩ := Head.mem_of_first? (meet.first?_incoming g.agrees)
    have hmethod : meet.incoming.head.isMethod = true := by
      by_contra hm
      exact g.not_dotted s.descends hmem hkey (by simpa using hm) hfits
    obtain ⟨i, f, hslot, hi, hincoming⟩ := meet.exists_func hmethod
    rw [hincoming, Declared.head] at hkey hmethod
    rw [FuncDecl.key?_head] at hkey
    rw [hslot, renameMethod_eq hi] at s hinit ⊢
    exact s.tagMethod g hinit hi hkey hmethod

theorem Sorts.resolveAll {u : UnitTag} {taken : List Decision} (g : Ground m u.tag os)
    {entries : List (String × DeclKind)} {res res' : Resolution}
    (hs : Sorts m u.tag os taken later entries res) (hfits : ∀ e ∈ entries, FitsKey later e)
    (h : m.resolveAll u entries res = .ok res') : Sorts m u.tag os taken later [] res' := by
  refine (resolveAll_run (P := fun entries res => (∀ e ∈ entries, FitsKey later e) ∧
    Sorts m u.tag os taken later entries res) ?_ ⟨hfits, hs⟩ h).2
  rintro key kind entries res res' ⟨hfits, hs⟩ hstep
  exact ⟨fun e he => hfits e (List.mem_cons_of_mem _ he),
    hs.step g (hfits _ List.mem_cons_self) hstep⟩

/-- Between the passes the methods of the unit become pending. -/
theorem Sorted.methods (s : Sorted m tag os P True [] ws decls) (g : Ground m tag os) :
    Sorted m tag os P False ((methodEntries decls).map (·.1)) ws decls := by
  refine { s with nodup := ?_, clear := ?_ }
  · rw [List.nodup_append]
    refine ⟨nodup_methodEntries decls, by simpa using s.nodup, ?_⟩
    rintro k hk k' hk' rfl
    obtain ⟨h, hfirst, hm⟩ := (mem_methodEntries_iff s.regular).1 hk
    obtain ⟨w, hw, rfl⟩ := List.mem_map.1 hk'
    have hwiden := s.widenable w hw
    refine g.not_dotted s.descends hwiden.incoming ?_ rfl
      (Head.dotted_of_isMethod (Head.mem_of_first? hfirst).2 hm)
    simp [Head.key?, g.agrees.isBlank_eq hwiden.slot?_eq]
  · intro h hh k slot hk hslot
    rcases s.clear h hh k slot hk hslot with hpending | hws | ⟨-, hm⟩
    · simp at hpending
    · exact .inr (.inl hws)
    · obtain ⟨b, hfirst, hb⟩ := g.first?_isMethod s.descends hh hk
      exact .inl ((mem_methodEntries_iff s.regular).2 ⟨b, hfirst, hb.trans hm⟩)

/-- Before the passes the types, values and functions are pending. -/
theorem Ground.sorted (g : Ground m tag os) (hreg : ∀ d ∈ decls, d.Regular)
    (hdescends : Head.Descends tag P os (Decl.headsAll decls)) :
    Sorted m tag os P True ((plainEntries decls).map (·.1)) [] decls := by
  refine ⟨hreg, hdescends, by simpa using nodup_plainEntries decls, by simp, ?_⟩
  intro h hh k slot hk hslot
  cases hm : h.isMethod with
  | true => exact .inr (.inr ⟨trivial, rfl⟩)
  | false =>
    obtain ⟨b, hfirst, hb⟩ := g.first?_isMethod hdescends hh hk
    exact .inl ((mem_plainEntries_iff hreg).2 ⟨b, hfirst, hb.trans hm⟩)

theorem fitsKey_plainEntries (g : Ground m tag os) (hreg : ∀ d ∈ decls, d.Regular)
    (hdescends : Head.Descends tag P os (Decl.headsAll decls)) :
    ∀ e ∈ plainEntries decls, FitsKey True e := by
  intro e he
  obtain ⟨h, hfirst, hm⟩ := (mem_plainEntries_iff hreg).1 (List.mem_map_of_mem he)
  obtain ⟨hh, hkey⟩ := Head.mem_of_first? hfirst
  have hkind : e.2 ≠ .method := by simpa using (List.mem_filter.1 he).2
  rw [FitsKey, if_neg hkind]
  exact ⟨g.not_dotted hdescends hh hkey hm, trivial⟩

theorem fitsKey_methodEntries (hreg : ∀ d ∈ decls, d.Regular) :
    ∀ e ∈ methodEntries decls, FitsKey False e := by
  intro e he
  obtain ⟨h, hfirst, hm⟩ := (mem_methodEntries_iff hreg).1 (List.mem_map_of_mem he)
  have hkind : e.2 = .method := by simpa using (List.mem_filter.1 he).2
  rw [FitsKey, if_pos hkind]
  exact Head.dotted_of_isMethod (Head.mem_of_first? hfirst).2 hm

/-! ## Widenings -/

theorem exists_structFields? (hblank : isBlank key = false)
    (hfirst : Head.first? key (Decl.headsAll decls) = some (.type key true)) :
    ∃ fields, structFields? decls key = some fields := by
  have hrel := Decl.rel_locate? hblank decls
  rw [hfirst] at hrel
  generalize hlocate : Decl.locate? decls key = slot? at hrel
  cases hrel with
  | some hshows =>
    obtain ⟨found, hfound, hhead⟩ := hshows
    obtain ⟨spec, fields, incomplete, rfl, hty⟩ := exists_struct_of_head hhead
    exact ⟨fields, by simp [structFields?, hlocate, hfound, hty]⟩

/-- The struct that a widening goes to is still there after other widenings. -/
theorem Widenable.exists_target {m' : Merger} {hs : List Head} {w : Widening}
    (hw : Widenable m hs w) (hagrees : m.Agrees) (hsame : SameSlots m m') :
    ∃ target, Decl.typeSpec? m'.decls w.canonical = some target ∧
      target.ty.isStructType = true := by
  have hagrees' := hsame.agrees hagrees
  have hslot : m'.slot? w.key = some w.canonical := by
    rw [slot?, hsame.registry]
    exact hw.slot?_eq
  obtain ⟨found, hfound, -⟩ := hagrees'.snapshot? hslot
  have hfirst := hagrees'.first?_eq hslot hfound
  rw [hsame.heads, hw.canonical, Option.some.injEq] at hfirst
  obtain ⟨spec, fields, incomplete, rfl, hty⟩ := exists_struct_of_head hfirst.symm
  exact ⟨spec, typeSpec?_of_snapshot? hfound, by simp [hty, Expr.isStructType]⟩

/-- A widening that is due goes through, and its key is gone. -/
theorem Sorted.widens {u : UnitTag} {m' m'' : Merger} {res res' : Resolution} {w : Widening}
    (s : Sorted m tag os P later [] (w :: ws) res.decls) (g : Ground m tag os)
    (hinit : P → (os.filterMap Head.plain?).count "init" ≤ 1) (hsame : SameSlots m m')
    (h : Widens m' u res w m'' res') : Sorted m tag os P later [] ws res'.decls := by
  have hw := s.widenable w List.mem_cons_self
  have hblank := g.agrees.isBlank_eq hw.slot?_eq
  cases h with
  | skip hskip =>
    have hkeys := s.nodup_keys g hinit
    rw [Decl.keys_eq] at hkeys
    have hfirst : Head.first? w.key (Decl.headsAll res.decls) = some (.type w.key true) :=
      Head.first?_of_nodup hkeys hw.incoming (by simp [Head.key?, hblank])
    obtain ⟨fields, hfields⟩ := exists_structFields? hblank hfirst
    obtain ⟨target, htarget, hstruct⟩ := hw.exists_target g.agrees hsame
    simp [hskip fields target hfields htarget] at hstruct
  | merge fields source target hfields hsource htarget hstruct =>
    have spending : Sorted m tag os P later [w.key] ws res.decls := by
      refine { s with
        widenable := fun w' hw' => s.widenable w' (List.mem_cons_of_mem w hw')
        clear := fun h hh k slot hk hslot => ?_ }
      rcases s.clear h hh k slot hk hslot with hpending | hws | hlater
      · simp at hpending
      · rcases List.mem_cons.1 hws with rfl | hws
        · exact .inl List.mem_cons_self
        · exact .inr (.inl hws)
      · exact .inr (.inr hlater)
    exact spending.remove g hinit hblank

theorem Sorts.widenAll {u : UnitTag} {taken : List Decision} {m' : Merger} {res res' : Resolution}
    (hs : Sorts m u.tag os taken False [] res) (g : Ground m u.tag os)
    (h : Merger.widenAll u res.widenings m res = .ok (m', res'))
    (hinit : GivesUpInit (taken ++ res'.decisions) →
      (os.filterMap Head.plain?).count "init" ≤ 1) :
    Sorted m u.tag os (GivesUpInit (taken ++ res'.decisions)) False [] [] res'.decls := by
  refine (widenAll_run (P := fun ws m' res => SameSlots m m' ∧
    ((GivesUpInit (taken ++ res.decisions) → (os.filterMap Head.plain?).count "init" ≤ 1) →
      Sorted m u.tag os (GivesUpInit (taken ++ res.decisions)) False [] ws res.decls))
    ?_ ⟨.refl m, hs⟩ h).2 hinit
  rintro w ws m₁ res₁ m₂ res₂ ⟨hsame, hs⟩ hstep
  refine ⟨hsame.trans hstep.sameSlots, fun hinit => ?_⟩
  obtain ⟨-, more, hmore⟩ := hstep.exists_decisions_eq
  have hmono : GivesUpInit (taken ++ res₁.decisions) → GivesUpInit (taken ++ res₂.decisions) := by
    rw [hmore, ← List.append_assoc]
    exact fun h => h.append more
  exact ((hs fun h => hinit (hmono h)).mono hmono).widens g hinit hsame hstep

/-! ## Units -/

/-- If a unit goes through, none of the keys that are left of it is registered, and they are
distinct. -/
theorem UnitRun.sorted {final : Merger} {u : UnitTag} {file : SourceFile}
    (run : UnitRun m u file final) (hagrees : m.Agrees) (hundotted : ¬Dotted u.tag)
    (hout : ∀ h ∈ Decl.headsAll m.decls, h.Fresh u.tag)
    (hunit : ∀ h ∈ Decl.headsAll file.decls, h.Fresh u.tag)
    (hnodup : (Decl.keys file.decls).Nodup) (hreg : ∀ d ∈ file.decls, d.Regular)
    (hinit : GivesUpInit (m.newDecisions final) →
      ((Decl.headsAll file.decls).filterMap Head.plain?).count "init" ≤ 1) :
    Ground run.imported u.tag (Decl.headsAll file.decls) ∧
      Sorted run.imported u.tag (Decl.headsAll file.decls) (GivesUpInit (m.newDecisions final))
        False [] [] run.left.decls := by
  obtain ⟨taken, htaken, hdecls, -, htags⟩ := run.exists_taken
  have hnew := run.newDecisions_eq htaken
  have hsame := run.sameSlots_imported
  have g : Ground run.imported u.tag (Decl.headsAll file.decls) :=
    ⟨⟨hsame.agrees hagrees, by rwa [hsame.heads], hunit, by rwa [← Decl.keys_eq]⟩, hundotted⟩
  have hreg₀ : ∀ d ∈ Decl.withoutImports run.decls, d.Regular := by
    rw [hdecls]
    exact Decl.regular_withoutImports (Decl.regular_renameSeq hreg _)
  have hdescends : Head.Descends u.tag (GivesUpInit taken) (Decl.headsAll file.decls)
      (Decl.headsAll (Decl.withoutImports run.decls)) := by
    rw [Decl.headsAll_withoutImports, hdecls]
    exact descends_renameSeq htags (fun h => h) file.decls
  -- The two passes, and the widenings after them.
  have hplain : Sorts run.imported u.tag (Decl.headsAll file.decls) taken True [] run.plain := by
    refine Sorts.resolveAll g (fun _ => ?_) (fitsKey_plainEntries g hreg₀ hdescends) run.plain_eq
    rw [List.append_nil]
    exact g.sorted hreg₀ hdescends
  have hreg₁ := regular_resolveAll hreg₀ run.plain_eq
  have hmethods : Sorts run.imported u.tag (Decl.headsAll file.decls) taken False [] run.methods :=
    Sorts.resolveAll g (fun hinit => (hplain hinit).methods g) (fitsKey_methodEntries hreg₁)
      run.methods_eq
  rw [hnew] at hinit ⊢
  exact ⟨g, hmethods.widenAll g run.widened_eq hinit⟩

/-- A unit that is merged without an error leaves all keys of the accumulated declarations distinct,
if the unit's own keys are distinct, no name that declares something, and no receiver, ends with the
tag or has a dot in it, the tag has no dot in it either, and a unit that gives up the name `init`
declares it only once. -/
theorem Reachable.nodup_keys_merge {m final : Merger} {file : SourceFile} {tag : String}
    (hm : m.Reachable) (hkeys : (Decl.keys m.decls).Nodup)
    (hunit : (Decl.keys file.decls).Nodup) (hregular : ∀ d ∈ file.decls, d.Regular)
    (hout : ∀ h ∈ Decl.headsAll m.decls, h.Fresh tag)
    (hfresh : ∀ h ∈ Decl.headsAll file.decls, h.Fresh tag) (htag : ¬Dotted tag)
    (hmerge : m.merge file tag = (final, none))
    (hinit : GivesUpInit (m.newDecisions final) →
      ((Decl.headsAll file.decls).filterMap Head.plain?).count "init" ≤ 1) :
    (Decl.keys final.decls).Nodup := by
  obtain ⟨-, ⟨run⟩⟩ := exists_run_of_merge hmerge
  obtain ⟨g, s⟩ := run.sorted hm.agrees htag hout hfresh hunit hregular hinit
  have hsame := run.sameSlots_imported.trans (sameSlots_widenAll run.widened_eq)
  have hfinal : Decl.keys final.decls = Decl.keys m.decls ++ Decl.keys run.left.decls := by
    rw [run.decls_eq]
    simp only [Decl.keys_eq, Decl.headsAll_append, hsame.heads, List.filterMap_append]
  rw [hfinal, List.nodup_append]
  refine ⟨hkeys, s.nodup_keys g hinit, ?_⟩
  rintro key hkey key' hkey' rfl
  obtain ⟨h, hh, hhkey⟩ := Decl.mem_keys_iff.1 hkey'
  obtain ⟨slot, hslot⟩ := (hm.agrees.registered_iff key).2 hkey
  have hslot : run.imported.slot? key = some slot := by
    rw [slot?, run.sameSlots_imported.registry]
    exact hslot
  simpa using s.clear h hh key slot hhkey hslot

/-- A type that conflicts, with a method that conflicts too once it follows its type. -/
theorem nodup_keys_merge_conflict :
    let m := ((start "out").merge
      ⟨"a", [.ofType "T" (.structType [] false), .ofMethod (.ident "T") "M", .ofFunc "init"]⟩ "A").1
    let final := (m.merge
      ⟨"b", [.ofFunc "init", .ofMethod (.ident "T") "M", .ofType "T" (.ident "int")]⟩ "B").1
    Decl.keys final.decls = ["T", "T.M", "TB.M", "TB"] ∧ (Decl.keys final.decls).Nodup := by
  intro m final
  have hm : m.Reachable := .merge _ _ (.start "out")
  exact ⟨by decide, Reachable.nodup_keys_merge hm (by decide) (by decide) (by decide) (by decide)
    (by decide) (by decide) (Prod.ext rfl (by decide : (m.merge _ "B").2 = none)) (by decide)⟩

/-- Without the condition on the tag, or without the one on `init`, keys may repeat: the type `T`
with the tag `.M` takes the key of a method, and two `init` functions take the name that an import
called `init` gets. -/
theorem exists_repeated_key :
    (∃ (m : Merger) (file : SourceFile) (tag : String), m.Reachable ∧
      (Decl.keys m.decls).Nodup ∧ (Decl.keys file.decls).Nodup ∧ (∀ d ∈ file.decls, d.Regular) ∧
      (∀ h ∈ Decl.headsAll m.decls ++ Decl.headsAll file.decls, h.Fresh tag) ∧ tag ≠ "" ∧
      Dotted tag ∧ (m.merge file tag).2 = none ∧ ¬(Decl.keys (m.merge file tag).1.decls).Nodup) ∧
    ∃ (m : Merger) (file : SourceFile) (tag : String), m.Reachable ∧
      (Decl.keys m.decls).Nodup ∧ (Decl.keys file.decls).Nodup ∧ (∀ d ∈ file.decls, d.Regular) ∧
      (∀ h ∈ Decl.headsAll m.decls ++ Decl.headsAll file.decls, h.Fresh tag) ∧ tag ≠ "" ∧
      ¬Dotted tag ∧ (m.merge file tag).2 = none ∧
      ¬(Decl.keys (m.merge file tag).1.decls).Nodup := by
  refine ⟨⟨((start "out").merge
    ⟨"a", [.ofType "T" (.structType [] false), .ofMethod (.ident "T") "M"]⟩ "A").1,
    ⟨"b", [.ofType "T" (.ident "int")]⟩, ".M", .merge _ _ (.start "out"), ?_⟩,
    ((start "out").merge ⟨"a", [.ofImport "init" "x/a"]⟩ "A").1,
    ⟨"b", [.ofImport "init" "x/b", .ofFunc "init", .ofFunc "init"]⟩, "B",
    .merge _ _ (.start "out"), ?_⟩
  · decide
  · decide

end Merger

end GoWeave
