import GoWeave.Proofs.Declaration.Changes

/-!
# Descent of heads

Along a merge every head of a unit descends from one of the unit's original heads, in the same
order: it has the original names with tags appended, unless it has become blank. If the original
names are fresh for the tag, heads that were apart stay apart under all these changes.
-/
namespace GoWeave

namespace Head

/-- A head and one that may become of it. Blank names are never tagged, and `init` functions only
under the condition `P`. -/
inductive From (tag : String) (P : Prop) : Head → Head → Prop
  | type (name : String) (isStruct : Bool) (n : Nat) (hblank : name = "_" → n = 0) :
    From tag P (type name isStruct) (type (tagged tag name n) isStruct)
  | value (name : String) (n : Nat) (hblank : name = "_" → n = 0) :
    From tag P (value name) (value (tagged tag name n))
  | blank (name : String) : From tag P (value name) (value "_")
  | func (name : String) (n : Nat) (hblank : name = "_" → n = 0)
      (hinit : name = "init" → n = 0 ∨ P) :
    From tag P (func name) (func (tagged tag name n))
  | method (recv : Option String) (name : String) (k n : Nat) (hblank : name = "_" → n = 0) :
    From tag P (method recv name) (method (recv.map fun r => tagged tag r k) (tagged tag name n))

variable {tag : String} {P Q : Prop}

theorem From.refl (tag : String) (P : Prop) (h : Head) : From tag P h h := by
  cases h with
  | type name isStruct => exact .type name isStruct 0 fun _ => rfl
  | value name => exact .value name 0 fun _ => rfl
  | func name => exact .func name 0 (fun _ => rfl) fun _ => .inl rfl
  | method recv name =>
    have h : From tag P (.method recv name) (.method (recv.map fun r => tagged tag r 0) name) :=
      .method recv name 0 0 fun _ => rfl
    simpa using h

theorem From.trans {a b c : Head} (hab : From tag P a b) (hbc : From tag P b c) :
    From tag P a c := by
  cases hab with
  | type name isStruct m hm =>
    cases hbc with
    | type _ _ n hn =>
      rw [tagged_tagged]
      refine .type name isStruct (m + n) fun h => ?_
      rw [hm h] at hn ⊢
      rw [hn h]
  | value name m hm =>
    cases hbc with
    | value _ n hn =>
      rw [tagged_tagged]
      refine .value name (m + n) fun h => ?_
      rw [hm h] at hn ⊢
      rw [hn h]
    | blank => exact .blank name
  | blank name =>
    cases hbc with
    | value _ n hn =>
      rw [hn rfl]
      exact .blank name
    | blank => exact .blank name
  | func name m hm hinit =>
    cases hbc with
    | func _ n hn hinit' =>
      rw [tagged_tagged]
      refine .func name (m + n) (fun h => ?_) fun h => ?_
      · rw [hm h] at hn ⊢
        rw [hn h]
      · rcases hinit h with hm | hP
        · rw [hm] at hinit' ⊢
          exact (hinit' h).imp_left fun hn => by rw [hn]
        · exact .inr hP
  | method recv name k m hm =>
    cases hbc with
    | method _ _ k' n hn =>
      rw [tagged_tagged, Option.map_map]
      have hrecv : ((fun r => tagged tag r k') ∘ fun r => tagged tag r k) =
          fun r => tagged tag r (k + k') := by
        funext r
        exact tagged_tagged tag r k k'
      rw [hrecv]
      refine .method recv name (k + k') (m + n) fun h => ?_
      rw [hm h] at hn ⊢
      rw [hn h]

theorem From.mono (hPQ : P → Q) {a b : Head} (h : From tag P a b) : From tag Q a b := by
  cases h with
  | type name isStruct n hblank => exact .type name isStruct n hblank
  | value name n hblank => exact .value name n hblank
  | blank name => exact .blank name
  | func name n hblank hinit => exact .func name n hblank fun h => (hinit h).imp_right hPQ
  | method recv name k n hblank => exact .method recv name k n hblank

/-- The heads `hs` descend, in order, from some of the heads `os`. -/
def Descends (tag : String) (P : Prop) (os hs : List Head) : Prop :=
  List.SublistForall₂ (fun h o => From tag P o h) hs os

theorem Descends.refl (tag : String) (P : Prop) (hs : List Head) : Descends tag P hs hs :=
  List.sublistForall₂_iff.2 ⟨hs, List.forall₂_same.2 fun h _ => From.refl tag P h, .refl hs⟩

theorem Descends.trans {os hs gs : List Head} (h : Descends tag P os hs)
    (h' : Descends tag P hs gs) : Descends tag P os gs :=
  have : IsTrans Head fun h o => From tag P o h := ⟨fun _ _ _ hab hbc => hbc.trans hab⟩
  List.SublistForall₂.is_trans.trans gs hs os h' h

theorem Descends.mono (hPQ : P → Q) {os hs : List Head} (h : Descends tag P os hs) :
    Descends tag Q os hs := by
  unfold Descends at *
  induction h with
  | nil => exact .nil
  | cons h _ ih => exact .cons (h.mono hPQ) ih
  | cons_right _ ih => exact .cons_right ih

theorem Descends.append {os hs os' hs' : List Head} (h : Descends tag P os hs)
    (h' : Descends tag P os' hs') : Descends tag P (os ++ os') (hs ++ hs') := by
  unfold Descends at *
  induction h with
  | @nil os =>
    induction os with
    | nil => exact h'
    | cons o os ih => exact .cons_right ih
  | cons h _ ih => exact .cons h ih
  | cons_right _ ih => exact .cons_right ih

theorem Descends.exists_from {os hs : List Head} (hd : Descends tag P os hs) {h : Head}
    (hh : h ∈ hs) : ∃ o ∈ os, From tag P o h := by
  unfold Descends at hd
  induction hd with
  | nil => simp at hh
  | @cons a o hs os hfrom _ ih =>
    rcases List.mem_cons.1 hh with rfl | hh
    · exact ⟨o, List.mem_cons_self, hfrom⟩
    · obtain ⟨o', ho', hfrom'⟩ := ih hh
      exact ⟨o', List.mem_cons_of_mem o ho', hfrom'⟩
  | @cons_right o hs os _ ih =>
    obtain ⟨o', ho', hfrom'⟩ := ih hh
    exact ⟨o', List.mem_cons_of_mem o ho', hfrom'⟩

/-! ## The changes are descents -/

theorem exists_apply_eq_tagged {r : Renaming} {n : Nat} (hnew : r.new = tagged tag r.old (n + 1))
    (sc : Scope) (name : String) :
    ∃ k, r.apply sc name = tagged tag name k ∧ (k ≠ 0 → name = r.old) := by
  unfold Renaming.apply
  split
  · next h => exact ⟨n + 1, by rw [hnew, h.1], fun _ => h.1⟩
  · exact ⟨0, rfl, fun h => absurd rfl h⟩

theorem Renames.from {r : Renaming} {n : Nat} (hnew : r.new = tagged tag r.old (n + 1))
    (hold : r.old ≠ "_") (hinit : r.old = "init" → P) {h h' : Head} (hr : Renames r h h') :
    From tag P h h' := by
  have hblank : ∀ {name : String} {k : Nat}, (k ≠ 0 → name = r.old) → name = "_" → k = 0 := by
    intro name k hk hname
    by_contra hne
    exact hold ((hk hne).symm.trans hname)
  cases hr with
  | type name isStruct =>
    obtain ⟨k, hk, hname⟩ := exists_apply_eq_tagged hnew .root name
    rw [hk]
    exact .type name isStruct k (hblank hname)
  | value name =>
    obtain ⟨k, hk, hname⟩ := exists_apply_eq_tagged hnew .root name
    rw [hk]
    exact .value name k (hblank hname)
  | func name =>
    obtain ⟨k, hk, hname⟩ := exists_apply_eq_tagged hnew .root name
    rw [hk]
    refine .func name k (hblank hname) fun h => ?_
    by_cases hk0 : k = 0
    · exact .inl hk0
    · exact .inr (hinit ((hname hk0).symm.trans h))
  | method recv name sc =>
    cases recv with
    | none => exact .method none name 0 0 fun _ => rfl
    | some recv =>
      obtain ⟨k, hk, -⟩ := exists_apply_eq_tagged hnew sc recv
      rw [Option.map_some, hk]
      exact .method (some recv) name k 0 fun _ => rfl

theorem descends_of_renames {r : Renaming} {n : Nat} (hnew : r.new = tagged tag r.old (n + 1))
    (hold : r.old ≠ "_") (hinit : r.old = "init" → P) {hs hs' : List Head}
    (h : List.Forall₂ (Renames r) hs hs') : Descends tag P hs hs' := by
  unfold Descends
  induction h with
  | nil => exact .nil
  | cons h _ ih => exact .cons (h.from hnew hold hinit) ih

theorem Pruned.descends {key : String} {hs hs' : List Head} (h : Pruned key hs hs')
    (tag : String) (P : Prop) : Descends tag P hs hs' := by
  unfold Descends
  induction h with
  | nil => exact .nil
  | keep h _ ih => exact .cons (From.refl tag P h) ih
  | drop _ _ ih => exact .cons_right ih
  | blank _ ih => exact .cons (.blank key) ih

theorem descends_tagMethod (tag : String) (P : Prop) {name : String} (hname : name ≠ "_")
    (recv : Option String) (before after : List Head) :
    Descends tag P (before ++ method recv name :: after)
      (before ++ method recv (name ++ tag) :: after) := by
  have hfrom : From tag P (method recv name) (method recv (name ++ tag)) := by
    have h : From tag P (method recv name)
        (method (recv.map fun r => tagged tag r 0) (tagged tag name 1)) :=
      .method recv name 0 1 fun h => absurd h hname
    simpa [tagged_succ] using h
  exact (Descends.refl tag P before).append
    (.cons hfrom (Descends.refl tag P after))

/-! ## Heads that stay apart -/

/-- The names of a head contain no dot and do not end with a tag. -/
def Fresh (tag : String) (h : Head) : Prop :=
  ∀ part ∈ h.parts, ¬EndsWith tag part ∧ ¬Dotted part

instance (tag : String) (h : Head) : Decidable (h.Fresh tag) :=
  inferInstanceAs (Decidable (∀ part ∈ h.parts, _))

theorem From.of_plain_key? {o h : Head} {key : String} (hfrom : From tag P o h)
    (hkey : h.key? = some key) (hm : h.isMethod = false) :
    ∃ name n, o.plain? = some name ∧ key = tagged tag name n ∧
      (o.key? = some name ∨ name = "init" ∧ P) := by
  obtain ⟨hplain, hne⟩ := plain?_of_key? hkey hm
  -- A blank name would still be blank.
  have hblank : ∀ {name : String} {n : Nat}, (name = "_" → n = 0) → tagged tag name n = key →
      isBlank name = false := by
    intro name n hn htagged
    by_contra hb
    have hb : name = "_" := by simpa [isBlank] using hb
    rw [hn hb] at htagged
    exact hne (htagged.symm.trans hb)
  cases hfrom with
  | type name isStruct n hn =>
    have htagged : tagged tag name n = key := Option.some.inj hplain
    exact ⟨name, n, rfl, htagged.symm, .inl (by simp [key?, hblank hn htagged])⟩
  | value name n hn =>
    have htagged : tagged tag name n = key := Option.some.inj hplain
    exact ⟨name, n, rfl, htagged.symm, .inl (by simp [key?, hblank hn htagged])⟩
  | blank name => simp [key?, isBlank] at hkey
  | func name n hn hinit =>
    have htagged : tagged tag name n = key := Option.some.inj hplain
    refine ⟨name, n, rfl, htagged.symm, ?_⟩
    by_cases hname : name = "init"
    · rcases hinit hname with rfl | hP
      · simp [key?, hname] at hkey
      · exact .inr ⟨hname, hP⟩
    · exact .inl (by simp [key?, hblank hn htagged, hname])
  | method recv name k n hn => simp [isMethod] at hm

theorem From.of_method {o : Head} {recv name : String}
    (hfrom : From tag P o (.method (some recv) name)) (hname : name ≠ "_") :
    ∃ recv₀ name₀ k n, o = .method (some recv₀) name₀ ∧ recv = tagged tag recv₀ k ∧
      name = tagged tag name₀ n ∧ o.key? = some (recv₀ ++ "." ++ name₀) := by
  generalize hh : Head.method (some recv) name = h at hfrom
  cases hfrom with
  | type name isStruct n hn => simp at hh
  | value name n hn => simp at hh
  | blank name => simp at hh
  | func name n hn hinit => simp at hh
  | method recv? name₀ k n hn =>
    obtain ⟨hrecv, rfl⟩ := Head.method.inj hh
    obtain ⟨recv₀, rfl, rfl⟩ := Option.map_eq_some_iff.1 hrecv.symm
    have hblank : isBlank name₀ = false := by
      by_contra hb
      have hb : name₀ = "_" := by simpa [isBlank] using hb
      rw [hn hb] at hname
      exact hname hb
    exact ⟨recv₀, name₀, k, n, rfl, rfl, rfl, by simp [key?, hblank]⟩

/-- Heads that descend from different heads have different keys. The names to start with are fresh,
the tag has no dot, and of two functions or other declarations called `init` none is tagged. -/
theorem From.key?_ne {o₁ o₂ h₁ h₂ : Head} (hfrom₁ : From tag P o₁ h₁) (hfrom₂ : From tag P o₂ h₂)
    (htag : ¬Dotted tag) (hfresh₁ : o₁.Fresh tag) (hfresh₂ : o₂.Fresh tag)
    (hapart : ∀ key, o₁.key? = some key → o₂.key? ≠ some key)
    (hinit : P → ¬(o₁.plain? = some "init" ∧ o₂.plain? = some "init")) {key : String}
    (hkey₁ : h₁.key? = some key) : h₂.key? ≠ some key := by
  intro hkey₂
  cases hm₁ : h₁.isMethod with
  | false =>
    obtain ⟨name₁, n₁, hplain₁, rfl, hor₁⟩ := hfrom₁.of_plain_key? hkey₁ hm₁
    obtain ⟨hends₁, hdot₁⟩ := hfresh₁ name₁ (mem_parts_of_plain? hplain₁)
    cases hm₂ : h₂.isMethod with
    | false =>
      obtain ⟨name₂, n₂, hplain₂, heq, hor₂⟩ := hfrom₂.of_plain_key? hkey₂ hm₂
      obtain ⟨rfl, -⟩ := tagged_inj hends₁ (hfresh₂ name₂ (mem_parts_of_plain? hplain₂)).1 heq
      rcases hor₁ with hk₁ | ⟨rfl, hP⟩
      · rcases hor₂ with hk₂ | ⟨rfl, hP⟩
        · exact hapart name₁ hk₁ hk₂
        · exact hinit hP ⟨hplain₁, hplain₂⟩
      · exact hinit hP ⟨hplain₁, hplain₂⟩
    | true => exact not_dotted_tagged htag hdot₁ n₁ (dotted_of_isMethod hkey₂ hm₂)
  | true =>
    obtain ⟨recv₁, name₁, rfl, hname₁, rfl⟩ := method_of_key? hkey₁ hm₁
    cases hm₂ : h₂.isMethod with
    | false =>
      obtain ⟨name₂, n₂, hplain₂, heq, -⟩ := hfrom₂.of_plain_key? hkey₂ hm₂
      have hdot₂ := (hfresh₂ name₂ (mem_parts_of_plain? hplain₂)).2
      exact not_dotted_tagged htag hdot₂ n₂ (heq ▸ dotted_of_isMethod hkey₁ rfl)
    | true =>
      obtain ⟨recv₂, name₂, rfl, hname₂, heq⟩ := method_of_key? hkey₂ hm₂
      obtain ⟨r₁, m₁, k₁, n₁, rfl, rfl, rfl, hk₁⟩ := hfrom₁.of_method hname₁
      obtain ⟨r₂, m₂, k₂, n₂, rfl, rfl, rfl, hk₂⟩ := hfrom₂.of_method hname₂
      obtain ⟨hr₁, hd₁⟩ := hfresh₁ r₁ (by simp [parts])
      obtain ⟨hr₂, hd₂⟩ := hfresh₂ r₂ (by simp [parts])
      obtain ⟨hn₁, -⟩ := hfresh₁ m₁ (by simp [parts])
      obtain ⟨hn₂, he₂⟩ := hfresh₂ m₂ (by simp [parts])
      obtain ⟨hrecv, hname⟩ := qualified_inj (not_dotted_tagged htag hd₂ k₂)
        (not_dotted_tagged htag he₂ n₂) heq
      obtain ⟨rfl, -⟩ := tagged_inj hr₁ hr₂ hrecv
      obtain ⟨rfl, -⟩ := tagged_inj hn₁ hn₂ hname
      exact hapart _ hk₁ hk₂

/-- What holds of any two original heads in order, and passes on to what they become, holds of any
two of the heads that descend from them. -/
theorem Descends.pairwise {os hs : List Head} {R S : Head → Head → Prop}
    (h : Descends tag P os hs) (hR : os.Pairwise R)
    (hRS : ∀ {o₁ h₁ o₂ h₂}, From tag P o₁ h₁ → From tag P o₂ h₂ → R o₁ o₂ → S h₁ h₂) :
    hs.Pairwise S := by
  obtain ⟨os', hfrom, hsub⟩ := List.sublistForall₂_iff.1 h
  have hR := hR.sublist hsub
  clear hsub h
  induction hfrom with
  | nil => exact .nil
  | @cons a o hs os ha hfrom ih =>
    obtain ⟨hhead, htail⟩ := List.pairwise_cons.1 hR
    refine List.pairwise_cons.2 ⟨fun b hb => ?_, ih htail⟩
    obtain ⟨o', ho', hfrom'⟩ :=
      Descends.exists_from (List.sublistForall₂_iff.2 ⟨os, hfrom, .refl os⟩) hb
    exact hRS ha hfrom' (hhead o' ho')

theorem pairwise_of_count_plain? {name : String} {os : List Head}
    (h : (os.filterMap plain?).count name ≤ 1) :
    os.Pairwise fun o₁ o₂ => ¬(o₁.plain? = some name ∧ o₂.plain? = some name) := by
  induction os with
  | nil => exact .nil
  | cons o os ih =>
    rw [List.filterMap_cons] at h
    cases hplain : o.plain? with
    | none =>
      rw [hplain] at h
      exact List.pairwise_cons.2 ⟨fun _ _ hboth => by simp [hplain] at hboth, ih h⟩
    | some n =>
      rw [hplain, List.count_cons] at h
      refine List.pairwise_cons.2 ⟨fun o' ho' hboth => ?_, ih (by omega)⟩
      have hn : n = name := by simpa [hplain] using hboth.1
      have hmem : name ∈ os.filterMap plain? := List.mem_filterMap.2 ⟨o', ho', hboth.2⟩
      have hpos := List.count_pos_iff.2 hmem
      simp only [hn, beq_self_eq_true, if_true] at h
      omega

theorem pairwise_of_nodup_keys {os : List Head} (h : (os.filterMap key?).Nodup) :
    os.Pairwise fun o₁ o₂ => ∀ key, o₁.key? = some key → o₂.key? ≠ some key :=
  (List.pairwise_filterMap.1 h).imp fun hne key h₁ h₂ => hne key h₁ key h₂ rfl

/-- Methods stay apart by receiver and name, whatever the tag. -/
theorem Descends.not_mem_of_method {os hs before after : List Head} (h : Descends tag P os hs)
    (hfresh : ∀ o ∈ os, o.Fresh tag) (hnodup : (os.filterMap key?).Nodup) {recv name : String}
    (hname : name ≠ "_") (hsplit : hs = before ++ .method (some recv) name :: after) :
    Head.method (some recv) name ∉ before ++ after := by
  have hos := List.Pairwise.and_mem.1 (pairwise_of_nodup_keys hnodup)
  have hapart : hs.Pairwise fun h₁ h₂ =>
      ¬(h₁ = .method (some recv) name ∧ h₂ = .method (some recv) name) := by
    refine h.pairwise hos ?_
    rintro o₁ h₁ o₂ h₂ hfrom₁ hfrom₂ ⟨ho₁, ho₂, hne⟩ ⟨rfl, rfl⟩
    obtain ⟨r₁, m₁, k₁, n₁, rfl, hr₁, hm₁, hkey₁⟩ := hfrom₁.of_method hname
    obtain ⟨r₂, m₂, k₂, n₂, rfl, hr₂, hm₂, hkey₂⟩ := hfrom₂.of_method hname
    obtain ⟨rfl, -⟩ := tagged_inj (hfresh _ ho₁ r₁ (by simp [parts])).1
      (hfresh _ ho₂ r₂ (by simp [parts])).1 (hr₁.symm.trans hr₂)
    obtain ⟨rfl, -⟩ := tagged_inj (hfresh _ ho₁ m₁ (by simp [parts])).1
      (hfresh _ ho₂ m₂ (by simp [parts])).1 (hm₁.symm.trans hm₂)
    exact hne _ hkey₁ hkey₂
  rw [hsplit, List.pairwise_append] at hapart
  obtain ⟨-, hafter, hbefore⟩ := hapart
  rw [List.mem_append]
  rintro (hmem | hmem)
  · exact hbefore _ hmem _ List.mem_cons_self ⟨rfl, rfl⟩
  · exact (List.pairwise_cons.1 hafter).1 _ hmem ⟨rfl, rfl⟩

/-- Distinct keys stay distinct. -/
theorem Descends.nodup_keys {os hs : List Head} (h : Descends tag P os hs) (htag : ¬Dotted tag)
    (hfresh : ∀ o ∈ os, o.Fresh tag) (hnodup : (os.filterMap key?).Nodup)
    (hinit : P → (os.filterMap plain?).count "init" ≤ 1) : (hs.filterMap key?).Nodup := by
  have hkeys := pairwise_of_nodup_keys hnodup
  have hapart : os.Pairwise fun o₁ o₂ =>
      P → ¬(o₁.plain? = some "init" ∧ o₂.plain? = some "init") := by
    by_cases hP : P
    · exact (pairwise_of_count_plain? (hinit hP)).imp fun h _ => h
    · exact List.pairwise_of_forall fun _ _ h => absurd h hP
  have hos := List.Pairwise.and_mem.1 (hkeys.and hapart)
  refine List.pairwise_filterMap.2 (h.pairwise hos ?_)
  rintro o₁ h₁ o₂ h₂ hfrom₁ hfrom₂ ⟨ho₁, ho₂, hne, hpair⟩ key hkey₁ key' hkey₂ rfl
  exact From.key?_ne hfrom₁ hfrom₂ htag (hfresh o₁ ho₁) (hfresh o₂ ho₂) hne hpair hkey₁ hkey₂

end Head

end GoWeave
