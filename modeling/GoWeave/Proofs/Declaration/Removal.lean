import GoWeave.Proofs.Declaration.Changes
import Mathlib.Data.List.Nodup

/-!
# Removal and the other keys

What is found under a key can be read off the declarations in one walk, which carries along, in a
group of constants, what a spec without initializers repeats. Removing a key leaves what the walk
finds under every other key, the initializer and the place of `iota` included, and takes the key out
of the list of keys. Declarations in which everything has a key vanish with their keys.
-/
namespace GoWeave

/-! ## One walk -/

/-- The declaration of the name at a position of a value spec, after specs of which the last with
initializers is `before`. -/
def ValueSpec.declaredAt (v : ValueSpec) (tok : Token) (before : Option Expr × List Expr)
    (index i : Nat) (name : String) : Declared :=
  let (ty, source) := if tok = .const ∧ v.values.isEmpty then before else (v.ty, v.values)
  let values :=
    if source.length = v.names.length then
      match source[i]? with
      | some value => [value]
      | none => source
    else source
  .value tok ⟨[name], ty, values⟩
    (if tok = .const ∧ Expr.anyMentions "iota" values then some index else none)

theorem DeclGroup.declaredValue_eq (g : DeclGroup) (index : Nat) (v : ValueSpec) (i : Nat)
    (name : String) :
    g.declaredValue index v i name = v.declaredAt g.tok (g.repeated index) index i name := rfl

namespace Spec

/-- What a spec after this one repeats if it has no initializers. -/
def repeats (before : Option Expr × List Expr) : Spec → Option Expr × List Expr
  | .value v => if v.values.isEmpty then before else (v.ty, v.values)
  | _ => before

/-- The declaration of a key in a spec at an index of its group. -/
def declaredIn? (tok : Token) (before : Option Expr × List Expr) (index : Nat) (key : String) :
    Spec → Option Declared
  | .imported _ => none
  | .type t => if t.name = key then some (.type t) else none
  | .value v => (v.names.idxOf? key).map fun i => v.declaredAt tok before index i key

/-- The first declaration of a key in the specs of a group from an index on. -/
def declaredFrom? (tok : Token) (key : String) (before : Option Expr × List Expr) (index : Nat) :
    List Spec → Option Declared
  | [] => none
  | s :: ss =>
    (s.declaredIn? tok before index key).or
      (declaredFrom? tok key (s.repeats before) (index + 1) ss)

end Spec

/-- The first declaration of a key in a declaration. -/
def Decl.declaredIn? (key : String) : Decl → Option Declared
  | .bad _ => none
  | .func f => if f.key? = some key then some (.func f) else none
  | .group g =>
    if g.tok = .import_ then none else Spec.declaredFrom? g.tok key (none, []) 0 g.specs

theorem DeclGroup.repeated_succ {g : DeclGroup} {front after : List Spec} {s : Spec}
    (h : g.specs = front ++ s :: after) :
    g.repeated (front.length + 1) = s.repeats (g.repeated front.length) := by
  have htake : g.specs.take (front.length + 1) = front ++ [s] := by
    rw [h, List.take_append, List.take_of_length_le (Nat.le_succ _), Nat.add_sub_cancel_left]
    rfl
  have htake' : g.specs.take front.length = front := by rw [h, List.take_left]
  unfold repeated
  rw [htake, htake', List.reverse_append, List.reverse_singleton, List.singleton_append,
    List.findSome?_cons]
  cases s with
  | imported spec => rfl
  | type t => rfl
  | value v =>
    simp only [Spec.repeats]
    cases v.values.isEmpty <;> rfl

theorem Option.rel_findSome? {R : β → γ → Prop} {f : α → Option β} {g : α → Option γ} {xs : List α}
    (h : ∀ x ∈ xs, Option.Rel R (f x) (g x)) :
    Option.Rel R (xs.findSome? f) (xs.findSome? g) := by
  induction xs with
  | nil => exact .none
  | cons x xs ih =>
    have hhead := h x List.mem_cons_self
    have htail := ih fun y hy => h y (List.mem_cons_of_mem x hy)
    rw [List.findSome?_cons, List.findSome?_cons]
    generalize f x = b at hhead ⊢
    generalize g x = c at hhead ⊢
    cases hhead with
    | none => exact htail
    | some hreads => exact .some hreads

namespace Decl

/-- The declaration found under a slot. -/
def ReadsAs (decls : List Decl) (slot : Slot) (found : Declared) : Prop :=
  snapshot? decls slot = some found

variable {decls : List Decl}

theorem rel_declaredIn?_spec (key : String) {g : DeclGroup} {i j : Nat} {s : Spec}
    (hd : decls[i]? = some (.group g)) (hs : g.specs[j]? = some s) :
    Option.Rel (ReadsAs decls) (s.locate? key i j)
      (s.declaredIn? g.tok (g.repeated j) j key) := by
  cases s with
  | imported spec => exact .none
  | type t =>
    simp only [Spec.locate?, Spec.declaredIn?]
    split
    · exact .some (by simp [ReadsAs, snapshot?, typeSpecAt?, hd, hs])
    · exact .none
  | value v =>
    simp only [Spec.locate?, Spec.declaredIn?]
    cases hn : v.names.idxOf? key with
    | none => exact .none
    | some n =>
      obtain ⟨before, after, hnames, rfl, -⟩ := List.split_of_idxOf? hn
      have hget : v.names[before.length]? = some key := by simp [hnames]
      exact .some (by simp [ReadsAs, snapshot?, hd, hs, hget, DeclGroup.declaredValue_eq])

theorem rel_declaredFrom? (key : String) {g : DeclGroup} {i : Nat}
    (hd : decls[i]? = some (.group g)) (front : List Spec) {specs : List Spec}
    (hspecs : g.specs = front ++ specs) :
    Option.Rel (ReadsAs decls)
      ((specs.zipIdx front.length).findSome? fun (s, j) => s.locate? key i j)
      (Spec.declaredFrom? g.tok key (g.repeated front.length) front.length specs) := by
  induction specs generalizing front with
  | nil => exact .none
  | cons s ss ih =>
    have hs : g.specs[front.length]? = some s := by simp [hspecs]
    have hhead := rel_declaredIn?_spec key hd hs
    have htail := ih (front ++ [s]) (by simp [hspecs])
    rw [List.length_append, List.length_singleton, DeclGroup.repeated_succ hspecs] at htail
    rw [List.zipIdx_cons, List.findSome?_cons, Spec.declaredFrom?]
    dsimp only
    generalize s.locate? key i front.length = slot at hhead ⊢
    generalize s.declaredIn? g.tok (g.repeated front.length) front.length key = found at hhead ⊢
    cases hhead with
    | none => exact htail
    | some hreads => exact .some hreads

theorem rel_declaredIn? (key : String) {i : Nat} {d : Decl} (hd : decls[i]? = some d) :
    Option.Rel (ReadsAs decls) (d.locateIn? key i) (d.declaredIn? key) := by
  cases d with
  | bad node => exact .none
  | func f =>
    simp only [locateIn?, declaredIn?]
    split
    · exact .some (by simp [ReadsAs, snapshot?, hd])
    · exact .none
  | group g =>
    simp only [locateIn?, declaredIn?]
    split
    · exact .none
    · exact rel_declaredFrom? key hd [] rfl

/-- What is found under a key is the first declaration of the key in the walk. -/
theorem declared?_eq_findSome? (decls : List Decl) (key : String) :
    declared? decls key = decls.findSome? (declaredIn? key) := by
  have hrel : Option.Rel (ReadsAs decls) (locate? decls key)
      (decls.zipIdx.findSome? fun p => p.1.declaredIn? key) :=
    Option.rel_findSome? fun p hp => rel_declaredIn? key (List.mk_mem_zipIdx_iff_getElem?.1 hp)
  have hfst : decls.findSome? (declaredIn? key) =
      decls.zipIdx.findSome? fun p => p.1.declaredIn? key := by
    conv_lhs => rw [← List.zipIdx_map_fst 0 decls, List.findSome?_map]
    rfl
  rw [hfst, declared?]
  generalize locate? decls key = slot at hrel ⊢
  generalize decls.zipIdx.findSome? _ = found at hrel ⊢
  cases hrel with
  | none => rfl
  | some hreads => exact hreads

end Decl

/-! ## Other keys of a spec -/

theorem List.idxOf?_append [BEq α] (a : α) (xs ys : List α) :
    (xs ++ ys).idxOf? a = (xs.idxOf? a).or ((ys.idxOf? a).map (· + xs.length)) := by
  simp [List.idxOf?, List.findIdx?_append]

theorem List.lt_length_of_idxOf? {key : String} {names : List String} {i : Nat}
    (h : names.idxOf? key = some i) : i < names.length := by
  obtain ⟨before, after, rfl, rfl, -⟩ := List.split_of_idxOf? h
  simp

theorem List.getElem?_of_idxOf? {key : String} {names : List String} {i : Nat}
    (h : names.idxOf? key = some i) : names[i]? = some key := by
  obtain ⟨before, after, rfl, rfl, -⟩ := List.split_of_idxOf? h
  simp

theorem List.idxOf?_eraseIdx {names : List String} {k key : String} {i : Nat}
    (hi : names.idxOf? k = some i) (hne : key ≠ k) :
    (names.eraseIdx i).idxOf? key =
      (names.idxOf? key).map fun j => if j < i then j else j - 1 := by
  obtain ⟨before, after, rfl, rfl, -⟩ := List.split_of_idxOf? hi
  have hk : (k == key) = false := by simpa using hne.symm
  rw [List.eraseIdx_append_of_length_le (Nat.le_refl _), Nat.sub_self, List.eraseIdx_cons_zero,
    List.idxOf?_append, List.idxOf?_append, List.idxOf?_cons, hk]
  cases hbefore : before.idxOf? key with
  | some j => simp [List.lt_length_of_idxOf? hbefore]
  | none =>
    cases after.idxOf? key with
    | none => rfl
    | some j =>
      have hlt : ¬j + 1 + before.length < before.length := by omega
      simp [hlt]

theorem List.idxOf?_set_of_ne {names : List String} {k key new : String} {i : Nat}
    (hi : names.idxOf? k = some i) (hne : key ≠ k) (hnew : key ≠ new) :
    (names.set i new).idxOf? key = names.idxOf? key := by
  obtain ⟨before, after, rfl, rfl, -⟩ := List.split_of_idxOf? hi
  have hk : (k == key) = false := by simpa using hne.symm
  have hn : (new == key) = false := by simpa using hnew.symm
  rw [List.set_append_right _ _ (Nat.le_refl _), Nat.sub_self, List.set_cons_zero,
    List.idxOf?_append, List.idxOf?_append, List.idxOf?_cons, List.idxOf?_cons, hk, hn]

namespace ValueSpec

variable {v : ValueSpec} {tok : Token} {before : Option Expr × List Expr} {index : Nat}

theorem declaredAt_of_paired (hpaired : v.isPaired = true) {j : Nat} {value : Expr}
    (hj : v.values[j]? = some value) (name : String) :
    v.declaredAt tok before index j name = .value tok ⟨[name], v.ty, [value]⟩
      (if tok = .const ∧ Expr.anyMentions "iota" [value] then some index else none) := by
  have hlength : v.values.length = v.names.length := by simpa [isPaired] using hpaired
  have hvalues : v.values ≠ [] := by
    rintro hnil
    simp [hnil] at hj
  simp [declaredAt, hvalues, hlength, hj]

theorem declaredAt_of_isEmpty (htok : tok ≠ .const) (hempty : v.values = []) (j : Nat)
    (name : String) :
    v.declaredAt tok before index j name = .value tok ⟨[name], v.ty, []⟩ none := by
  simp [declaredAt, htok, hempty]

/-- A name goes with its own initializer: the other names keep theirs. -/
theorem declaredAt_eraseIdx (hpaired : v.isPaired = true) {i j : Nat} (hj : j < v.names.length)
    (hne : j ≠ i) (name : String) :
    ValueSpec.declaredAt ⟨v.names.eraseIdx i, v.ty, v.values.eraseIdx i⟩ tok before index
        (if j < i then j else j - 1) name = v.declaredAt tok before index j name := by
  have hlength : v.values.length = v.names.length := by simpa [isPaired] using hpaired
  have hvalue : v.values[j]? = some (v.values[j]) := List.getElem?_eq_getElem (by omega)
  have hvalue' : (v.values.eraseIdx i)[if j < i then j else j - 1]? = v.values[j]? := by
    rw [List.getElem?_eraseIdx]
    split
    · rfl
    · have hle : ¬j - 1 < i := by omega
      rw [if_neg hle]
      congr 1
      omega
  have hpaired' : isPaired ⟨v.names.eraseIdx i, v.ty, v.values.eraseIdx i⟩ = true := by
    simp [isPaired, List.length_eraseIdx, hlength]
  rw [declaredAt_of_paired hpaired hvalue, declaredAt_of_paired hpaired' (hvalue'.trans hvalue)]

/-- Dropping a name leaves the declaration of every other name. Without a pin the initializers are
the spec's own. -/
theorem declaredIn?_dropName {k key : String} {i : Nat} (hi : v.names.idxOf? k = some i)
    (hne : key ≠ k) (hkey : isBlank key = false) {pinned : Bool}
    (hpinned : pinned = false → tok = .const → v.values ≠ []) :
    (Spec.value (v.dropName i pinned)).declaredIn? tok before index key =
      (Spec.value v).declaredIn? tok before index key := by
  unfold dropName
  split
  · next hcut =>
    simp only [Bool.and_eq_true, Bool.not_eq_true', Bool.or_eq_true] at hcut
    obtain ⟨hunpinned, hcut⟩ := hcut
    simp only [Spec.declaredIn?, List.idxOf?_eraseIdx hi hne, Option.map_map]
    refine Option.map_congr fun j hj => ?_
    have hij : j ≠ i := by
      rintro rfl
      have hget := List.getElem?_of_idxOf? hi
      rw [List.getElem?_of_idxOf? hj, Option.some.injEq] at hget
      exact hne hget
    by_cases hpaired : v.isPaired = true
    · rw [if_pos hpaired]
      exact declaredAt_eraseIdx hpaired (List.lt_length_of_idxOf? hj) hij key
    · have hempty : v.values = [] := by simpa [hpaired] using hcut
      have htok : tok ≠ .const := fun htok => hpinned hunpinned htok hempty
      rw [if_neg hpaired, declaredAt_of_isEmpty htok hempty]
      exact declaredAt_of_isEmpty (v := ⟨v.names.eraseIdx i, v.ty, v.values⟩) htok hempty _ key
  · have hblank : key ≠ "_" := by simpa [isBlank] using hkey
    simp only [Spec.declaredIn?, List.idxOf?_set_of_ne hi hne hblank]
    refine Option.map_congr fun j _ => ?_
    simp [declaredAt]

end ValueSpec

/-! ## Other keys of a group -/

namespace Spec

variable {tok : Token} {key : String}

/-- Outside a group of constants neither the index nor what came before matters. -/
theorem declaredFrom?_of_ne_const (htok : tok ≠ .const) (before before' : Option Expr × List Expr)
    (index index' : Nat) (specs : List Spec) :
    declaredFrom? tok key before index specs = declaredFrom? tok key before' index' specs := by
  induction specs generalizing before before' index index' with
  | nil => rfl
  | cons s ss ih =>
    have hhead : s.declaredIn? tok before index key = s.declaredIn? tok before' index' key := by
      cases s with
      | imported spec => rfl
      | type t => rfl
      | value v => simp [declaredIn?, ValueSpec.declaredAt, htok]
    rw [declaredFrom?, declaredFrom?, hhead, ih]

theorem declaredIn?_of_isBlankValue (hkey : isBlank key = false) {s : Spec}
    (hs : s.isBlankValue = true) (before : Option Expr × List Expr) (index : Nat) :
    s.declaredIn? tok before index key = none := by
  cases s with
  | imported spec => rfl
  | type t => simp [isBlankValue] at hs
  | value v =>
    have hmem : key ∉ v.names := by
      intro hmem
      have hblank := List.all_eq_true.1 hs key hmem
      simp [hkey] at hblank
    simp [declaredIn?, List.idxOf?_eq_none_iff.2 hmem]

theorem declaredFrom?_of_all_isBlankValue (hkey : isBlank key = false) {specs : List Spec}
    (h : ∀ s ∈ specs, s.isBlankValue = true) (before : Option Expr × List Expr) (index : Nat) :
    declaredFrom? tok key before index specs = none := by
  induction specs generalizing before index with
  | nil => rfl
  | cons s ss ih =>
    rw [declaredFrom?, declaredIn?_of_isBlankValue hkey (h s List.mem_cons_self),
      ih fun s hs => h s (List.mem_cons_of_mem _ hs)]
    rfl

/-- Taking a key out of the specs of a group leaves the declaration of every other key. In a group
of constants a spec that goes is the last one, and one that stays keeps its initializers. -/
theorem declaredFrom?_withoutAll {k : String} (hne : key ≠ k) (hkey : isBlank key = false)
    {specs : List Spec} (hconst : tok = .const → ∀ s ∈ specs, s.isValue = true)
    (before : Option Expr × List Expr) (index : Nat) :
    declaredFrom? tok key before index (withoutAll k (tok == .const) specs) =
      declaredFrom? tok key before index specs := by
  induction specs generalizing before index with
  | nil => rfl
  | cons s ss ih =>
    have ih := fun before index =>
      ih (fun htok s hs => hconst htok s (List.mem_cons_of_mem _ hs)) before index
    rw [withoutAll]
    cases s with
    | imported spec => rw [without, Option.toList_some, List.singleton_append, declaredFrom?,
        declaredFrom?, ih]
    | type t =>
      have htok : tok ≠ .const := fun htok => by
        simpa [isValue] using hconst htok _ List.mem_cons_self
      rw [without]
      split
      · next hname =>
        have hnone : (Spec.type t).declaredIn? tok before index key = none := by
          simp [declaredIn?, hname, hne.symm]
        rw [Option.toList_none, List.nil_append, ih, declaredFrom?, hnone, Option.none_or]
        exact declaredFrom?_of_ne_const htok _ _ _ _ ss
      · rw [Option.toList_some, List.singleton_append, declaredFrom?, declaredFrom?, ih]
    | value v =>
      rw [without]
      split
      · rw [Option.toList_some, List.singleton_append, declaredFrom?, declaredFrom?, ih]
      · next i hi =>
        generalize hpin : (Spec.value v).isPinned (tok == .const) ss.isEmpty = pinned
        have hlast : tok = .const → pinned = false → ss = [] ∧ v.values ≠ [] := by
          rintro rfl rfl
          simpa [isPinned] using hpin
        have hsame : (Spec.value (v.dropName i pinned)).declaredIn? tok before index key =
            (Spec.value v).declaredIn? tok before index key :=
          ValueSpec.declaredIn?_dropName hi hne hkey fun hp htok => (hlast htok hp).2
        have hrest : ∀ before' index',
            (pinned = true → before' = (Spec.value v).repeats before ∧ index' = index + 1) →
            declaredFrom? tok key before' index' ss =
              declaredFrom? tok key ((Spec.value v).repeats before) (index + 1) ss := by
          intro before' index' h
          by_cases htok : tok = .const
          · cases hp : pinned with
            | true => rw [(h hp).1, (h hp).2]
            | false =>
              rw [(hlast htok hp).1]
              rfl
          · exact declaredFrom?_of_ne_const htok _ _ _ _ ss
        dsimp only
        split
        · rw [Option.toList_some, List.singleton_append, declaredFrom?, declaredFrom?, hsame, ih]
          congr 1
          refine hrest _ _ fun hp => ⟨?_, rfl⟩
          simp [hp, ValueSpec.dropName, repeats]
        · next hgone =>
          simp only [Bool.or_eq_true, Bool.not_eq_true', not_or] at hgone
          have hblank : (Spec.value (v.dropName i pinned)).isBlankValue = true := by
            simpa [isBlankValue] using hgone.2
          rw [Option.toList_none, List.nil_append, ih, declaredFrom?, ← hsame,
            declaredIn?_of_isBlankValue hkey hblank, Option.none_or]
          exact hrest _ _ fun hp => absurd hp hgone.1

end Spec

/-! ## Other keys of a list of declarations -/

namespace Decl

/-- Whether a group of constants holds nothing but values. -/
def ConstsOnly : Decl → Prop
  | .group g => g.tok = .const → ∀ s ∈ g.specs, s.isValue = true
  | _ => True

instance : (d : Decl) → Decidable d.ConstsOnly
  | .group g => inferInstanceAs (Decidable (g.tok = .const → ∀ s ∈ g.specs, s.isValue = true))
  | .bad _ => .isTrue trivial
  | .func _ => .isTrue trivial

theorem bind_declaredIn?_without {k key : String} (hne : key ≠ k) (hkey : isBlank key = false)
    {d : Decl} (hd : d.ConstsOnly) :
    (d.without k).bind (declaredIn? key) = d.declaredIn? key := by
  cases d with
  | bad node => rfl
  | func f =>
    rw [without]
    split
    · next hf => simp [declaredIn?, hf, hne.symm]
    · rfl
  | group g =>
    rw [without]
    split
    · rfl
    · next htok =>
      have hspecs := Spec.declaredFrom?_withoutAll hne hkey hd (none, []) 0
      simp only [declaredIn?, if_neg htok, ← hspecs, DeclGroup.without]
      split
      · next hgone =>
        simp only [Bool.and_eq_true, Bool.or_eq_true, List.isEmpty_iff, List.all_eq_true] at hgone
        rcases hgone.2 with hempty | ⟨-, hblank⟩
        · rw [hempty]
          rfl
        · rw [Spec.declaredFrom?_of_all_isBlankValue hkey hblank]
          rfl
      · exact if_neg htok

/-- Removing a key leaves the declarations of all other keys. -/
theorem declared?_remove {k key : String} (hne : key ≠ k) (hkey : isBlank key = false)
    {decls : List Decl} (h : ∀ d ∈ decls, d.ConstsOnly) :
    declared? (remove k decls) key = declared? decls key := by
  rw [declared?_eq_findSome?, declared?_eq_findSome?]
  induction decls with
  | nil => rfl
  | cons d ds ih =>
    have hd := bind_declaredIn?_without hne hkey (h d List.mem_cons_self)
    have ih := ih fun d hd => h d (List.mem_cons_of_mem _ hd)
    rw [remove_cons, List.findSome?_append, ih, List.findSome?_cons, ← hd]
    cases d.without k with
    | none => rfl
    | some d' =>
      rw [Option.toList_some, List.findSome?_cons, List.findSome?_nil, Option.bind_some]
      cases d'.declaredIn? key <;> rfl

end Decl

/-! ## The list of keys -/

theorem Head.Pruned.filter_entries {key : String} {hs hs' : List Head} (h : Pruned key hs hs') :
    (hs'.filterMap keyed?).filter (·.1 ≠ key) = (hs.filterMap keyed?).filter (·.1 ≠ key) := by
  induction h with
  | nil => rfl
  | keep b _ ih =>
    rw [List.filterMap_cons, List.filterMap_cons]
    split
    · exact ih
    · rw [List.filter_cons, List.filter_cons, ih]
  | drop hkey _ ih =>
    rw [ih, List.filterMap_cons]
    rcases hkey with hkey | hkey
    · simp [keyed?, hkey]
    · simp [keyed?, hkey]
  | blank _ ih =>
    have hblank : keyed? (value "_") = none := rfl
    rw [List.filterMap_cons, hblank, ih, List.filterMap_cons]
    by_cases hb : isBlank key
    · simp [keyed?, key?, hb]
    · simp [keyed?, key?, hb]

namespace Decl

/-- The keys of a list of declarations with whether each is the key of a method. -/
def keyed (decls : List Decl) : List (String × Bool) :=
  (headsAll decls).filterMap Head.keyed?

theorem map_fst_keyed (decls : List Decl) : (keyed decls).map (·.1) = keys decls := by
  rw [keys_eq, keyed, List.map_filterMap]
  refine List.filterMap_congr fun h _ => ?_
  cases hk : h.key? <;> simp [Head.keyed?, hk]

/-- Removing a key takes it out of the list of keys and leaves the others in their order. -/
theorem keyed_remove_of_bearsOnce {k : String} (hk : isBlank k = false) {decls : List Decl}
    (honce : ∀ d ∈ decls, d.BearsOnce k) :
    keyed (remove k decls) = (keyed decls).filter (·.1 ≠ k) := by
  have hgone : k ∉ keys (remove k decls) := not_mem_keys_remove_of_bearsOnce hk honce
  rw [keyed, keyed, ← (pruned_remove hk decls).filter_entries]
  refine (List.filter_eq_self.2 fun e he => ?_).symm
  have hne : e.1 ≠ k := by
    rintro rfl
    refine hgone ?_
    rw [← map_fst_keyed]
    exact List.mem_map.2 ⟨e, he, rfl⟩
  simpa using hne

theorem keys_remove_of_bearsOnce {k : String} (hk : isBlank k = false) {decls : List Decl}
    (honce : ∀ d ∈ decls, d.BearsOnce k) :
    keys (remove k decls) = (keys decls).filter (· ≠ k) := by
  rw [← map_fst_keyed, keyed_remove_of_bearsOnce hk honce, ← map_fst_keyed, List.filter_map]
  rfl

theorem keyed_remove {k : String} (hk : isBlank k = false) {decls : List Decl}
    (hnodup : (keys decls).Nodup) :
    keyed (remove k decls) = (keyed decls).filter (·.1 ≠ k) :=
  keyed_remove_of_bearsOnce hk (bearsOnce_of_count (List.nodup_iff_count_le_one.1 hnodup k))

theorem keys_remove {k : String} (hk : isBlank k = false) {decls : List Decl}
    (hnodup : (keys decls).Nodup) : keys (remove k decls) = (keys decls).filter (· ≠ k) :=
  keys_remove_of_bearsOnce hk (bearsOnce_of_count (List.nodup_iff_count_le_one.1 hnodup k))

end Decl

/-! ## Declarations that vanish with their keys -/

/-- Whether a spec has a key. -/
def Spec.isKeyed (s : Spec) : Bool :=
  s.heads.any (·.key?.isSome)

theorem Spec.isKeyed_value {v : ValueSpec} : (Spec.value v).isKeyed = !v.allBlank := by
  rw [isKeyed, heads, List.any_map, ValueSpec.allBlank, List.not_all_eq_any_not]
  congr 1
  funext name
  cases hb : isBlank name <;> simp [Head.key?, hb]

theorem Spec.exists_of_mem_withoutAll {k : String} {constants : Bool} {specs : List Spec}
    {s' : Spec} (h : s' ∈ withoutAll k constants specs) :
    ∃ s ∈ specs, ∃ last, s.without k (s.isPinned constants last) = some s' := by
  induction specs with
  | nil => simp [withoutAll] at h
  | cons s ss ih =>
    rw [withoutAll, List.mem_append, Option.mem_toList] at h
    rcases h with h | h
    · exact ⟨s, List.mem_cons_self, _, h⟩
    · obtain ⟨t, ht, last, h⟩ := ih h
      exact ⟨t, List.mem_cons_of_mem s ht, last, h⟩

theorem Spec.isValue_of_without {k : String} {pinned : Bool} {s s' : Spec}
    (h : s.without k pinned = some s') : s'.isValue = s.isValue := by
  cases s with
  | imported spec =>
    cases h
    rfl
  | type t =>
    simp only [without, Option.ite_none_left_eq_some, Option.some.injEq] at h
    rw [← h.2]
  | value v =>
    simp only [without] at h
    split at h
    · cases h
      rfl
    · simp only [Option.ite_none_right_eq_some, Option.some.injEq] at h
      rw [← h.2]
      rfl

/-- Outside a group of constants no spec is left without a key. -/
theorem Spec.isKeyed_of_without {k : String} {s s' : Spec} (hs : s.isKeyed = true)
    (h : s.without k false = some s') : s'.isKeyed = true := by
  cases s with
  | imported spec => simp [isKeyed, heads] at hs
  | type t =>
    simp only [without, Option.ite_none_left_eq_some, Option.some.injEq] at h
    rwa [← h.2]
  | value v =>
    simp only [without] at h
    split at h
    · cases h
      exact hs
    · simp only [Option.ite_none_right_eq_some, Option.some.injEq] at h
      rw [← h.2, isKeyed_value]
      simpa using h.1

theorem Spec.withoutAll_of_not_declares {k : String} {constants : Bool} {specs : List Spec}
    (h : ∀ s ∈ specs, s.declares k = false) : withoutAll k constants specs = specs := by
  induction specs with
  | nil => rfl
  | cons s ss ih =>
    have hs : ∀ pinned, s.without k pinned = some s := by
      intro pinned
      have hk : k ∉ s.declared := by simpa [declares] using h s List.mem_cons_self
      cases s with
      | imported spec => rfl
      | type t =>
        have hne : t.name ≠ k := by
          rintro rfl
          exact hk List.mem_cons_self
        simp [without, hne]
      | value v =>
        have hnone : v.names.idxOf? k = none := List.idxOf?_eq_none_iff.2 hk
        simp [without, hnone]
    rw [withoutAll, hs, ih fun s hs => h s (List.mem_cons_of_mem _ hs)]
    rfl

theorem Spec.isKeyed_of_isBlankValue {s : Spec} (hvalue : s.isValue = true)
    (hblank : s.isBlankValue = false) : s.isKeyed = true := by
  cases s with
  | imported spec => simp [isValue] at hvalue
  | type t => simp [isValue] at hvalue
  | value v => simpa [isKeyed_value, isBlankValue] using hblank

namespace DeclGroup

variable {k : String} {g g' : DeclGroup}

/-- A group that stays has specs left, and if it lost one of its constants, a name among them. -/
theorem eq_of_without (h : g.without k = some g') :
    g' = { g with specs := Spec.withoutAll k (g.tok == .const) g.specs } ∧
      (g.specs ≠ [] → g'.specs ≠ []) ∧
      (g.tok = .const → (∃ s ∈ g.specs, s.isValue = true ∧ s.declares k = true) →
        ∃ s' ∈ g'.specs, s'.isBlankValue = false) := by
  simp only [without, Option.ite_none_left_eq_some, Option.some.injEq] at h
  obtain ⟨hstays, rfl⟩ := h
  refine ⟨rfl, fun hne hempty => hstays ?_, ?_⟩
  · dsimp only at hempty
    simp [hne, hempty]
  · rintro htok ⟨s, hs, hvalue, hdeclares⟩
    by_contra hall
    push Not at hall
    refine hstays ?_
    have hnonempty : g.specs.isEmpty = false := by simpa using List.ne_nil_of_mem hs
    have htouched : (g.specs.any fun s => s.isValue && s.declares k) = true :=
      List.any_eq_true.2 ⟨s, hs, by simp [hvalue, hdeclares]⟩
    have hblank : (Spec.withoutAll k (g.tok == .const) g.specs).all Spec.isBlankValue = true :=
      List.all_eq_true.2 fun s' hs' => by simpa using hall s' hs'
    rw [hnonempty, htouched, hblank, htok]
    simp

theorem ne_nil_of_without (hne : g.specs ≠ []) (h : g.without k = some g') : g'.specs ≠ [] :=
  (eq_of_without h).2.1 hne

theorem exists_of_mem_without (h : g.without k = some g') {s' : Spec} (hs' : s' ∈ g'.specs) :
    ∃ s ∈ g.specs, ∃ last, s.without k (s.isPinned (g.tok == .const) last) = some s' := by
  rw [(eq_of_without h).1] at hs'
  exact Spec.exists_of_mem_withoutAll hs'

theorem isValue_of_without (hvalues : ∀ s ∈ g.specs, s.isValue = true)
    (h : g.without k = some g') : ∀ s' ∈ g'.specs, s'.isValue = true := by
  intro s' hs'
  obtain ⟨s, hs, last, hwithout⟩ := exists_of_mem_without h hs'
  rw [Spec.isValue_of_without hwithout]
  exact hvalues s hs

/-- A group of constants that stays has a name left. -/
theorem exists_isKeyed_without (htok : g.tok = .const) (hvalues : ∀ s ∈ g.specs, s.isValue = true)
    (hkeyed : ∃ s ∈ g.specs, s.isKeyed = true) (h : g.without k = some g') :
    ∃ s' ∈ g'.specs, s'.isKeyed = true := by
  by_cases htouched : ∃ s ∈ g.specs, s.declares k = true
  · obtain ⟨s, hs, hdeclares⟩ := htouched
    obtain ⟨s', hs', hblank⟩ := (eq_of_without h).2.2 htok ⟨s, hs, hvalues s hs, hdeclares⟩
    exact ⟨s', hs', Spec.isKeyed_of_isBlankValue (isValue_of_without hvalues h s' hs') hblank⟩
  · rw [(eq_of_without h).1]
    dsimp only
    rw [Spec.withoutAll_of_not_declares]
    · exact hkeyed
    · intro s hs
      exact Bool.eq_false_iff.2 fun hdeclares => htouched ⟨s, hs, hdeclares⟩

theorem isKeyed_of_without (htok : g.tok ≠ .const) (hkeyed : ∀ s ∈ g.specs, s.isKeyed = true)
    (h : g.without k = some g') : ∀ s' ∈ g'.specs, s'.isKeyed = true := by
  intro s' hs'
  obtain ⟨s, hs, last, hwithout⟩ := exists_of_mem_without h hs'
  have hpinned : s.isPinned (g.tok == .const) last = false := by
    cases s <;> simp [Spec.isPinned, htok]
  rw [hpinned] at hwithout
  exact Spec.isKeyed_of_without (hkeyed s hs) hwithout

end DeclGroup

namespace Decl

/-- A declaration that has a key. In a group of constants one spec has a key and the others may be
there for their place, in any other group every spec has one. -/
def Alive : Decl → Prop
  | .bad _ => False
  | .func f => f.key?.isSome = true
  | .group g =>
    g.tok ≠ .import_ ∧
      if g.tok = .const then (∀ s ∈ g.specs, s.isValue = true) ∧ ∃ s ∈ g.specs, s.isKeyed = true
      else g.specs ≠ [] ∧ ∀ s ∈ g.specs, s.isKeyed = true

theorem Alive.constsOnly {d : Decl} (h : d.Alive) : d.ConstsOnly := by
  cases d with
  | bad node => trivial
  | func f => trivial
  | group g =>
    intro htok
    have h := h.2
    rw [if_pos htok] at h
    exact h.1

theorem Alive.without {k : String} {d d' : Decl} (h : d.Alive) (hd' : d.without k = some d') :
    d'.Alive := by
  cases d with
  | bad node => exact h.elim
  | func f =>
    simp only [Decl.without, Option.ite_none_left_eq_some, Option.some.injEq] at hd'
    rwa [← hd'.2]
  | group g =>
    obtain ⟨himport, h⟩ := h
    simp only [Decl.without, if_neg himport] at hd'
    obtain ⟨g', hg', rfl⟩ := Option.map_eq_some_iff.1 hd'
    have htok' : g'.tok = g.tok := by rw [(DeclGroup.eq_of_without hg').1]
    rw [Alive, htok']
    refine ⟨himport, ?_⟩
    split at h
    · next htok =>
      rw [if_pos htok]
      exact ⟨DeclGroup.isValue_of_without h.1 hg',
        DeclGroup.exists_isKeyed_without htok h.1 h.2 hg'⟩
    · next htok =>
      rw [if_neg htok]
      exact ⟨DeclGroup.ne_nil_of_without h.1 hg', DeclGroup.isKeyed_of_without htok h.2 hg'⟩

theorem exists_head_of_alive {d : Decl} (h : d.Alive) : ∃ b ∈ d.heads, b.key?.isSome = true := by
  cases d with
  | bad node => exact h.elim
  | func f => exact ⟨f.head, List.mem_singleton_self _, by rwa [FuncDecl.key?_head]⟩
  | group g =>
    obtain ⟨himport, h⟩ := h
    have hkeyed : ∃ s ∈ g.specs, s.isKeyed = true := by
      split at h
      · exact h.2
      · obtain ⟨s, hs⟩ := List.exists_mem_of_ne_nil _ h.1
        exact ⟨s, hs, h.2 s hs⟩
    obtain ⟨s, hs, hkeyed⟩ := hkeyed
    obtain ⟨b, hb, hkey⟩ := List.any_eq_true.1 hkeyed
    rw [heads, if_neg himport]
    exact ⟨b, List.mem_flatMap.2 ⟨s, hs, hb⟩, hkey⟩

/-- Declarations that have keys are gone when their keys are. -/
theorem eq_nil_of_keyed_eq_nil {decls : List Decl} (h : ∀ d ∈ decls, d.Alive)
    (hkeyed : keyed decls = []) : decls = [] := by
  cases decls with
  | nil => rfl
  | cons d ds =>
    obtain ⟨b, hb, hkey⟩ := exists_head_of_alive (h d List.mem_cons_self)
    obtain ⟨key, hkey⟩ := Option.isSome_iff_exists.1 hkey
    have hmem : (key, b.isMethod) ∈ keyed (d :: ds) :=
      List.mem_filterMap.2 ⟨b, List.mem_append_left _ hb, by simp [Head.keyed?, hkey]⟩
    simp [hkeyed] at hmem

theorem alive_remove {decls : List Decl} (h : ∀ d ∈ decls, d.Alive) (k : String) :
    ∀ d ∈ remove k decls, d.Alive := by
  intro d hd
  obtain ⟨d₀, hd₀, hwithout⟩ := List.mem_filterMap.1 hd
  exact (h d₀ hd₀).without hwithout

end Decl

end GoWeave
