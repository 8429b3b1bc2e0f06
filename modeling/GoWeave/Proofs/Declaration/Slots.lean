import GoWeave.Declaration
import Mathlib.Data.List.Basic

/-!
# Slots and keys

The slots of a list of declarations, the declaration at each slot, and the look-up of a key. Listing
and look-up are two walks over the same declarations: looking a key up finds the first slot listed
for it, and at every listed slot stands a declaration that bears the key.
-/
namespace GoWeave

namespace Decl

/-! ## Listing -/

/-- The keys of a list of declarations, in source order and with repetitions. -/
def keys (decls : List Decl) : List String :=
  (slotsIn decls 0 decls.length).map (·.1)

theorem slotsIn_all (decls : List Decl) : slotsIn decls 0 decls.length = slotsFrom 0 decls := by
  simp [slotsIn]

theorem slotsIn_tail (decls more : List Decl) :
    slotsIn (decls ++ more) decls.length (decls ++ more).length = slotsFrom decls.length more := by
  rw [slotsIn, List.take_length, List.drop_left]

theorem slotsFrom_append (n : Nat) (decls more : List Decl) :
    slotsFrom n (decls ++ more) = slotsFrom n decls ++ slotsFrom (n + decls.length) more := by
  induction decls generalizing n with
  | nil => simp [slotsFrom]
  | cons d ds ih =>
    simp only [List.cons_append, slotsFrom, ih, List.append_assoc, List.length_cons]
    rw [Nat.add_assoc n 1, Nat.add_comm 1]

theorem exists_of_mem_slotsFrom {n : Nat} {decls : List Decl} {p : String × Slot}
    (hp : p ∈ slotsFrom n decls) :
    ∃ (i : Nat) (d : Decl), decls[i]? = some d ∧ p ∈ d.slots (n + i) := by
  induction decls generalizing n with
  | nil => simp [slotsFrom] at hp
  | cons d ds ih =>
    rw [slotsFrom, List.mem_append] at hp
    rcases hp with hp | hp
    · exact ⟨0, d, rfl, hp⟩
    · obtain ⟨i, e, he, hp⟩ := ih hp
      exact ⟨i + 1, e, he, by rwa [Nat.add_comm i, ← Nat.add_assoc]⟩

end Decl

/-! ## Look-up -/

theorem List.lookup_cons_of_ne [BEq κ] [LawfulBEq κ] {k key : κ} (h : k ≠ key) (v : β)
    (l : List (κ × β)) : ((k, v) :: l).lookup key = l.lookup key := by
  have hne : (key == k) = false := by simpa using fun e : key = k => h e.symm
  rw [List.lookup_cons, hne]

theorem List.lookup_eq_some_iff_mem [BEq κ] [LawfulBEq κ] {l : List (κ × β)}
    (hl : (l.map (·.1)).Nodup) {k : κ} {v : β} : l.lookup k = some v ↔ (k, v) ∈ l := by
  induction l with
  | nil => simp
  | cons e l ih =>
    obtain ⟨hnew, hl⟩ := List.nodup_cons.1 hl
    rw [List.lookup_cons, List.mem_cons, ← ih hl]
    cases hk : k == e.1 with
    | true =>
      have hk : k = e.1 := eq_of_beq hk
      have hnone : l.lookup k = none :=
        List.lookup_eq_none_iff.2 fun p hp => by
          have hne : k ≠ p.1 := fun heq => hnew (List.mem_map.2 ⟨p, hp, heq.symm.trans hk⟩)
          simpa using hne
      simp [hk, Prod.ext_iff, eq_comm, hk ▸ hnone]
    | false =>
      have hk : k ≠ e.1 := by simpa using hk
      simp [hk, Prod.ext_iff]

theorem List.lookup_flatMap [BEq κ] (k : κ) (f : α → List (κ × β)) (xs : List α) :
    (xs.flatMap f).lookup k = xs.findSome? fun x => (f x).lookup k := by
  induction xs with
  | nil => rfl
  | cons x xs ih =>
    rw [List.flatMap_cons, List.lookup_append, ih, List.findSome?_cons]
    cases (f x).lookup k <;> rfl

namespace Spec

theorem lookup_zipIdx_names {key : String} (hkey : isBlank key = false) (decl spec n : Nat)
    (names : List String) :
    ((names.zipIdx n).filterMap fun (p : String × Nat) =>
        if isBlank p.1 then none else some (p.1, Slot.value decl spec p.2)).lookup key =
      (names.idxOf? key).map fun i => Slot.value decl spec (n + i) := by
  induction names generalizing n with
  | nil => rfl
  | cons name names ih =>
    rw [List.zipIdx_cons, List.filterMap_cons, List.idxOf?_cons]
    by_cases h : name = key
    · subst h
      simp [hkey]
    · have hshift : (fun i => Slot.value decl spec (n + i)) ∘ (· + 1) =
          fun i => Slot.value decl spec (n + 1 + i) := by
        funext i
        simp only [Function.comp_apply]
        congr 1
        omega
      rw [if_neg (by simpa using h : ¬(name == key) = true), Option.map_map, hshift, ← ih]
      cases isBlank name with
      | true => rfl
      | false => exact List.lookup_cons_of_ne h _ _

theorem locate?_eq_lookup {key : String} (hkey : isBlank key = false) (decl spec : Nat) (s : Spec) :
    s.locate? key decl spec = (s.slots decl spec).lookup key := by
  cases s with
  | imported s => rfl
  | type t =>
    simp only [locate?, slots]
    by_cases h : t.name = key
    · simp [h, hkey]
    · rw [if_neg h]
      split
      · rfl
      · rw [List.lookup_cons_of_ne h, List.lookup_nil]
  | value v =>
    have h := lookup_zipIdx_names hkey decl spec 0 v.names
    simp only [Nat.zero_add] at h
    exact h.symm

end Spec

namespace Decl

theorem locateIn?_eq_lookup {key : String} (hkey : isBlank key = false) (i : Nat) (d : Decl) :
    d.locateIn? key i = (d.slots i).lookup key := by
  cases d with
  | bad node => rfl
  | func f =>
    simp only [locateIn?, slots]
    cases hf : f.key? with
    | none => simp
    | some k =>
      by_cases h : k = key
      · simp [h]
      · simp [h, List.lookup_cons_of_ne h]
  | group g =>
    simp only [locateIn?, slots]
    split
    · rfl
    · rw [List.lookup_flatMap]
      congr 1
      funext p
      exact Spec.locate?_eq_lookup hkey i p.2 p.1

/-- Looking up a key that is not blank finds the first slot listed for it. -/
theorem locate?_eq_lookup {key : String} (hkey : isBlank key = false) (decls : List Decl) :
    locate? decls key = (slotsFrom 0 decls).lookup key := by
  suffices h : ∀ n, ((decls.zipIdx n).findSome? fun (p : Decl × Nat) => p.1.locateIn? key p.2) =
      (slotsFrom n decls).lookup key from h 0
  induction decls with
  | nil => intro n; rfl
  | cons d ds ih =>
    intro n
    rw [List.zipIdx_cons, List.findSome?_cons, slotsFrom, List.lookup_append, ← ih,
      locateIn?_eq_lookup hkey]
    cases (d.slots n).lookup key <;> rfl

end Decl

/-! ## The declaration at a slot -/

/-- The first declaration of a key. -/
def Decl.declared? (decls : List Decl) (key : String) : Option Declared :=
  (locate? decls key).bind (snapshot? decls)

/-- Whether a declaration is the one of a key: it has the key as its name, or as its qualified name
if it is a method. -/
def Declared.Bears (key : String) : Declared → Prop
  | .func f => f.key? = some key
  | .type spec => spec.name = key
  | .value _ spec _ => spec.names = [key]

theorem Spec.mem_slots_cases {s : Spec} {i j : Nat} {key : String} {slot : Slot}
    (h : (key, slot) ∈ s.slots i j) :
    (∃ t, s = .type t ∧ t.name = key ∧ slot = .type i j) ∨
      ∃ v n, s = .value v ∧ v.names[n]? = some key ∧ slot = .value i j n := by
  cases s with
  | imported s => simp [Spec.slots] at h
  | type t =>
    simp only [Spec.slots] at h
    split at h
    · simp at h
    · simp only [List.mem_singleton, Prod.mk.injEq] at h
      exact .inl ⟨t, rfl, h.1.symm, h.2⟩
  | value v =>
    simp only [Spec.slots, List.mem_filterMap] at h
    obtain ⟨⟨name, n⟩, hn, hp⟩ := h
    simp only [Option.ite_none_left_eq_some, Option.some.injEq, Prod.mk.injEq] at hp
    obtain ⟨-, rfl, rfl⟩ := hp
    exact .inr ⟨v, n, rfl, List.mk_mem_zipIdx_iff_getElem?.1 hn, rfl⟩

namespace Decl

theorem snapshot?_of_mem_slots {decls : List Decl} {i : Nat} {d : Decl} {key : String} {slot : Slot}
    (hd : decls[i]? = some d) (h : (key, slot) ∈ d.slots i) :
    ∃ found, snapshot? decls slot = some found ∧ found.Bears key := by
  cases d with
  | bad node => simp [slots] at h
  | func f =>
    simp only [slots, List.mem_map, Option.mem_toList, Prod.mk.injEq] at h
    obtain ⟨k, hk, rfl, rfl⟩ := h
    exact ⟨.func f, by simp [snapshot?, hd], hk⟩
  | group g =>
    simp only [slots] at h
    split at h
    · simp at h
    · obtain ⟨⟨s, j⟩, hs, h⟩ := List.mem_flatMap.1 h
      have hs : g.specs[j]? = some s := List.mk_mem_zipIdx_iff_getElem?.1 hs
      rcases Spec.mem_slots_cases h with ⟨t, rfl, ht, rfl⟩ | ⟨v, n, rfl, hv, rfl⟩
      · exact ⟨.type t, by simp [snapshot?, typeSpecAt?, hd, hs], ht⟩
      · exact ⟨g.declaredValue j v n key, by simp [snapshot?, hd, hs, hv], rfl⟩

/-- At every listed slot stands a declaration that bears the key. -/
theorem snapshot?_of_mem_slotsFrom {decls : List Decl} {key : String} {slot : Slot}
    (h : (key, slot) ∈ slotsFrom 0 decls) :
    ∃ found, snapshot? decls slot = some found ∧ found.Bears key := by
  obtain ⟨i, d, hd, h⟩ := exists_of_mem_slotsFrom h
  rw [Nat.zero_add] at h
  exact snapshot?_of_mem_slots hd h

end Decl

end GoWeave
