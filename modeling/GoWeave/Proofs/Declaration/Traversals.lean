import GoWeave.Proofs.Declaration.Removal

/-!
# Agreement of the traversals

Declarations are walked in three ways: their keys are collected in front of a merge, a key is looked
up while a unit is resolved, and slots are listed for the registry. The walks leave out the same
declarations. Each collected key is listed, in the order of the first slots, a look-up finds the
first slot of a key, and a range of declarations can be listed piece by piece.
-/
namespace GoWeave

namespace Decl

/-! ## Collecting -/

/-- Of the keys that have not been seen, the first of each is collected. -/
theorem map_fst_firstOfKey (seen : List String) (es : List (String × DeclKind)) :
    (firstOfKey seen es).map (·.1) = ((es.map (·.1)).filter (· ∉ seen)).eraseDups := by
  induction es generalizing seen with
  | nil => rfl
  | cons e es ih =>
    rw [firstOfKey, List.map_cons, List.filter_cons]
    by_cases hseen : e.1 ∈ seen
    · rw [if_pos (by simpa using hseen), if_neg (by simpa using hseen), ih]
    · have hrest : (es.map (·.1)).filter (· ∉ e.1 :: seen) =
          ((es.map (·.1)).filter (· ∉ seen)).filter fun key => !key == e.1 := by
        rw [List.filter_filter]
        refine List.filter_congr fun key _ => ?_
        by_cases hkey : key = e.1 <;> simp [hkey]
      rw [if_neg (by simpa using hseen), if_pos (by simpa using hseen), List.map_cons, ih,
        List.eraseDups_cons, hrest]

/-- In regular groups every listed key has an entry. -/
theorem map_fst_entries {decls : List Decl} (hreg : ∀ d ∈ decls, d.Regular) :
    (decls.flatMap entries).map (·.1) = keys decls := by
  have hentries := congrArg (List.map (·.1)) (map_flatMap_entries hreg)
  rw [List.map_map] at hentries
  exact hentries.trans (map_fst_keyed decls)

theorem map_fst_collect {decls : List Decl} (hreg : ∀ d ∈ decls, d.Regular) :
    (collect decls).map (·.1) = (keys decls).eraseDups := by
  rw [collect, map_fst_firstOfKey, map_fst_entries hreg]
  simp

/-! ## Ranges -/

/-- The slots of a range are those of the declarations that stand in it. -/
theorem mem_slotsIn {decls : List Decl} {start stop : Nat} {p : String × Slot}
    (h : p ∈ slotsIn decls start stop) :
    ∃ (i : Nat) (d : Decl), decls[i]? = some d ∧ p ∈ d.slots i := by
  obtain ⟨i, d, hd, hp⟩ := exists_of_mem_slotsFrom h
  rw [List.getElem?_drop, List.getElem?_take] at hd
  split at hd
  · exact ⟨start + i, d, hd, hp⟩
  · simp at hd

/-- Two ranges that meet make one range. Beyond the last declaration there is nothing to list. -/
theorem slotsIn_append (decls : List Decl) {start mid stop : Nat} (hstart : start ≤ mid)
    (hstop : mid ≤ stop) :
    slotsIn decls start mid ++ slotsIn decls mid stop = slotsIn decls start stop := by
  rcases Nat.lt_or_ge decls.length mid with hmid | hmid
  · have hnil : (decls.take stop).drop mid = [] := by
      rw [List.drop_eq_nil_iff, List.length_take]
      omega
    rw [slotsIn, slotsIn, slotsIn, hnil, List.take_of_length_le (by omega : decls.length ≤ mid),
      List.take_of_length_le (by omega : decls.length ≤ stop)]
    exact List.append_nil _
  · have hlength : (decls.take mid).length = mid := by
      rw [List.length_take]
      omega
    have hsplit : decls.take stop = decls.take mid ++ (decls.take stop).drop mid := by
      conv_lhs => rw [← List.take_append_drop mid (decls.take stop), List.take_take]
      rw [Nat.min_eq_left hstop]
    rw [slotsIn, slotsIn, slotsIn]
    conv_rhs => rw [hsplit, List.drop_append_of_le_length (by omega), slotsFrom_append]
    rw [List.length_drop, hlength, Nat.add_sub_cancel' hstart]

/-! ## Agreement -/

/-- The three walks agree. Every key is collected once, at its first slot. Looking a key up finds
its first slot, or nothing if none is listed. At every listed slot stands a declaration of the key,
and ranges that meet can be listed one after the other. -/
theorem traversals_agree {decls : List Decl} (hreg : ∀ d ∈ decls, d.Regular) :
    (collect decls).map (·.1) = ((slotsIn decls 0 decls.length).map (·.1)).eraseDups ∧
      (∀ key, key ≠ "_" → locate? decls key = (slotsIn decls 0 decls.length).lookup key) ∧
      (∀ start stop key slot, (key, slot) ∈ slotsIn decls start stop →
        ∃ found, snapshot? decls slot = some found ∧ found.Bears key) ∧
      ∀ start mid stop, start ≤ mid → mid ≤ stop →
        slotsIn decls start mid ++ slotsIn decls mid stop = slotsIn decls start stop := by
  refine ⟨map_fst_collect hreg, ?_, ?_, ?_⟩
  · intro key hkey
    rw [slotsIn_all]
    exact locate?_eq_lookup (by simpa [isBlank] using hkey) decls
  · intro start stop key slot hmem
    obtain ⟨i, d, hd, hslots⟩ := mem_slotsIn hmem
    exact snapshot?_of_mem_slots hd hslots
  · intro start mid stop hstart hstop
    exact slotsIn_append decls hstart hstop

/-- Imports, a blank variable, `init` and a method without a named receiver have no key, and the
variable `T` is listed after the type that it repeats. -/
theorem traversals_agree_mixed :
    let method (recv : Expr) : Decl :=
      .func ⟨some [⟨["x"], recv, none⟩], "M", ⟨none, [], none⟩, some []⟩
    let decls : List Decl := [.group ⟨.import_, [.imported ⟨none, ⟨.string, "`f`"⟩⟩], false⟩,
      method (.star (.ident "T")),
      .group ⟨.type, [.type ⟨"T", none, false, .ident "int"⟩], false⟩,
      .group ⟨.var, [.value ⟨["_", "x", "T"], some (.ident "int"), []⟩], false⟩,
      .func ⟨none, "init", ⟨none, [], none⟩, some []⟩, method (.arrayType none (.ident "T"))]
    (∀ d ∈ decls, d.Regular) ∧
      (collect decls).map (·.1) = ["T.M", "T", "x"] ∧
      locate? decls "T" = some (.type 2 0) ∧ locate? decls "init" = none ∧
      (∃ found, snapshot? decls (.value 3 0 2) = some found ∧ found.Bears "T") ∧
      slotsIn decls 0 3 ++ slotsIn decls 3 9 = slotsIn decls 0 9 := by
  intro method decls
  have hreg : ∀ d ∈ decls, d.Regular := by decide
  obtain ⟨hcollect, hlocate, hsnapshot, happend⟩ := traversals_agree hreg
  refine ⟨hreg, ?_, ?_, ?_, ?_, ?_⟩
  · rw [hcollect]
    decide
  · rw [hlocate "T" (by decide)]
    decide
  · rw [hlocate "init" (by decide)]
    decide
  · exact hsnapshot 3 4 "T" (.value 3 0 2) (by decide)
  · exact happend 0 3 9 (by decide) (by decide)

end Decl

end GoWeave
