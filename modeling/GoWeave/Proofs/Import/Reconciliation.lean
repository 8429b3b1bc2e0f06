import GoWeave.Proofs.Merge.Aliases
import Mathlib.Order.Bounds.Defs

/-!
# One import against the table

An ordinary import whose name stands for another path looks for a name of its own, with the tag
appended again and again. Nothing counts the attempts. The search ends because every name it passes
is in the table, the names get longer, and the table is finite. It passes no name that could be had,
so the name it ends with has the least possible number of tags.
-/
namespace GoWeave.Import.Table

variable {t : Table} {b : Binding} {name next path tag : String}

/-! ## The search for a name -/

/-- A name that stands for a path other than a given one. -/
def Taken (t : Table) (path name : String) : Prop :=
  ∃ p, t.path? name = some p ∧ p ≠ path

/-- The search for a name goes on from a name that is taken, with the tag appended. -/
def Retries (t : Table) (path tag next name : String) : Prop :=
  t.Taken path name ∧ next = name ++ tag

/-- The length of the longest name in the table. -/
def longest (t : Table) : Nat :=
  (t.names.map (·.1)).foldr (fun name n => max name.length n) 0

theorem Taken.length_le (h : t.Taken path name) : name.length ≤ t.longest := by
  obtain ⟨p, hp, -⟩ := h
  have hmem : name ∈ t.names.map (·.1) := mem_keys_of_path? (by simp [hp])
  unfold longest
  generalize t.names.map (·.1) = names at hmem
  induction names with
  | nil => cases hmem
  | cons first names ih =>
    rw [List.foldr_cons]
    rcases List.mem_cons.1 hmem with rfl | hmem
    · exact Nat.le_max_left _ _
    · exact Nat.le_trans (ih hmem) (Nat.le_max_right _ _)

theorem Retries.length_lt (htag : tag ≠ "") (h : t.Retries path tag next name) :
    name.length < next.length := by
  rw [h.2]
  exact length_lt_tagged htag name 0

/-- No search goes on for ever, whatever name it starts from. -/
theorem wellFounded_retries (t : Table) (path : String) (htag : tag ≠ "") :
    WellFounded (t.Retries path tag) := by
  apply Subrelation.wf _ (measure fun name => t.longest + 1 - name.length).wf
  intro next name h
  have hle := h.1.length_le
  have hlt := h.length_lt htag
  change t.longest + 1 - next.length < t.longest + 1 - name.length
  omega

/-! ## The outcomes -/

/-- How many tags give a name that is free or stands for the path already. -/
def tagCounts (t : Table) (b : Binding) (tag : String) : Set Nat :=
  {n | 1 ≤ n ∧ (t.path? (tagged tag b.name n) = none ∨
    t.path? (tagged tag b.name n) = some b.path)}

/-- What becomes of an ordinary import and of the table. -/
inductive Settles (t : Table) (b : Binding) (tag : String) : Reconciled → Table → Prop
  | added (hfree : t.path? b.name = none) :
    Settles t b tag (.added (b.specAs b.name)) (t.insert b.name b.path)
  | present (hsame : t.path? b.name = some b.path) : Settles t b tag .present t
  | reused (htaken : t.Taken b.path b.name) (n : Nat) (hn : IsLeast (t.tagCounts b tag) n)
      (hsame : t.path? (tagged tag b.name n) = some b.path) :
    Settles t b tag (.renamed b.name (tagged tag b.name n) none) t
  | renamed (htaken : t.Taken b.path b.name) (n : Nat) (hn : IsLeast (t.tagCounts b tag) n)
      (hfree : t.path? (tagged tag b.name n) = none) :
    Settles t b tag
      (.renamed b.name (tagged tag b.name n) (some (b.specAs (tagged tag b.name n))))
      (t.insert (tagged tag b.name n) b.path)

theorem exists_isLeast_tagCounts (t : Table) (b : Binding) (htag : tag ≠ "") :
    ∃ n, t.taggedName b.name b.path tag = tagged tag b.name n ∧ IsLeast (t.tagCounts b tag) n := by
  obtain ⟨n, hn, htaken, hend⟩ := t.exists_taggedName_settles b.name b.path htag
  refine ⟨n + 1, hn, ⟨by omega, hend⟩, ?_⟩
  rintro k ⟨hpos, hk⟩
  by_contra hlt
  obtain ⟨k, rfl⟩ := Nat.exists_eq_add_of_le' hpos
  obtain ⟨p, hp, hother⟩ := htaken k (by omega)
  rcases hk with hfree | hsame
  · simp [hp] at hfree
  · rw [hp] at hsame
    exact hother (Option.some.inj hsame)

theorem settles_reconcile (t : Table) (hb : b.isSpecial = false) (htag : tag ≠ "") :
    t.Settles b tag (t.reconcile b tag).1 (t.reconcile b tag).2 := by
  unfold reconcile
  rw [if_neg (by simp [hb])]
  cases hname : t.path? b.name with
  | none => exact .added hname
  | some p =>
    by_cases hp : p = b.path
    · simp only [if_pos hp]
      exact .present (hp ▸ hname)
    · obtain ⟨n, htagged, hn⟩ := t.exists_isLeast_tagCounts b htag
      simp only [if_neg hp, htagged]
      have htaken : t.Taken b.path b.name := ⟨p, hname, hp⟩
      cases hnew : t.path? (tagged tag b.name n) with
      | none => exact .renamed htaken n hn hnew
      | some q =>
        -- The search does not end at a name that stands for a third path.
        rcases hn.1.2 with hfree | hsame
        · simp [hnew] at hfree
        · exact .reused htaken n hn hsame

/-- An import either finds its path in the table under the name that the unit is to use, or it is
inserted under that name, which is free. -/
theorem reconcile_inserts_or (t : Table) (hb : b.isSpecial = false) (htag : tag ≠ "") :
    (t.path? (t.nameFor b tag) = some b.path ∧ (t.reconcile b tag).1.spec? = none ∧
        (t.reconcile b tag).2 = t) ∨
      (t.path? (t.nameFor b tag) = none ∧
        (t.reconcile b tag).1.spec? = some (b.specAs (t.nameFor b tag)) ∧
        (t.reconcile b tag).2 = t.insert (t.nameFor b tag) b.path) := by
  have h := t.settles_reconcile hb htag
  unfold nameFor
  generalize t.reconcile b tag = result at h ⊢
  obtain ⟨outcome, t'⟩ := result
  cases h with
  | added hfree => exact .inr ⟨hfree, rfl, rfl⟩
  | present hsame => exact .inl ⟨hsame, rfl, rfl⟩
  | reused htaken n hn hsame => exact .inl ⟨hsame, rfl, rfl⟩
  | renamed htaken n hn hfree => exact .inr ⟨hfree, rfl, rfl⟩

/-- An ordinary import against the table. The search for a name ends. Names keep their paths, and at
most one name is new, the one that the unit is to use, which stands for the path from then on. A
spec is handed out exactly if that name is new. A unit gives its name up only if it stands for
another path, and for the name with the least number of tags that is free or stands for the
path. -/
theorem reconcile_settles_least (t : Table) (hb : b.name ≠ "_" ∧ b.name ≠ ".") (htag : tag ≠ "") :
    WellFounded (t.Retries b.path tag) ∧
      (∀ name path, t.path? name = some path → (t.reconcile b tag).2.path? name = some path) ∧
      (∀ name, name ≠ t.nameFor b tag → (t.reconcile b tag).2.path? name = t.path? name) ∧
      (t.reconcile b tag).2.path? (t.nameFor b tag) = some b.path ∧
      ((t.reconcile b tag).1.spec?.isSome = true ↔ t.path? (t.nameFor b tag) = none) ∧
      ∀ old new spec, (t.reconcile b tag).1 = .renamed old new spec →
        old = b.name ∧ t.Taken b.path b.name ∧
          ∃ n, new = tagged tag b.name n ∧ IsLeast (t.tagCounts b tag) n := by
  have hordinary : b.isSpecial = false := by simp [Binding.isSpecial, hb]
  refine ⟨t.wellFounded_retries b.path htag, fun name path h => path?_reconcile b tag h, ?_,
    t.path?_nameFor hordinary htag, ?_, ?_⟩
  · intro name hname
    rcases t.reconcile_inserts_or hordinary htag with ⟨-, -, hsame⟩ | ⟨-, -, hinsert⟩
    · rw [hsame]
    · rw [hinsert, path?_insert_of_ne t b.path hname]
  · rcases t.reconcile_inserts_or hordinary htag with ⟨hpath, hspec, -⟩ | ⟨hpath, hspec, -⟩
    · simp [hpath, hspec]
    · simp [hpath, hspec]
  · intro old new spec hrenamed
    have h := t.settles_reconcile hordinary htag
    rw [hrenamed] at h
    generalize (t.reconcile b tag).2 = t' at h
    cases h with
    | reused htaken n hn hsame => exact ⟨rfl, htaken, n, rfl, hn⟩
    | renamed htaken n hn hfree => exact ⟨rfl, htaken, n, rfl, hn⟩

/-- The first tagged name stands for a third path, so the import gets a second tag. -/
theorem reconcile_settles_least_chain :
    let t : Table := ⟨[("rand", "crypto/rand"), ("randB", "x/rand")], []⟩
    let b : Binding := ⟨"rand", "math/rand", none, .string, "\"math/rand\""⟩
    t.reconcile b "B" = (.renamed "rand" "randBB" (some ⟨some "randBB", b.spec.path⟩),
        t.insert "randBB" "math/rand") ∧
      WellFounded (t.Retries "math/rand" "B") ∧
      (t.reconcile b "B").2.path? "randBB" = some "math/rand" ∧
      ∃ n, "randBB" = tagged "B" "rand" n ∧ IsLeast (t.tagCounts b "B") n := by
  intro t b
  have hresult : t.reconcile b "B" = (.renamed "rand" "randBB" (some ⟨some "randBB", b.spec.path⟩),
      t.insert "randBB" "math/rand") := by decide +kernel
  obtain ⟨hends, -, -, hpath, -, hleast⟩ :=
    @reconcile_settles_least b "B" t (by decide) (by decide)
  obtain ⟨-, -, hn⟩ := hleast "rand" "randBB" _ (by rw [hresult])
  have hname : t.nameFor b "B" = "randBB" := by decide +kernel
  exact ⟨hresult, hends, hname ▸ hpath, hn⟩

end GoWeave.Import.Table
