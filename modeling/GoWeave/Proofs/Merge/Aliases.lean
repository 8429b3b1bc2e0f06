import GoWeave.Proofs.Merge.Imports
import GoWeave.Proofs.Scope.Capture
import Mathlib.Data.List.Nodup
import Mathlib.Data.List.Perm.Subperm

/-!
# What the aliases of a unit stand for

The imports of a unit are taken one after the other, and each may give the unit another name for
its path. A name that is given stands for the path in the table from then on. But references are
respelled throughout the unit while later imports are pending: if a later import of the unit has the
name just given, the references to both are the same from there on, and both follow the later
import. So an alias keeps its meaning exactly as long as no name given to the unit is one of its own
for another path.
-/
namespace GoWeave

namespace Import.Table

variable {t : Table} {b : Binding} {name path tag : String}

/-! ## The name for a path -/

theorem mem_keys_of_path? (h : t.path? name ≠ none) : name ∈ t.names.map (·.1) := by
  by_contra hmem
  apply h
  rw [path?, List.lookup_eq_none_iff]
  intro e he
  have hne : name ≠ e.1 := fun heq => hmem (heq ▸ List.mem_map_of_mem he)
  simpa using hne

/-- The search for a tagged name passes names that stand for other paths, and it ends at one that is
free or stands for the path: the table has fewer names than there are different tagged ones among
those looked at. -/
theorem exists_taggedName_settles (t : Table) (name path : String) (htag : tag ≠ "") :
    ∃ n, t.taggedName name path tag = tagged tag name (n + 1) ∧
      (∀ k < n, ∃ p, t.path? (tagged tag name (k + 1)) = some p ∧ p ≠ path) ∧
      (t.path? (tagged tag name (n + 1)) = none ∨
        t.path? (tagged tag name (n + 1)) = some path) := by
  obtain ⟨n, hn, htaken, hend⟩ := Merger.exists_settle_eq t path tag name t.names.length 1
  simp only [Nat.add_comm 1] at hn htaken hend
  refine ⟨n, hn, htaken, hend.elim (fun hlimit => .inl ?_) id⟩
  by_contra hsome
  have hsub : (List.range (n + 1)).map (fun k => tagged tag name (k + 1)) ⊆
      t.names.map (·.1) := by
    intro taken hmem
    obtain ⟨k, hk, rfl⟩ := List.mem_map.1 hmem
    apply mem_keys_of_path?
    rcases Nat.lt_succ_iff_lt_or_eq.1 (List.mem_range.1 hk) with hlt | rfl
    · obtain ⟨p, hp, -⟩ := htaken k hlt
      simp [hp]
    · exact hsome
  have hinj : Function.Injective fun k => tagged tag name (k + 1) := by
    intro j k hjk
    have heq := tagged_injective htag name hjk
    omega
  have hle := (List.Nodup.subperm (List.Nodup.map hinj List.nodup_range) hsub).length_le
  rw [List.length_map, List.length_range, List.length_map] at hle
  omega

theorem path?_taggedName (t : Table) (name path : String) (htag : tag ≠ "") :
    t.path? (t.taggedName name path tag) = none ∨
      t.path? (t.taggedName name path tag) = some path := by
  obtain ⟨n, hn, -, hend⟩ := t.exists_taggedName_settles name path htag
  rw [hn]
  exact hend

/-- The name by which a unit refers to an import once the import is taken. -/
def nameFor (t : Table) (b : Binding) (tag : String) : String :=
  match (t.reconcile b tag).1 with
  | .renamed _ new _ => new
  | _ => b.name

/-- The imports of a unit with the names they are given, each in the table that those before it
leave. -/
def assign (t : Table) (tag : String) : List Binding → List (Binding × String)
  | [] => []
  | b :: bs => (b, t.nameFor b tag) :: (t.reconcile b tag).2.assign tag bs

/-- The table once the imports of a unit are taken. -/
def takeAll (t : Table) (tag : String) (bs : List Binding) : Table :=
  bs.foldl (fun t b => (t.reconcile b tag).2) t

theorem path?_insert_of_ne {new : String} (t : Table) (path : String) (h : name ≠ new) :
    (t.insert new path).path? name = t.path? name := by
  rw [path?, insert, List.lookup_cons, beq_false_of_ne h]
  rfl

/-- A name in the table keeps its path. -/
theorem path?_reconcile (b : Binding) (tag : String) (h : t.path? name = some path) :
    (t.reconcile b tag).2.path? name = some path := by
  have hinsert : ∀ new p, t.path? new = none → (t.insert new p).path? name = some path := by
    intro new p hnew
    have hne : name ≠ new := by
      rintro rfl
      rw [hnew] at h
      cases h
    rw [path?_insert_of_ne t p hne, h]
  unfold reconcile
  split
  · split <;> exact h
  · split
    · next hnew => exact hinsert _ _ hnew
    · split
      · exact h
      · dsimp only
        split
        · exact h
        · next hnew => exact hinsert _ _ hnew

theorem path?_takeAll (bs : List Binding) (tag : String) (h : t.path? name = some path) :
    (t.takeAll tag bs).path? name = some path := by
  induction bs generalizing t with
  | nil => exact h
  | cons b bs ih => exact ih (path?_reconcile b tag h)

theorem path?_insert_self (t : Table) (name path : String) :
    (t.insert name path).path? name = some path := by
  simp [path?, insert]

/-- The name that an import is given stands for its path. -/
theorem path?_nameFor (t : Table) (hb : b.isSpecial = false) (htag : tag ≠ "") :
    (t.reconcile b tag).2.path? (t.nameFor b tag) = some b.path := by
  unfold nameFor reconcile
  rw [if_neg (by simp [hb])]
  cases hname : t.path? b.name with
  | none => exact path?_insert_self t b.name b.path
  | some p =>
    by_cases hp : p = b.path
    · simpa [hp] using hname
    · simp only [if_neg hp]
      cases hnew : t.path? (t.taggedName b.name b.path tag) with
      | none => exact path?_insert_self t _ b.path
      | some p' =>
        rcases t.path?_taggedName b.name b.path htag with hnone | hsome
        · rw [hnone] at hnew
          cases hnew
        · exact hsome

/-- A blank or dot import keeps its name. -/
theorem nameFor_of_isSpecial (t : Table) (tag : String) (hb : b.isSpecial = true) :
    t.nameFor b tag = b.name := by
  unfold nameFor reconcile
  rw [if_pos hb]
  by_cases hmem : t.special.contains (b.name, b.path) = true
  · rw [if_pos hmem]
  · rw [if_neg hmem]

/-- A name that stands for the path already is kept. -/
theorem nameFor_of_path? (tag : String) (h : t.path? b.name = some b.path) :
    t.nameFor b tag = b.name := by
  by_cases hb : b.isSpecial = true
  · exact nameFor_of_isSpecial t tag hb
  · simp [nameFor, reconcile, hb, h]

theorem map_fst_assign (t : Table) (tag : String) (bs : List Binding) :
    (t.assign tag bs).map (·.1) = bs := by
  induction bs generalizing t with
  | nil => rfl
  | cons b bs ih => rw [assign, List.map_cons, ih]

/-- The imports before a given one are taken when it gets its name. -/
theorem assign_eq_append {t : Table} {bs : List Binding} {before after : List (Binding × String)}
    {given : String} (h : t.assign tag bs = before ++ (b, given) :: after) :
    ∃ before' after', bs = before' ++ b :: after' ∧ given = (t.takeAll tag before').nameFor b tag ∧
      after = ((t.takeAll tag before').reconcile b tag).2.assign tag after' := by
  induction before generalizing t bs with
  | nil =>
    cases bs with
    | nil => simp [assign] at h
    | cons c bs =>
      rw [assign, List.nil_append, List.cons.injEq, Prod.mk.injEq] at h
      obtain ⟨⟨rfl, rfl⟩, rfl⟩ := h
      exact ⟨[], bs, rfl, rfl, rfl⟩
  | cons p before ih =>
    cases bs with
    | nil => simp [assign] at h
    | cons c bs =>
      rw [assign, List.cons_append, List.cons.injEq] at h
      obtain ⟨before', after', hbs, hgiven, hafter⟩ := ih h.2
      exact ⟨c :: before', after', by rw [hbs, List.cons_append], hgiven, hafter⟩

/-- A blank or dot import keeps its name also among others. -/
theorem eq_name_of_mem_assign (t : Table) (tag : String) (bs : List Binding) :
    ∀ p ∈ t.assign tag bs, p.1.isSpecial = true → p.2 = p.1.name := by
  intro p hp hspecial
  obtain ⟨before, after, hsplit⟩ := List.append_of_mem hp
  obtain ⟨before', after', -, hgiven, -⟩ := assign_eq_append hsplit
  rw [hgiven, nameFor_of_isSpecial _ tag hspecial]

end Import.Table

/-! ## Spelling -/

namespace Import

/-- A name under the names that the imports of a unit are given, one after the other. -/
def respell (given : List (Binding × String)) (name : String) : String :=
  given.foldl (fun name p => if name = p.1.name then p.2 else name) name

theorem respell_append (xs ys : List (Binding × String)) (name : String) :
    respell (xs ++ ys) name = respell ys (respell xs name) :=
  List.foldl_append

theorem respell_cons (p : Binding × String) (given : List (Binding × String)) (name : String) :
    respell (p :: given) name = respell given (if name = p.1.name then p.2 else name) :=
  rfl

/-- A name stays if every import of this name keeps it. -/
theorem respell_eq_self {given : List (Binding × String)} {name : String}
    (h : ∀ p ∈ given, p.1.name = name → p.2 = name) : respell given name = name := by
  induction given with
  | nil => rfl
  | cons p given ih =>
    have hstep : (if name = p.1.name then p.2 else name) = name := by
      split
      · next hname => exact h p List.mem_cons_self hname.symm
      · rfl
    rw [respell_cons, hstep]
    exact ih fun q hq => h q (List.mem_cons_of_mem p hq)

/-- An ordinary import finds its name as the unit has it, since no import before has that name. -/
theorem respell_split {given : List (Binding × String)}
    {before after : List (Binding × String)} {p : Binding × String}
    (hnames : ((given.filter (!·.1.isSpecial)).map (·.1.name)).Nodup)
    (hkept : ∀ q ∈ given, q.1.isSpecial = true → q.2 = q.1.name)
    (hp : p.1.isSpecial = false) (h : given = before ++ p :: after) :
    respell given p.1.name = respell after p.2 := by
  have hbefore : respell before p.1.name = p.1.name := by
    apply respell_eq_self
    intro q hq hname
    by_cases hspecial : q.1.isSpecial = true
    · rw [hkept q (h ▸ List.mem_append_left _ hq) hspecial, hname]
    · rw [h, List.filter_append, List.map_append, List.nodup_append] at hnames
      refine absurd hname (hnames.2.2 _ ?_ _ ?_)
      · exact List.mem_map_of_mem (List.mem_filter.2 ⟨hq, by simpa using hspecial⟩)
      · simp [hp]
  rw [h, respell_append, hbefore, respell_cons, if_pos rfl]

end Import

/-- A function that calls `Do` of some packages in turn. -/
def Decl.ofCalls (name : String) (packages : List String) : Decl :=
  .func ⟨none, name, ⟨none, [], none⟩,
    some (packages.map fun p => .expr (.call (.selector (.ident p) "Do") [] false))⟩

namespace Merger

variable {m : Merger} {u : UnitTag} {decls : List Decl} {bs : List Import.Binding}

@[simp] theorem imports_takeImport (m : Merger) (u : UnitTag) (decls : List Decl)
    (b : Import.Binding) :
    (m.takeImport u decls b).1.imports = (m.imports.reconcile b u.tag).2 := by
  obtain ⟨decisions, heq⟩ := exists_takeImport_eq m u decls b
  rw [heq]
  cases (m.imports.reconcile b u.tag).1.spec? with
  | none => rfl
  | some spec => exact imports_addImport _ spec

theorem imports_takeImports (m : Merger) (u : UnitTag) (decls : List Decl)
    (bs : List Import.Binding) :
    (m.takeImports u decls bs).1.imports = m.imports.takeAll u.tag bs := by
  induction bs generalizing m decls with
  | nil => rfl
  | cons b bs ih =>
    rw [takeImports, ih, imports_takeImport]
    rfl

/-- An import leaves the unit as it is, or renames its name to the longer one it is given. -/
theorem takeImport_decls (m : Merger) (u : UnitTag) (decls : List Decl) (b : Import.Binding) :
    (m.takeImport u decls b).2 = decls ∧ m.imports.nameFor b u.tag = b.name ∨
      (m.takeImport u decls b).2 = Decl.renameAll ⟨b.name, m.imports.nameFor b u.tag⟩ decls ∧
        ∃ n, m.imports.nameFor b u.tag = tagged u.tag b.name (n + 1) := by
  unfold takeImport Import.Table.nameFor
  rcases reconcile_cases m.imports b u.tag with ⟨spec, t, h⟩ | h | ⟨-, n, h | ⟨spec, t, h⟩⟩
  · rw [h]
    exact .inl ⟨rfl, rfl⟩
  · rw [h]
    exact .inl ⟨rfl, rfl⟩
  · rw [h]
    exact .inr ⟨rfl, n, rfl⟩
  · rw [h]
    exact .inr ⟨rfl, n, rfl⟩

theorem boundAll_takeImport (m : Merger) (u : UnitTag) (decls : List Decl) (b : Import.Binding) :
    Decl.boundAll (m.takeImport u decls b).2 = Decl.boundAll decls := by
  rcases takeImport_decls m u decls b with ⟨hdecls, -⟩ | ⟨hdecls, -⟩
  · rw [hdecls]
  · rw [hdecls, Decl.boundAll_renameAll]

theorem freeAll_takeImport (htag : u.tag ≠ "") {b : Import.Binding}
    (h : m.imports.nameFor b u.tag = b.name ∨
      m.imports.nameFor b u.tag ∉ Decl.boundAll decls) :
    Decl.freeAll (m.takeImport u decls b).2 = (Decl.freeAll decls).map
      (Import.respell [(b, m.imports.nameFor b u.tag)]) := by
  rcases takeImport_decls m u decls b with ⟨hdecls, hname⟩ | ⟨hdecls, n, hname⟩
  · have hid : Import.respell [(b, m.imports.nameFor b u.tag)] = id := by
      funext name
      apply Import.respell_eq_self
      rintro p hp rfl
      rw [List.mem_singleton.1 hp]
      exact hname
    rw [hdecls, hid, List.map_id]
  · have hlonger := length_lt_tagged htag b.name n
    have hfree : m.imports.nameFor b u.tag ∉ Decl.boundAll decls := by
      apply h.resolve_left
      intro hsame
      rw [← hname, hsame] at hlonger
      omega
    have hstep : Renaming.apply ⟨b.name, m.imports.nameFor b u.tag⟩ .root =
        Import.respell [(b, m.imports.nameFor b u.tag)] := by
      funext name
      exact Renaming.apply_root _ name
    rw [hdecls, Decl.freeAll_renameAll hfree, hstep]

/-- The references of a unit whose imports are taken are those of the unit, each under the names
that the imports are given. -/
theorem freeAll_takeImports (htag : u.tag ≠ "")
    (h : ∀ p ∈ m.imports.assign u.tag bs, p.2 = p.1.name ∨ p.2 ∉ Decl.boundAll decls) :
    Decl.freeAll (m.takeImports u decls bs).2 =
      (Decl.freeAll decls).map (Import.respell (m.imports.assign u.tag bs)) := by
  induction bs generalizing m decls with
  | nil => exact (List.map_id _).symm
  | cons b bs ih =>
    rw [Import.Table.assign, List.forall_mem_cons] at h
    have htail := @ih (m.takeImport u decls b).1 (m.takeImport u decls b).2
    rw [imports_takeImport, boundAll_takeImport] at htail
    rw [takeImports, htail h.2, freeAll_takeImport htag h.1, List.map_map]
    rfl

/-- What the aliases of a unit stand for once its imports are taken. Every reference keeps its place
and is respelled, and a name that no ordinary import of the unit has stays. An ordinary import is
given a name that stands for its path. Its references get that name unless a later import of the
unit has it for another path; then they are respelled as the references to that import are. -/
theorem takeImports_respells (htag : u.tag ≠ "")
    (hnames : ((bs.filter (!·.isSpecial)).map (·.name)).Nodup)
    (hfree : ∀ p ∈ m.imports.assign u.tag bs, p.2 = p.1.name ∨ p.2 ∉ Decl.boundAll decls) :
    ∃ spell : String → String,
      Decl.freeAll (m.takeImports u decls bs).2 = (Decl.freeAll decls).map spell ∧
      (∀ name, (∀ b ∈ bs, b.isSpecial = false → b.name ≠ name) → spell name = name) ∧
      ∀ before b given after, m.imports.assign u.tag bs = before ++ (b, given) :: after →
        b.isSpecial = false →
        (m.takeImports u decls bs).1.imports.path? given = some b.path ∧
        ((∀ c ∈ after.map (·.1), c.isSpecial = false → c.name = given → c.path = b.path) →
          spell b.name = given) ∧
        ∀ c ∈ after.map (·.1), c.isSpecial = false → c.name = given → c.path ≠ b.path →
          spell b.name = spell c.name := by
  have hkept := m.imports.eq_name_of_mem_assign u.tag bs
  have hordinary :
      (((m.imports.assign u.tag bs).filter (!·.1.isSpecial)).map (·.1.name)).Nodup := by
    rw [← m.imports.map_fst_assign u.tag bs, List.filter_map, List.map_map] at hnames
    exact hnames
  refine ⟨Import.respell (m.imports.assign u.tag bs), freeAll_takeImports htag hfree, ?_, ?_⟩
  · intro name hname
    apply Import.respell_eq_self
    intro p hp heq
    have hmem : p.1 ∈ bs := by
      rw [← m.imports.map_fst_assign u.tag bs]
      exact List.mem_map_of_mem hp
    by_cases hspecial : p.1.isSpecial = true
    · rw [hkept p hp hspecial, heq]
    · exact absurd heq (hname p.1 hmem (by simpa using hspecial))
  · intro before b given after hsplit hb
    have hspell : Import.respell (m.imports.assign u.tag bs) b.name =
        Import.respell after given := Import.respell_split hordinary hkept hb hsplit
    obtain ⟨before', after', hbs, hgiven, hafter⟩ := Import.Table.assign_eq_append hsplit
    have hpath := (m.imports.takeAll u.tag before').path?_nameFor hb htag
    rw [← hgiven] at hpath
    refine ⟨?_, fun hlater => ?_, fun c hc hordinary' hname _ => ?_⟩
    · rw [imports_takeImports, hbs, Import.Table.takeAll, List.foldl_append]
      exact Import.Table.path?_takeAll after' u.tag hpath
    · rw [hspell]
      apply Import.respell_eq_self
      intro p hp hname
      by_cases hspecial : p.1.isSpecial = true
      · rw [hkept p (hsplit ▸ List.mem_append_right _ (List.mem_cons_of_mem _ hp)) hspecial, hname]
      · -- The table has the name with the path of the import when its turn comes.
        have hsame := hlater p.1 (List.mem_map_of_mem hp) (by simpa using hspecial) hname
        rw [hafter] at hp
        obtain ⟨mid, rest, hmid⟩ := List.append_of_mem hp
        obtain ⟨mid', rest', -, hp2, -⟩ := Import.Table.assign_eq_append hmid
        have hthere := Import.Table.path?_takeAll mid' u.tag hpath
        rw [← hname, ← hsame] at hthere
        rw [hp2, Import.Table.nameFor_of_path? u.tag hthere, hname]
    · obtain ⟨p, hp, rfl⟩ := List.mem_map.1 hc
      obtain ⟨mid, rest, hmid⟩ := List.append_of_mem hp
      have hwhole : m.imports.assign u.tag bs = (before ++ (b, given) :: mid) ++ p :: rest := by
        rw [hsplit, hmid, List.append_assoc, List.cons_append]
      have hsub : after.Sublist (m.imports.assign u.tag bs) := by
        rw [hsplit]
        exact (List.sublist_cons_self _ _).trans (List.sublist_append_right _ _)
      have hlater := Import.respell_split (hordinary.sublist ((hsub.filter _).map _))
        (fun q hq => hkept q (hsub.subset hq)) hordinary' hmid
      calc Import.respell (m.imports.assign u.tag bs) b.name
          = Import.respell after p.1.name := by rw [hspell, hname]
        _ = Import.respell rest p.2 := hlater
        _ = Import.respell (m.imports.assign u.tag bs) p.1.name :=
          (Import.respell_split hordinary hkept hordinary' hwhole).symm

theorem takeImports_respells_conflict :
    let m := after "out" [(⟨"a", [Decl.ofImport "a" "x/a"]⟩, "A")]
    let decls := [Decl.ofImport "a" "y/a", Decl.ofImport "aB" "y/a", Decl.ofImport "c" "z/c",
      Decl.ofCalls "F" ["a", "aB", "c"]]
    ∃ bs, Import.Binding.collect ⟨"b", decls⟩ = .ok bs ∧
      ∃ spell : String → String,
        Decl.freeAll (m.takeImports ⟨1, "B"⟩ decls bs).2 = ["F", "a", "aB", "c"].map spell ∧
        spell "F" = "F" ∧ spell "a" = "aB" ∧ spell "aB" = "aB" ∧ spell "c" = "c" ∧
        (m.takeImports ⟨1, "B"⟩ decls bs).1.imports.path? "aB" = some "y/a" ∧
        (m.takeImports ⟨1, "B"⟩ decls bs).1.imports.path? "c" = some "z/c" := by
  intro m decls
  let binding (name path : String) : Import.Binding :=
    ⟨name, path, some name, .string, "`" ++ path ++ "`"⟩
  let bs := [binding "a" "y/a", binding "aB" "y/a", binding "c" "z/c"]
  have hcollect : Import.Binding.collect ⟨"b", decls⟩ = .ok bs := by decide +kernel
  have hassign : m.imports.assign "B" bs = [(binding "a" "y/a", "aB"), (binding "aB" "y/a", "aB"),
      (binding "c" "z/c", "c")] := by decide +kernel
  have hrefs : Decl.freeAll decls = ["F", "a", "aB", "c"] := by decide +kernel
  obtain ⟨spell, hspell, hother, hgiven⟩ := @takeImports_respells m ⟨1, "B"⟩ decls bs (by decide)
    (by decide) (by decide +kernel)
  obtain ⟨hpath, ha, -⟩ := hgiven [] _ _ _ hassign (by decide)
  obtain ⟨-, haB, -⟩ := hgiven [_] _ _ _ hassign (by decide)
  obtain ⟨hpath', hc, -⟩ := hgiven [_, _] _ _ _ hassign (by decide)
  exact ⟨bs, hcollect, spell, hrefs ▸ hspell, hother "F" (by decide), ha (by decide),
    haB (by decide), hc (by decide), hpath, hpath'⟩

/-- A unit with different aliases, none of which is declared or bound, can have references that end
up at the path of another import: a name is given to one import and given up by the next. -/
theorem exists_alias_confused :
    ∃ (m : Merger) (u : UnitTag) (file : SourceFile) (bs : List Import.Binding),
      m.Reachable ∧ u.tag ≠ "" ∧ Import.Binding.collect file = .ok bs ∧ (bs.map (·.name)).Nodup ∧
      (∀ p ∈ m.imports.assign u.tag bs, ∀ name ∈ [p.1.name, p.2],
        name ∉ Decl.boundAll file.decls ∧
        name ∉ (Decl.headsAll file.decls).filterMap Head.plain?) ∧
      ∃ b ∈ bs, b.isSpecial = false ∧ ∃ (i : Nat) (new path : String),
        (Decl.freeAll file.decls)[i]? = some b.name ∧
        (Decl.freeAll (m.takeImports u file.decls bs).2)[i]? = some new ∧
        (m.takeImports u file.decls bs).1.imports.path? new = some path ∧ path ≠ b.path := by
  let binding (name path : String) : Import.Binding :=
    ⟨name, path, some name, .string, "`" ++ path ++ "`"⟩
  refine ⟨after "out" [(⟨"a", [Decl.ofImport "a" "x/a"]⟩, "A")], ⟨1, "B"⟩,
    ⟨"b", [Decl.ofImport "a" "y/a", Decl.ofImport "aB" "z/a", Decl.ofCalls "F" ["a", "aB"]]⟩,
    [binding "a" "y/a", binding "aB" "z/a"], .merge _ "A" (.start "out"), by decide,
    by decide +kernel, by decide, by decide +kernel, binding "a" "y/a", by decide, by decide,
    1, "aBB", "z/a", ?_⟩
  decide +kernel

end Merger

end GoWeave
