import GoWeave.Proofs.Command.FileSystem

/-!
# File trees as file systems

No operation on a file tree removes anything, and none turns a file into a directory or the other
way round. Paths are found by their directories alone, so a path that leads somewhere leads there in
every later tree. File trees are therefore steady file systems, and so are file trees with links to
other paths and with files that must not be written.
-/
namespace GoWeave.Command

open FileView (look text? Keeps)

namespace FileTree

variable {t t' t'' : FileTree} {location loc : List String} {parts : List String}
  {path text : String} {paths : List String}

/-! ## Entries -/

/-- The root is a directory. -/
theorem ne_nil_of_get?_ne (h : t.get? loc ≠ some .dir) : loc ≠ [] := by
  rintro rfl
  exact h rfl

theorem get?_put_self (h : loc ≠ []) (e : FileEntry) : (t.put loc e).get? loc = some e := by
  simp [get?, put, h]

theorem lookup_filter_ne (h : location ≠ loc) (entries : List (List String × FileEntry)) :
    (entries.filter (·.1 ≠ loc)).lookup location = entries.lookup location := by
  induction entries with
  | nil => rfl
  | cons e entries ih =>
    rw [List.filter_cons]
    by_cases he : e.1 = loc
    · have hne : (location == e.1) = false := by simpa [he] using h
      rw [if_neg (by simpa using he), ih, List.lookup_cons, hne]
    · rw [if_pos (by simpa using he), List.lookup_cons, List.lookup_cons, ih]

theorem get?_put_of_ne (h : location ≠ loc) (e : FileEntry) :
    (t.put loc e).get? location = t.get? location := by
  have hne : (location == loc) = false := by simpa using h
  simp only [get?, put, List.lookup_cons, hne, lookup_filter_ne h]

/-! ## Paths -/

theorem walk_cons (t : FileTree) (location : List String) (part : String) (parts : List String) :
    t.walk location (part :: parts) =
      if part = "." then t.walk location parts
      else if part = ".." then t.walk location.dropLast parts
      else
        match t.get? (location ++ [part]) with
        | none => .error .notFound
        | some (.file _) => .error .notDirectory
        | some .dir => t.walk (location ++ [part]) parts := by
  by_cases hdot : part = "."
  · rw [if_pos hdot, hdot, walk]
  · by_cases hdots : part = ".."
    · rw [if_neg hdot, if_pos hdots, hdots, walk]
    · cases hget : t.get? (location ++ [part]) with
      | none => simp [walk, hdot, hdots, hget]
      | some e => cases e <;> simp [walk, hdot, hdots, hget]

/-- Every directory of a tree is one of another. -/
def DirsWithin (t t' : FileTree) : Prop :=
  ∀ loc, t.get? loc = some .dir → t'.get? loc = some .dir

theorem DirsWithin.walk (h : DirsWithin t t') (hwalk : t.walk location parts = .ok loc) :
    t'.walk location parts = .ok loc := by
  induction parts generalizing location with
  | nil => exact hwalk
  | cons part parts ih =>
    rw [walk_cons] at hwalk ⊢
    split_ifs at hwalk ⊢ with hdot hdots
    · exact ih hwalk
    · exact ih hwalk
    · cases hget : t.get? (location ++ [part]) with
      | none => simp [hget] at hwalk
      | some e =>
        cases e with
        | file text => simp [hget] at hwalk
        | dir =>
          rw [hget] at hwalk
          rw [h _ hget]
          exact ih hwalk

/-- A path that leads somewhere leads there in a tree with more directories. -/
theorem DirsWithin.locate (h : DirsWithin t t') (hlocate : t.locate path = .ok loc) :
    t'.locate path = .ok loc := by
  unfold FileTree.locate at hlocate ⊢
  dsimp only at hlocate ⊢
  cases hlast : (Path.parts path).getLast? with
  | none =>
    rw [hlast] at hlocate
    exact hlocate
  | some last =>
    rw [hlast] at hlocate
    dsimp only at hlocate ⊢
    split_ifs at hlocate ⊢ with hdots
    · exact h.walk hlocate
    · cases hwalk : t.walk [] (Path.parts path).dropLast with
      | error e => simp [hwalk] at hlocate
      | ok location =>
        rw [hwalk] at hlocate
        rw [h.walk hwalk]
        exact hlocate

instance : FileView FileTree (List String) where
  locate t path := (t.locate path).toOption
  look := get?

theorem locate_eq_some_iff : FileView.locate t path = some loc ↔ t.locate path = .ok loc := by
  change (t.locate path).toOption = some loc ↔ _
  cases t.locate path <;> simp [Except.toOption]

/-- Directories alone decide where paths lead. -/
theorem locate_eq_of_dirs (h : DirsWithin t t') (h' : DirsWithin t' t) (path : String) :
    FileView.locate t' path = FileView.locate t path := by
  apply Option.ext
  intro loc
  rw [locate_eq_some_iff, locate_eq_some_iff]
  exact ⟨h'.locate, h.locate⟩

/-- Directories stay directories, and files stay files. -/
structure Stays (t t' : FileTree) : Prop where
  dirs : DirsWithin t t'
  files : ∀ loc text, t.get? loc = some (.file text) → ∃ text', t'.get? loc = some (.file text')

theorem Stays.refl (t : FileTree) : Stays t t :=
  ⟨fun _ h => h, fun _ text h => ⟨text, h⟩⟩

theorem Stays.trans (h : Stays t t') (h' : Stays t' t'') : Stays t t'' := by
  refine ⟨fun loc hdir => h'.dirs loc (h.dirs loc hdir), fun loc text hfile => ?_⟩
  obtain ⟨text', hfile'⟩ := h.files loc text hfile
  exact h'.files loc text' hfile'

/-! ## Reading -/

theorem read_eq_ok_iff :
    t.read path = .ok text ↔
      ∃ loc, t.locate path = .ok loc ∧ t.get? loc = some (.file text) ∧
        namesDirectory path = false := by
  unfold read
  cases hlocate : t.locate path with
  | error e => simp
  | ok loc =>
    cases hget : t.get? loc with
    | none => simp [hget]
    | some e =>
      cases e with
      | dir => simp [hget]
      | file text' =>
        cases hnames : namesDirectory path <;> simp [hget]

/-! ## Writing -/

theorem exists_of_update {f : String → String} (h : t.update path f = .ok t') :
    ∃ loc old, t.locate path = .ok loc ∧ namesDirectory path = false ∧
      t.get? loc ≠ some .dir ∧ t' = t.put loc (.file (f old)) := by
  unfold update at h
  cases hlocate : t.locate path with
  | error e => simp [hlocate] at h
  | ok loc =>
    rw [hlocate] at h
    dsimp only at h
    split_ifs at h with hnames
    have hnames : namesDirectory path = false := by simpa using hnames
    cases hget : t.get? loc with
    | none =>
      rw [hget] at h
      exact ⟨loc, "", rfl, hnames, by simp [hget], (Except.ok.inj h).symm⟩
    | some e =>
      cases e with
      | dir => simp [hget] at h
      | file old =>
        rw [hget] at h
        exact ⟨loc, old, rfl, hnames, by simp [hget], (Except.ok.inj h).symm⟩

theorem stays_put_file (hget : t.get? loc ≠ some .dir) (text : String) :
    Stays t (t.put loc (.file text)) := by
  constructor
  · intro location hdir
    have hother : location ≠ loc := by
      rintro rfl
      exact hget hdir
    rwa [get?_put_of_ne hother]
  · intro location old hfile
    by_cases hsame : location = loc
    · rw [hsame, get?_put_self (ne_nil_of_get?_ne hget)]
      exact ⟨text, rfl⟩
    · rw [get?_put_of_ne hsame]
      exact ⟨old, hfile⟩

theorem keeps_put_file (hlocate : t.locate path = .ok loc) (hget : t.get? loc ≠ some .dir)
    (text : String) : Keeps [path] t (t.put loc (.file text)) := by
  have hback : DirsWithin (t.put loc (.file text)) t := by
    intro location hdir
    by_cases hsame : location = loc
    · rw [hsame, get?_put_self (ne_nil_of_get?_ne hget)] at hdir
      cases hdir
    · rwa [get?_put_of_ne hsame] at hdir
  refine ⟨locate_eq_of_dirs (stays_put_file hget text).dirs hback, fun location => ?_⟩
  by_cases hsame : location = loc
  · exact .inr ⟨path, List.mem_cons_self, hsame ▸ locate_eq_some_iff.2 hlocate⟩
  · exact .inl (get?_put_of_ne hsame _)

theorem keeps_update {f : String → String} (h : t.update path f = .ok t') : Keeps [path] t t' := by
  obtain ⟨loc, old, hlocate, -, hget, rfl⟩ := exists_of_update h
  exact keeps_put_file hlocate hget _

theorem stays_update {f : String → String} (h : t.update path f = .ok t') : Stays t t' := by
  obtain ⟨loc, old, -, -, hget, rfl⟩ := exists_of_update h
  exact stays_put_file hget _

theorem read_update (h : t.update path (fun _ => text) = .ok t') : t'.read path = .ok text := by
  have hdirs := (stays_update h).dirs
  obtain ⟨loc, old, hlocate, hnames, hget, rfl⟩ := exists_of_update h
  exact read_eq_ok_iff.2
    ⟨loc, hdirs.locate hlocate, get?_put_self (ne_nil_of_get?_ne hget) _, hnames⟩

/-- A file that has been written can be written in every later tree. -/
theorem exists_update_again {f g : String → String} (h : t.update path f = .ok t')
    (hstays : Stays t' t'') : ∃ last, t''.update path g = .ok last := by
  have hdirs := (stays_update h).dirs
  obtain ⟨loc, old, hlocate, hnames, hget, rfl⟩ := exists_of_update h
  have hlocate'' := hstays.dirs.locate (hdirs.locate hlocate)
  obtain ⟨text, hfile⟩ := hstays.files loc (f old) (get?_put_self (ne_nil_of_get?_ne hget) _)
  exact ⟨t''.put loc (.file (g text)), by simp [update, hlocate'', hnames, hfile]⟩

/-! ## Making directories -/

theorem makeDirs_cons (t : FileTree) (location : List String) (part : String)
    (parts : List String) :
    t.makeDirs location (part :: parts) =
      if part = "." then t.makeDirs location parts
      else if part = ".." then t.makeDirs location.dropLast parts
      else
        match t.get? (location ++ [part]) with
        | none => (t.put (location ++ [part]) .dir).makeDirs (location ++ [part]) parts
        | some .dir => t.makeDirs (location ++ [part]) parts
        | some (.file _) =>
          .error (if parts.isEmpty then .alreadyExists else .notDirectory) := by
  by_cases hdot : part = "."
  · rw [if_pos hdot, hdot, makeDirs]
  · by_cases hdots : part = ".."
    · rw [if_neg hdot, if_pos hdots, hdots, makeDirs]
    · cases hget : t.get? (location ++ [part]) with
      | none => simp [makeDirs, hdot, hdots, hget]
      | some e => cases e <;> simp [makeDirs, hdot, hdots, hget]

/-- Everything is as it was, except for new directories. -/
def AddsDirs (t t' : FileTree) : Prop :=
  ∀ loc, t'.get? loc = t.get? loc ∨ t.get? loc = none ∧ t'.get? loc = some .dir

theorem AddsDirs.trans (h : AddsDirs t t') (h' : AddsDirs t' t'') : AddsDirs t t'' := by
  intro loc
  rcases h loc with heq | ⟨hnone, hdir⟩
  · rw [← heq]
    exact h' loc
  · rcases h' loc with heq' | ⟨hnone', -⟩
    · exact .inr ⟨hnone, heq'.trans hdir⟩
    · simp [hdir] at hnone'

theorem AddsDirs.stays (h : AddsDirs t t') : Stays t t' := by
  have hkept : ∀ loc e, t.get? loc = some e → t'.get? loc = some e := by
    intro loc e he
    rcases h loc with heq | ⟨hnone, -⟩
    · rw [heq, he]
    · simp [he] at hnone
  exact ⟨fun loc => hkept loc .dir, fun loc text hfile => ⟨text, hkept loc _ hfile⟩⟩

theorem AddsDirs.text?_eq (h : AddsDirs t t') (loc : List String) : text? t' loc = text? t loc := by
  change (t'.get? loc).bind _ = (t.get? loc).bind _
  rcases h loc with heq | ⟨hnone, hdir⟩
  · rw [heq]
  · rw [hnone, hdir]
    rfl

theorem addsDirs_put (h : t.get? loc = none) : AddsDirs t (t.put loc .dir) := by
  intro location
  by_cases hsame : location = loc
  · have hdir : t.get? loc ≠ some .dir := by simp [h]
    rw [hsame, get?_put_self (ne_nil_of_get?_ne hdir)]
    exact .inr ⟨h, rfl⟩
  · exact .inl (get?_put_of_ne hsame _)

theorem addsDirs_makeDirs (h : t.makeDirs location parts = .ok t') : AddsDirs t t' := by
  induction parts generalizing t location with
  | nil =>
    cases h
    exact fun _ => .inl rfl
  | cons part parts ih =>
    rw [makeDirs_cons] at h
    by_cases hdot : part = "."
    · rw [if_pos hdot] at h
      exact ih h
    · by_cases hdots : part = ".."
      · rw [if_neg hdot, if_pos hdots] at h
        exact ih h
      · rw [if_neg hdot, if_neg hdots] at h
        cases hget : t.get? (location ++ [part]) with
        | none =>
          rw [hget] at h
          exact (addsDirs_put hget).trans (ih h)
        | some e =>
          cases e with
          | file text => simp [hget] at h
          | dir =>
            rw [hget] at h
            exact ih h

/-- Directories that were made once are there in every later tree. -/
theorem makeDirs_of_dirsWithin (h : t.makeDirs location parts = .ok t')
    (hdirs : DirsWithin t' t'') : t''.makeDirs location parts = .ok t'' := by
  induction parts generalizing t location with
  | nil => rfl
  | cons part parts ih =>
    rw [makeDirs_cons] at h ⊢
    by_cases hdot : part = "."
    · rw [if_pos hdot] at h ⊢
      exact ih h
    · by_cases hdots : part = ".."
      · rw [if_neg hdot, if_pos hdots] at h ⊢
        exact ih h
      · rw [if_neg hdot, if_neg hdots] at h ⊢
        have hnext : ∀ s : FileTree, s.makeDirs (location ++ [part]) parts = .ok t' →
            s.get? (location ++ [part]) = some .dir →
            t''.get? (location ++ [part]) = some .dir := by
          intro s hs hdir
          exact hdirs _ ((addsDirs_makeDirs hs).stays.dirs _ hdir)
        cases hget : t.get? (location ++ [part]) with
        | none =>
          rw [hget] at h
          rw [hnext _ h (get?_put_self (by simp) _)]
          exact ih h
        | some e =>
          cases e with
          | file text => simp [hget] at h
          | dir =>
            rw [hget] at h
            rw [hnext _ h hget]
            exact ih h

/-! ## Operations -/

/-- A change of the tree is made if it succeeds. -/
theorem perform_apply (change : FileTree → Except SystemError FileTree) (t : FileTree) :
    (∃ t', change t = .ok t' ∧ perform (apply change) t = (.ok (), t')) ∨
      ∃ e, change t = .error e ∧ perform (apply change) t = (.error e, t) := by
  have hrun : perform (apply change) t = (apply change).run t := rfl
  rw [hrun, apply, StateT.run_bind, StateT.run_get, pure_bind]
  cases change t with
  | ok t' => exact .inl ⟨t', rfl, rfl⟩
  | error e => exact .inr ⟨e, rfl, rfl⟩

variable {change : FileTree → Except SystemError FileTree}

theorem exists_of_apply_ok (h : (perform (apply change) t).1 = .ok ()) :
    ∃ t', change t = .ok t' ∧ perform (apply change) t = (.ok (), t') := by
  rcases perform_apply change t with hok | ⟨e, -, herror⟩
  · exact hok
  · rw [herror] at h
    cases h

theorem apply_ok (h : change t = .ok t') : perform (apply change) t = (.ok (), t') := by
  rcases perform_apply change t with ⟨t₁, hok, happly⟩ | ⟨e, herror, -⟩
  · cases hok.symm.trans h
    exact happly
  · cases herror.symm.trans h

theorem apply_error {e : SystemError} (h : (perform (apply change) t).1 = .error e) :
    (perform (apply change) t).2 = t := by
  rcases perform_apply change t with ⟨t', -, hok⟩ | ⟨e', -, herror⟩
  · rw [hok] at h
    cases h
  · rw [herror]

/-- What holds of a tree and of what a change makes of it holds of the tree that is left. -/
theorem of_apply {P : FileTree → Prop} (hsame : P t) (hchange : ∀ t', change t = .ok t' → P t') :
    P (perform (apply change) t).2 := by
  rcases perform_apply change t with ⟨t', hok, happly⟩ | ⟨e, -, happly⟩
  · rw [happly]
    exact hchange t' hok
  · rw [happly]
    exact hsame

theorem keeps_apply_update (path : String) (f : String → String) (t : FileTree) :
    Keeps [path] t (perform (apply (·.update path f)) t).2 :=
  of_apply (.refl [path] t) fun _ h => keeps_update h

theorem stays_apply_update (path : String) (f : String → String) (t : FileTree) :
    Stays t (perform (apply (·.update path f)) t).2 :=
  of_apply (.refl t) fun _ h => stays_update h

theorem addsDirs_createDirs (path : String) (t : FileTree) :
    AddsDirs t (perform (Workspace.createDirs path) t).2 :=
  of_apply (fun _ => .inl rfl) fun _ h => addsDirs_makeDirs h

instance : FileSystem FileTree (List String) where
  keeps_read _ t := .refl [] t
  keeps_write path _ t := keeps_apply_update path _ t
  keeps_write_error {_ _ t _} h := (apply_error h).symm ▸ .refl [] t
  keeps_append path _ t := keeps_apply_update path _ t
  locate_createDirs path t _ _ h :=
    locate_eq_some_iff.2 ((addsDirs_createDirs path t).stays.dirs.locate (locate_eq_some_iff.1 h))
  text?_createDirs path t := (addsDirs_createDirs path t).text?_eq

/-- What is there stays what it is in every later tree. -/
theorem stays_of_grows (h : Grows paths t t') : Stays t t' := by
  induction h with
  | refl => exact .refl t
  | read _ path ih => exact ih
  | write _ _ text ih => exact ih.trans (stays_apply_update _ _ _)
  | writeFailed _ _ ih => exact ih.trans (stays_apply_update _ _ _)
  | append _ _ text ih => exact ih.trans (stays_apply_update _ _ _)
  | createDirs _ path ih => exact ih.trans (addsDirs_createDirs path _).stays

/-- A file that has been written or added to can be written or added to in every later tree. -/
theorem apply_update_again {f : String → String}
    (h : (perform (apply (·.update path f)) t).1 = .ok ())
    (hgrows : Grows paths (perform (apply (·.update path f)) t).2 t') :
    (perform (apply (·.update path f)) t').1 = .ok () := by
  obtain ⟨t₁, hupdate, happly⟩ := exists_of_apply_ok h
  rw [happly] at hgrows
  obtain ⟨last, hlast⟩ := exists_update_again hupdate (stays_of_grows hgrows)
  rw [apply_ok hlast]

instance : SteadyFileSystem FileTree (List String) where
  look_of_read h := by
    obtain ⟨loc, hlocate, hget, -⟩ := read_eq_ok_iff.1 h
    exact ⟨loc, locate_eq_some_iff.2 hlocate, hget⟩
  read_again h _ hlocate hlook := by
    obtain ⟨-, -, -, hnames⟩ := read_eq_ok_iff.1 h
    exact read_eq_ok_iff.2 ⟨_, locate_eq_some_iff.1 hlocate, hlook, hnames⟩
  read_written h := by
    obtain ⟨t₁, hupdate, happly⟩ := exists_of_apply_ok h
    exact happly ▸ read_update hupdate
  write_again := apply_update_again
  append_again := apply_update_again
  createDirs_again {path paths t t'} h hgrows := by
    obtain ⟨t₁, hmake, happly⟩ := exists_of_apply_ok h
    have happly : perform (Workspace.createDirs path) t = (.ok (), t₁) := happly
    rw [happly] at hgrows
    have hagain : perform (Workspace.createDirs path) t' = (.ok (), t') :=
      apply_ok (makeDirs_of_dirsWithin hmake (stays_of_grows hgrows).dirs)
    rw [hagain]
    exact ⟨rfl, .refl [] t'⟩

end FileTree

/-! ## Trees with links -/

/-- A file tree in which some paths are links to others, and some locations must not be written. -/
structure GuardedTree where
  files : FileTree
  guarded : List (List String)
  links : List (String × String)
  deriving DecidableEq, Repr

namespace GuardedTree

/-- The path that a path stands for. -/
def resolve (t : GuardedTree) (path : String) : String :=
  (t.links.lookup path).getD path

/-- An operation on the file that a path stands for. -/
def within {α : Type} (path : String) (op : String → StateM FileTree α) : StateM GuardedTree α :=
  fun t =>
    let (a, files) := perform (op (t.resolve path)) t.files
    (a, { t with files })

def isGuarded (t : GuardedTree) (path : String) : Bool :=
  t.guarded.any (t.files.locate (t.resolve path) = .ok ·)

/-- An operation that is refused if it is to write to a guarded location. -/
def unlessGuarded (path : String) (op : String → StateM FileTree (Except SystemError Unit)) :
    StateM GuardedTree (Except SystemError Unit) := fun t =>
  if t.isGuarded path then (.error ⟨13, "Permission denied"⟩, t) else (within path op).run t

instance : Workspace (StateM GuardedTree) where
  read path := within path Workspace.read
  write path text := unlessGuarded path (Workspace.write · text)
  append path text := unlessGuarded path (Workspace.append · text)
  createDirs path := within path Workspace.createDirs
  pathExists path := within path Workspace.pathExists
  confirm _ := pure none

instance : FileView GuardedTree (List String) where
  locate t path := FileView.locate t.files (t.resolve path)
  look t := look t.files

variable {t t' : GuardedTree} {files : FileTree} {path : String} {paths : List String}
  {op : String → StateM FileTree (Except SystemError Unit)}

theorem locate_eq (t : GuardedTree) (path : String) :
    FileView.locate t path = FileView.locate t.files (t.resolve path) := rfl

theorem perform_within {α : Type} (path : String) (op : String → StateM FileTree α)
    (t : GuardedTree) :
    perform (within path op) t = ((perform (op (t.resolve path)) t.files).1,
      { t with files := (perform (op (t.resolve path)) t.files).2 }) := rfl

theorem perform_read (path : String) (t : GuardedTree) :
    perform (Workspace.read path) t = ((perform (Workspace.read (t.resolve path)) t.files).1,
      { t with files := (perform (Workspace.read (t.resolve path)) t.files).2 }) :=
  perform_within path Workspace.read t

theorem perform_write (path text : String) (t : GuardedTree) :
    perform (Workspace.write path text) t =
      perform (unlessGuarded path (Workspace.write · text)) t := rfl

theorem perform_append (path text : String) (t : GuardedTree) :
    perform (Workspace.append path text) t =
      perform (unlessGuarded path (Workspace.append · text)) t := rfl

theorem perform_createDirs (path : String) (t : GuardedTree) :
    perform (Workspace.createDirs path) t =
      ((perform (Workspace.createDirs (t.resolve path)) t.files).1,
        { t with files := (perform (Workspace.createDirs (t.resolve path)) t.files).2 }) :=
  perform_within path Workspace.createDirs t

theorem keeps_of_files (h : Keeps (paths.map t.resolve) t.files files) :
    Keeps paths t { t with files } := by
  refine ⟨fun p => h.locate_eq (t.resolve p), fun loc => (h.look_eq loc).imp_right ?_⟩
  rintro ⟨q, hq, hlocate⟩
  obtain ⟨p, hp, rfl⟩ := List.mem_map.1 hq
  exact ⟨p, hp, hlocate⟩

/-- A write is refused, or it is made in the file that the path stands for. -/
theorem perform_unlessGuarded (path : String)
    (op : String → StateM FileTree (Except SystemError Unit)) (t : GuardedTree) :
    t.isGuarded path = true ∧
        perform (unlessGuarded path op) t = (.error ⟨13, "Permission denied"⟩, t) ∨
      t.isGuarded path = false ∧
        perform (unlessGuarded path op) t = ((perform (op (t.resolve path)) t.files).1,
          { t with files := (perform (op (t.resolve path)) t.files).2 }) := by
  have hrun : perform (unlessGuarded path op) t =
      if t.isGuarded path then (.error ⟨13, "Permission denied"⟩, t)
      else perform (within path op) t := rfl
  rw [hrun]
  cases t.isGuarded path with
  | true => exact .inl ⟨rfl, rfl⟩
  | false => exact .inr ⟨rfl, rfl⟩

theorem keeps_unlessGuarded
    (h : Keeps (paths.map t.resolve) t.files (perform (op (t.resolve path)) t.files).2) :
    Keeps paths t (perform (unlessGuarded path op) t).2 := by
  rcases perform_unlessGuarded path op t with ⟨-, hop⟩ | ⟨-, hop⟩
  · rw [hop]
    exact .refl paths t
  · rw [hop]
    exact keeps_of_files h

instance : FileSystem GuardedTree (List String) where
  keeps_read path t := by
    rw [perform_read]
    exact keeps_of_files (FileSystem.keeps_read (t.resolve path) t.files)
  keeps_write path text t := by
    rw [perform_write]
    exact keeps_unlessGuarded (FileSystem.keeps_write (t.resolve path) text t.files)
  keeps_write_error {path text t e} h := by
    rw [perform_write] at h ⊢
    rcases perform_unlessGuarded path (Workspace.write · text) t with ⟨-, hop⟩ | ⟨-, hop⟩
    · rw [hop]
      exact .refl [] t
    · rw [hop] at h ⊢
      exact keeps_of_files (FileSystem.keeps_write_error h)
  keeps_append path text t := by
    rw [perform_append]
    exact keeps_unlessGuarded (FileSystem.keeps_append (t.resolve path) text t.files)
  locate_createDirs path t p loc h := by
    rw [perform_createDirs, locate_eq]
    rw [locate_eq] at h
    exact FileSystem.locate_createDirs (t.resolve path) h
  text?_createDirs path t loc := by
    rw [perform_createDirs]
    exact FileSystem.text?_createDirs (t.resolve path) t.files loc

/-- The files grow, and the rest stays. -/
theorem exists_of_grows (h : Grows paths t t') :
    ∃ files, t' = { t with files } ∧ Grows (paths.map t.resolve) t.files files := by
  have hwrite : ∀ {mid : FileTree} (path : String)
      (op : String → StateM FileTree (Except SystemError Unit)),
      Grows (paths.map t.resolve) t.files mid →
      Grows (paths.map t.resolve) t.files (perform (op (t.resolve path)) mid).2 →
      ∃ files, (perform (unlessGuarded path op) { t with files := mid }).2 = { t with files } ∧
        Grows (paths.map t.resolve) t.files files := by
    intro mid path op hmid hlast
    rcases perform_unlessGuarded path op { t with files := mid } with ⟨-, hop⟩ | ⟨-, hop⟩
    · rw [hop]
      exact ⟨mid, rfl, hmid⟩
    · rw [hop]
      exact ⟨_, rfl, hlast⟩
  induction h with
  | refl => exact ⟨t.files, rfl, .refl⟩
  | read _ path ih =>
    obtain ⟨files, rfl, hfiles⟩ := ih
    rw [perform_read]
    exact ⟨_, rfl, hfiles.read (t.resolve path)⟩
  | @write _ _ path hpath text ih =>
    obtain ⟨files, rfl, hfiles⟩ := ih
    rw [perform_write]
    exact hwrite path (Workspace.write · text) hfiles
      (hfiles.write (List.mem_map_of_mem hpath) text)
  | @writeFailed _ _ path text e hfail ih =>
    obtain ⟨files, rfl, hfiles⟩ := ih
    rw [perform_write] at hfail ⊢
    rcases perform_unlessGuarded path (Workspace.write · text) { t with files } with
      ⟨-, hop⟩ | ⟨-, hop⟩
    · rw [hop]
      exact ⟨files, rfl, hfiles⟩
    · rw [hop] at hfail ⊢
      exact ⟨_, rfl, hfiles.writeFailed hfail⟩
  | @append _ _ path hpath text ih =>
    obtain ⟨files, rfl, hfiles⟩ := ih
    rw [perform_append]
    exact hwrite path (Workspace.append · text) hfiles
      (hfiles.append (List.mem_map_of_mem hpath) text)
  | createDirs _ path ih =>
    obtain ⟨files, rfl, hfiles⟩ := ih
    rw [perform_createDirs]
    exact ⟨_, rfl, hfiles.createDirs (t.resolve path)⟩

/-- A file that has been written or added to is not guarded, and can be written later. -/
theorem update_again {f : String → String}
    (h : (perform (unlessGuarded path fun q => FileTree.apply (·.update q f)) t).1 = .ok ())
    (hgrows : Grows paths
      (perform (unlessGuarded path fun q => FileTree.apply (·.update q f)) t).2 t') :
    (perform (unlessGuarded path fun q => FileTree.apply (·.update q f)) t').1 = .ok () := by
  rcases perform_unlessGuarded path (fun q => FileTree.apply (·.update q f)) t with
    ⟨-, hop⟩ | ⟨hfree, hop⟩
  · rw [hop] at h
    cases h
  · rw [hop] at h hgrows
    obtain ⟨files, rfl, hfiles⟩ := exists_of_grows hgrows
    obtain ⟨files₁, hupdate, happly⟩ := FileTree.exists_of_apply_ok h
    obtain ⟨loc, -, hlocate, -⟩ := FileTree.exists_of_update hupdate
    have hagain := FileTree.apply_update_again h hfiles
    rw [happly] at hfiles
    have hlater : files.locate (t.resolve path) = .ok loc :=
      (FileTree.stays_of_grows hfiles).dirs.locate
        ((FileTree.stays_update hupdate).dirs.locate hlocate)
    rcases perform_unlessGuarded path (fun q => FileTree.apply (·.update q f)) { t with files } with
      ⟨hguarded, -⟩ | ⟨-, hop'⟩
    · have hguarded : t.guarded.any (files.locate (t.resolve path) = .ok ·) = true := hguarded
      rw [hlater, ← hlocate] at hguarded
      exact absurd hguarded (Bool.eq_false_iff.1 hfree)
    · rw [hop']
      exact hagain

instance : SteadyFileSystem GuardedTree (List String) where
  look_of_read h := by
    rw [perform_read] at h
    exact SteadyFileSystem.look_of_read (σ := FileTree) h
  read_again {path text text' paths t t' loc} h hgrows hlocate hlook := by
    obtain ⟨files, rfl, hfiles⟩ := exists_of_grows hgrows
    rw [perform_read] at h ⊢
    exact SteadyFileSystem.read_again (σ := FileTree) h hfiles hlocate hlook
  read_written {path text t} h := by
    rw [perform_write] at h ⊢
    rcases perform_unlessGuarded path (Workspace.write · text) t with ⟨-, hop⟩ | ⟨-, hop⟩
    · rw [hop] at h
      cases h
    · rw [hop] at h ⊢
      rw [perform_read]
      exact SteadyFileSystem.read_written (σ := FileTree) h
  write_again := update_again
  append_again := update_again
  createDirs_again {path paths t t'} h hgrows := by
    rw [perform_createDirs] at h hgrows
    obtain ⟨files, rfl, hfiles⟩ := exists_of_grows hgrows
    obtain ⟨hok, hkeeps⟩ := SteadyFileSystem.createDirs_again (σ := FileTree) h hfiles
    rw [perform_createDirs]
    exact ⟨hok, keeps_of_files hkeeps⟩

end GuardedTree

end GoWeave.Command
